import HookDispatch.Text.Quoted

/-!
Literals of generated code. They differ from quoted text in the character NUL, which is spelled
with two hexadecimal digits where a following digit would make its short escape an octal one, and
a byte literal shows bytes instead of characters.
-/
namespace HookDispatch.Text

/-- The escape of NUL in front of the next code point. -/
def nulEscape (next : Option Nat) : List Char :=
  match next with
  | some n => if 0x30 ≤ n && n ≤ 0x37 then ['\\', 'x', '0', '0'] else ['\\', '0']
  | none => ['\\', '0']

def literalBody : List Char → List Char
  | [] => []
  | c :: rest =>
    (if c = '\x00' then nulEscape (rest.head?.map Char.toNat) else escape '"' c) ++
      literalBody rest

def stringLiteral (s : String) : String :=
  String.ofList ('"' :: literalBody s.toList ++ ['"'])

def upperHexDigit (n : Nat) : Char :=
  if n < 10 then Char.ofNat (0x30 + n) else Char.ofNat (0x41 + (n - 10))

def byteEscape (b : UInt8) (next : Option Nat) : List Char :=
  let c := Char.ofNat b.toNat
  if b = 0 then nulEscape next
  else if c = '\t' then ['\\', 't']
  else if c = '\n' then ['\\', 'n']
  else if c = '\r' then ['\\', 'r']
  else if c = '"' || c = '\\' then ['\\', c]
  else if 0x20 ≤ b && b ≤ 0x7e then [c]
  else ['\\', 'x', upperHexDigit (b.toNat / 16), upperHexDigit (b.toNat % 16)]

def byteLiteralBody : List UInt8 → List Char
  | [] => []
  | b :: rest => byteEscape b (rest.head?.map UInt8.toNat) ++ byteLiteralBody rest

def byteLiteral (bs : List UInt8) : String :=
  String.ofList ('b' :: '"' :: byteLiteralBody bs ++ ['"'])

end HookDispatch.Text
