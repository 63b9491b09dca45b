import HookDispatch.Text.Printable

/-!
Quoted text, for listings and messages. Between the quotes a backslash, the enclosing quote and
the common controls have short escapes, and every other character that is unprintable or would
join the character before it is written by its code point in lower-case hexadecimal.
-/
namespace HookDispatch.Text

/-- The code point of `c` in braces, after a backslash and a `u`. -/
def codePointEscape (c : Char) : List Char :=
  ['\\', 'u', '\x7b'] ++ Nat.toDigits 16 c.toNat ++ ['\x7d']

def escape (quote c : Char) : List Char :=
  if c = '\x00' then ['\\', '0']
  else if c = '\t' then ['\\', 't']
  else if c = '\r' then ['\\', 'r']
  else if c = '\n' then ['\\', 'n']
  else if c = '\\' || c = quote then ['\\', c]
  else if isExtender c || !isPrintable c then codePointEscape c
  else [c]

def quoteChar (c : Char) : String :=
  String.ofList ('\'' :: escape '\'' c ++ ['\''])

def quoteString (s : String) : String :=
  String.ofList ('"' :: s.toList.flatMap (escape '"') ++ ['"'])

end HookDispatch.Text
