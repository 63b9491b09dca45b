import HookDispatch.Text.Boundaries

/-!
Blank characters are those of the Unicode property White_Space, which is wider than the blanks of
ASCII: it has the no-break space, the line separators and the ideographic space as well.
-/
namespace HookDispatch.Text

def blankBoundaries : List Nat :=
  [0x9, 0xe, 0x20, 0x21, 0x85, 0x86, 0xa0, 0xa1, 0x1680, 0x1681, 0x2000, 0x200b, 0x2028, 0x202a,
   0x202f, 0x2030, 0x205f, 0x2060, 0x3000, 0x3001]

def isBlank (c : Char) : Bool := insideBoundaries blankBoundaries c.toNat

def trimLeft (cs : List Char) : List Char := cs.dropWhile isBlank

def dropEndWhile (p : Char → Bool) (cs : List Char) : List Char :=
  (cs.reverse.dropWhile p).reverse

def trim (cs : List Char) : List Char := dropEndWhile isBlank (trimLeft cs)

theorem dropEndWhile_append_singleton (p : Char → Bool) (cs : List Char) (c : Char) :
    dropEndWhile p (cs ++ [c]) = if p c then dropEndWhile p cs else cs ++ [c] := by
  cases h : p c <;> simp [dropEndWhile, h]

end HookDispatch.Text
