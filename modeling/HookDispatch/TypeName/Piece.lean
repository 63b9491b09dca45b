import HookDispatch.Text.Blank
import HookDispatch.Text.WordChar

/-!
The text of a type, cut into pieces. Blanks only separate. A word is a longest run of word
characters; a quote takes the word characters after it as the name of a lifetime; the word `r`
directly before `#` marks a raw identifier; `::` and `->` are one piece, and any other character
is a piece of its own.
-/
namespace HookDispatch.TypeName

open Text

inductive Piece where
  | word (chars : List Char)
  | lifetime (name : List Char)
  | rawMark
  | pathSep
  | arrow
  | sign (c : Char)
deriving DecidableEq, Repr

theorem length_dropWhile_le (p : Char → Bool) (cs : List Char) :
    (cs.dropWhile p).length ≤ cs.length :=
  (List.dropWhile_sublist p).length_le

def Piece.next (c : Char) (rest : List Char) : Piece × List Char :=
  if c = '\'' then (.lifetime (rest.takeWhile isWordChar), rest.dropWhile isWordChar)
  else if isWordChar c then
    match rest.dropWhile isWordChar with
    | '#' :: after =>
      if c = 'r' && (rest.takeWhile isWordChar).isEmpty then (.rawMark, after)
      else (.word (c :: rest.takeWhile isWordChar), '#' :: after)
    | after => (.word (c :: rest.takeWhile isWordChar), after)
  else
    match c, rest with
    | ':', ':' :: after => (.pathSep, after)
    | '-', '>' :: after => (.arrow, after)
    | c, rest => (.sign c, rest)

theorem Piece.length_next_le (c : Char) (rest : List Char) :
    (Piece.next c rest).2.length ≤ rest.length := by
  have hdrop := length_dropWhile_le isWordChar rest
  unfold Piece.next
  split
  · exact hdrop
  · split
    · split
      · next after heq =>
        rw [heq, List.length_cons] at hdrop
        split <;> simp only [List.length_cons] <;> omega
      · exact hdrop
    · split <;> simp

def pieces : List Char → List Piece
  | [] => []
  | c :: rest =>
    if isBlank c then pieces rest
    else (Piece.next c rest).1 :: pieces (Piece.next c rest).2
termination_by cs => cs.length
decreasing_by
  · simp
  · have := Piece.length_next_le c rest
    simp only [List.length_cons]
    omega

end HookDispatch.TypeName
