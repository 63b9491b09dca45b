import HookDispatch.Proofs.Text.Blanks
import HookDispatch.TypeName.Canonical

/-!
Words in the tokens of a written type. Whatever the text is, a word among its tokens is a row of
word characters and not empty, so no bracket and no separator of a spelling comes from a word.
-/
namespace HookDispatch.TypeName

open Text

def IsWord (w : List Char) : Prop := w ≠ [] ∧ ∀ c ∈ w, isWordChar c = true

theorem isWord_takeWhile {c : Char} (h : isWordChar c = true) (rest : List Char) :
    IsWord (c :: rest.takeWhile isWordChar) := by
  constructor
  · simp
  · intro d hd
    rcases List.mem_cons.mp hd with hfirst | hrest
    · rw [hfirst]
      exact h
    · exact List.mem_takeWhile_imp hrest

theorem Piece.isWord_next {c : Char} {rest w : List Char}
    (h : (Piece.next c rest).1 = .word w) : IsWord w := by
  unfold Piece.next at h
  split at h
  · cases h
  · split at h
    · rename_i hc
      split at h
      · split at h
        · cases h
        · cases h
          exact isWord_takeWhile hc rest
      · cases h
        exact isWord_takeWhile hc rest
    · split at h <;> cases h

theorem isWord_of_mem_pieces {text w : List Char} (h : .word w ∈ pieces text) : IsWord w := by
  fun_induction pieces text with
  | case1 => simp at h
  | case2 c rest hblank ih => exact ih h
  | case3 c rest hblank ih =>
    rcases List.mem_cons.mp h with hfirst | hrest
    · exact Piece.isWord_next hfirst.symm
    · exact ih hrest

/-- A lifetime takes a plus away and adds nothing. -/
theorem Token.push_lifetime_sublist (seen : List Token) (name : List Char) :
    (Token.push seen (.lifetime name)).Sublist seen := by
  simp only [Token.push]
  split
  · exact List.sublist_cons_self _ _
  · exact List.Sublist.refl seen

/-- Every word that is read is a piece. -/
theorem mem_of_mem_foldl_push {ps : List Piece} {seen : List Token} {w : List Char}
    (h : .word w ∈ ps.foldl Token.push seen) : .word w ∈ seen ∨ .word w ∈ ps := by
  induction ps generalizing seen with
  | nil => exact Or.inl h
  | cons p ps ih =>
    rw [List.foldl_cons] at h
    rcases ih h with hseen | hps
    · cases p with
      | word v =>
        rcases List.mem_cons.mp hseen with heq | hold
        · cases heq
          exact Or.inr List.mem_cons_self
        · exact Or.inl hold
      | lifetime name => exact Or.inl ((Token.push_lifetime_sublist seen name).subset hseen)
      | rawMark => exact Or.inl hseen
      | pathSep => exact Or.inl (by simpa [Token.push] using hseen)
      | arrow => exact Or.inl (by simpa [Token.push] using hseen)
      | sign c => exact Or.inl (by simpa [Token.push] using hseen)
    · exact Or.inr (List.mem_cons_of_mem p hps)

theorem isWord_of_mem_tokenize {text w : List Char} (h : .word w ∈ tokenize text) : IsWord w := by
  unfold tokenize tokensOf at h
  rw [List.mem_reverse] at h
  rcases mem_of_mem_foldl_push h with hnil | hpieces
  · simp at hnil
  · exact isWord_of_mem_pieces hpieces

end HookDispatch.TypeName
