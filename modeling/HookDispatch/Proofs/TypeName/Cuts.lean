import HookDispatch.Proofs.TypeName.Spelling

/-!
How a text is cut into pieces. A piece is written with its own characters, and it ends where the
text after it cannot be drawn into it. Cutting is the inverse of writing: the pieces of a text are
the only ones that the text is written with, with blanks between them or without.
-/
namespace HookDispatch.TypeName

open Text

namespace Piece

def chars : Piece → List Char
  | word w => w
  | lifetime name => '\'' :: name
  | rawMark => ['r', '#']
  | pathSep => [':', ':']
  | arrow => ['-', '>']
  | sign c => [c]

/-- A piece that occurs in texts. -/
def Proper : Piece → Prop
  | word w => IsWord w
  | lifetime name => ∀ c ∈ name, isWordChar c = true
  | sign c => isBlank c = false ∧ isWordChar c = false ∧ c ≠ '\''
  | rawMark | pathSep | arrow => True

def Ends (tail : List Char) : Piece → Prop
  | word w => tail.head?.any isWordChar = false ∧ (w = ['r'] → tail.head? ≠ some '#')
  | lifetime _ => tail.head?.any isWordChar = false
  | sign c => (c = ':' → tail.head? ≠ some ':') ∧ (c = '-' → tail.head? ≠ some '>')
  | rawMark | pathSep | arrow => True

end Piece

/-- The text is written with the pieces, with blanks at will around them. -/
inductive Spells : List Piece → List Char → Prop
  | nil : Spells [] []
  | blank {c : Char} {ps : List Piece} {text : List Char} (hc : isBlank c = true)
      (h : Spells ps text) : Spells ps (c :: text)
  | piece {p : Piece} {ps : List Piece} {text : List Char} (hp : p.Proper) (hends : p.Ends text)
      (h : Spells ps text) : Spells (p :: ps) (p.chars ++ text)

variable {c : Char} {p : Piece} {ps : List Piece} {rest text tail : List Char}

theorem head?_dropWhile_isWordChar (cs : List Char) :
    (cs.dropWhile isWordChar).head?.any isWordChar = false := by
  cases h : cs.dropWhile isWordChar with
  | nil => rfl
  | cons d ds =>
    have hd := List.head_dropWhile_not isWordChar (l := cs) (by simp [h])
    simp only [h, List.head_cons] at hd
    simpa using hd

namespace Piece

/-- What the first character of a text and the text after it can be cut into. -/
inductive Cut (c : Char) (rest : List Char) : Piece × List Char → Prop
  | lifetime (hc : c = '\'') :
      Cut c rest (.lifetime (rest.takeWhile isWordChar), rest.dropWhile isWordChar)
  | rawMark {after : List Char} (hc : c = 'r') (hrest : rest = '#' :: after) :
      Cut c rest (.rawMark, after)
  | word (hc : isWordChar c = true) (hraw : c = 'r' → rest.head? ≠ some '#') :
      Cut c rest (.word (c :: rest.takeWhile isWordChar), rest.dropWhile isWordChar)
  | pathSep {after : List Char} (hc : c = ':') (hrest : rest = ':' :: after) :
      Cut c rest (.pathSep, after)
  | arrow {after : List Char} (hc : c = '-') (hrest : rest = '>' :: after) :
      Cut c rest (.arrow, after)
  | sign (hquote : c ≠ '\'') (hword : isWordChar c = false)
      (hcolon : c = ':' → rest.head? ≠ some ':') (hdash : c = '-' → rest.head? ≠ some '>') :
      Cut c rest (.sign c, rest)

theorem cut_next (c : Char) (rest : List Char) : Cut c rest (next c rest) := by
  unfold next
  split
  · next hc => exact .lifetime hc
  · next hquote =>
    split
    · next hword =>
      split
      · next after hafter =>
        split
        · next hraw =>
          -- The word is a single letter, so the mark comes directly after it.
          obtain ⟨hr, hshort⟩ := Bool.and_eq_true_iff.mp hraw
          have hsplit := List.takeWhile_append_dropWhile (p := isWordChar) (l := rest)
          rw [List.isEmpty_iff.mp hshort, hafter, List.nil_append] at hsplit
          exact .rawMark (of_decide_eq_true hr) hsplit.symm
        · next hraw =>
          rw [← hafter]
          apply Cut.word hword
          intro hr hhead
          obtain ⟨after', rfl⟩ := List.head?_eq_some_iff.mp hhead
          apply hraw
          rw [hr]
          rfl
      · next hafter =>
        apply Cut.word hword
        intro _ hhead
        obtain ⟨after, rfl⟩ := List.head?_eq_some_iff.mp hhead
        exact hafter after rfl
    · next hword =>
      rw [Bool.not_eq_true] at hword
      split
      · exact .pathSep rfl rfl
      · exact .arrow rfl rfl
      · next hcolon hdash =>
        apply Cut.sign hquote hword
        · intro hc hhead
          obtain ⟨after, rfl⟩ := List.head?_eq_some_iff.mp hhead
          exact hcolon after hc rfl
        · intro hc hhead
          obtain ⟨after, rfl⟩ := List.head?_eq_some_iff.mp hhead
          exact hdash after hc rfl

/-- A text is cut in one way. -/
theorem Cut.next_eq {found : Piece × List Char} (h : Cut c rest found) : next c rest = found := by
  cases h with
  | lifetime hc =>
    rw [hc]
    rfl
  | rawMark hc hrest =>
    rw [hc, hrest]
    rfl
  | word hc hraw =>
    have hquote : c ≠ '\'' := by
      intro heq
      rw [heq] at hc
      cases hc
    unfold next
    rw [if_neg hquote, if_pos hc]
    split
    · next after hafter =>
      rw [if_neg, hafter]
      -- After a single letter the mark would be the next character of the text.
      intro hraw'
      obtain ⟨hr, hshort⟩ := Bool.and_eq_true_iff.mp hraw'
      have hsplit := List.takeWhile_append_dropWhile (p := isWordChar) (l := rest)
      rw [List.isEmpty_iff.mp hshort, hafter, List.nil_append] at hsplit
      apply hraw (of_decide_eq_true hr)
      rw [← hsplit]
      rfl
    · rfl
  | pathSep hc hrest =>
    rw [hc, hrest]
    rfl
  | arrow hc hrest =>
    rw [hc, hrest]
    rfl
  | sign hquote hword hcolon hdash =>
    unfold next
    rw [if_neg hquote, if_neg (Bool.eq_false_iff.mp hword)]
    split
    · exact absurd rfl (hcolon rfl)
    · exact absurd rfl (hdash rfl)
    · rfl

/-- A piece and the text after it make up the text that they are cut from. -/
theorem Cut.chars_append {found : Piece × List Char} (h : Cut c rest found) :
    found.1.chars ++ found.2 = c :: rest := by
  have hsplit := List.takeWhile_append_dropWhile (p := isWordChar) (l := rest)
  cases h with
  | lifetime hc => rw [chars, List.cons_append, hsplit, hc]
  | rawMark hc hrest => simp [chars, hc, hrest]
  | word => rw [chars, List.cons_append, hsplit]
  | pathSep hc hrest => simp [chars, hc, hrest]
  | arrow hc hrest => simp [chars, hc, hrest]
  | sign => rfl

theorem Cut.proper {found : Piece × List Char} (h : Cut c rest found) (hc : isBlank c = false) :
    found.1.Proper := by
  cases h with
  | lifetime =>
    intro d hd
    exact List.mem_takeWhile_imp hd
  | word hword => exact isWord_takeWhile hword rest
  | sign hquote hword => exact ⟨hc, hword, hquote⟩
  | rawMark | pathSep | arrow => trivial

theorem Cut.ends {found : Piece × List Char} (h : Cut c rest found) : found.1.Ends found.2 := by
  cases h with
  | lifetime => exact head?_dropWhile_isWordChar rest
  | word hword hraw =>
    refine ⟨head?_dropWhile_isWordChar rest, ?_⟩
    intro hr
    obtain ⟨hr, hshort⟩ := List.cons.inj hr
    have hsplit := List.takeWhile_append_dropWhile (p := isWordChar) (l := rest)
    rw [hshort, List.nil_append] at hsplit
    rw [hsplit]
    exact hraw hr
  | sign hquote hword hcolon hdash => exact ⟨hcolon, hdash⟩
  | rawMark | pathSep | arrow => trivial

/-- A piece is cut off again where it ends. -/
theorem cut_chars (hp : p.Proper) (hends : p.Ends tail) {body : List Char}
    (hchars : p.chars = c :: body) : Cut c (body ++ tail) (p, tail) := by
  cases p with
  | word w =>
    obtain ⟨htail, hraw⟩ := hends
    obtain rfl : w = c :: body := hchars
    have hbody : ∀ d ∈ body, isWordChar d = true :=
      fun d hd => hp.2 d (List.mem_cons_of_mem c hd)
    have hmark : c = 'r' → (body ++ tail).head? ≠ some '#' := by
      intro hc hhead
      cases body with
      | nil => exact hraw (by rw [hc]) hhead
      | cons d body =>
        have hd := hbody d List.mem_cons_self
        rw [Option.some.inj hhead] at hd
        cases hd
    have hcut : Cut c (body ++ tail) _ := .word (hp.2 c List.mem_cons_self) hmark
    rwa [takeWhile_append_of_head htail, dropWhile_append_of_head htail,
      List.takeWhile_eq_self_iff.mpr hbody, List.dropWhile_eq_nil_iff.mpr hbody] at hcut
  | lifetime name =>
    obtain ⟨rfl, rfl⟩ := List.cons.inj hchars
    have hcut : Cut '\'' (name ++ tail) _ := .lifetime rfl
    rwa [takeWhile_append_of_head hends, dropWhile_append_of_head hends,
      List.takeWhile_eq_self_iff.mpr hp, List.dropWhile_eq_nil_iff.mpr hp] at hcut
  | rawMark =>
    obtain ⟨rfl, rfl⟩ := List.cons.inj hchars
    exact .rawMark rfl rfl
  | pathSep =>
    obtain ⟨rfl, rfl⟩ := List.cons.inj hchars
    exact .pathSep rfl rfl
  | arrow =>
    obtain ⟨rfl, rfl⟩ := List.cons.inj hchars
    exact .arrow rfl rfl
  | sign c =>
    obtain ⟨rfl, rfl⟩ := List.cons.inj hchars
    exact .sign hp.2.2 hp.2.1 hends.1 hends.2

theorem next_chars (hp : p.Proper) (hends : p.Ends tail) {body : List Char}
    (hchars : p.chars = c :: body) : next c (body ++ tail) = (p, tail) :=
  (cut_chars hp hends hchars).next_eq

/-- A piece begins with a character that is not skipped. -/
theorem exists_chars_eq_cons (hp : p.Proper) :
    ∃ d body, p.chars = d :: body ∧ isBlank d = false := by
  cases p with
  | word w =>
    cases w with
    | nil => exact absurd rfl hp.1
    | cons d body => exact ⟨d, body, rfl, isWordChar_not_blank (hp.2 d List.mem_cons_self)⟩
  | lifetime name => exact ⟨_, _, rfl, by decide⟩
  | rawMark => exact ⟨_, _, rfl, by decide⟩
  | pathSep => exact ⟨_, _, rfl, by decide⟩
  | arrow => exact ⟨_, _, rfl, by decide⟩
  | sign d => exact ⟨d, [], rfl, hp.1⟩

end Piece

/-- A text is written with its pieces. -/
theorem spells_pieces (text : List Char) : Spells (pieces text) text := by
  fun_induction pieces text with
  | case1 => exact .nil
  | case2 c rest hblank ih => exact ih.blank hblank
  | case3 c rest hblank ih =>
    have hcut := Piece.cut_next c rest
    have hpiece := ih.piece (hcut.proper (Bool.not_eq_true _ ▸ hblank)) hcut.ends
    rwa [hcut.chars_append] at hpiece

/-- The pieces that a text is written with are its pieces. -/
theorem pieces_of_spells (h : Spells ps text) : pieces text = ps := by
  induction h with
  | nil => rw [pieces]
  | blank hc h ih => rw [pieces, if_pos hc, ih]
  | piece hp hends h ih =>
    obtain ⟨d, body, hchars, hd⟩ := Piece.exists_chars_eq_cons hp
    rw [hchars, List.cons_append, pieces, if_neg (by simp [hd]), Piece.next_chars hp hends hchars,
      ih]

theorem pieces_sign (hp : (Piece.sign c).Proper) (hends : (Piece.sign c).Ends text) :
    pieces (c :: text) = .sign c :: pieces text :=
  pieces_of_spells ((spells_pieces text).piece hp hends)

theorem pieces_space (text : List Char) : pieces (' ' :: text) = pieces text := by
  rw [pieces, if_pos (by decide)]

theorem spells_iff : Spells ps text ↔ pieces text = ps := by
  constructor
  · exact pieces_of_spells
  · intro h
    rw [← h]
    exact spells_pieces text

end HookDispatch.TypeName
