import HookDispatch.Proofs.TypeName.Cuts
import HookDispatch.Source.TokenTree

/-!
Printed types cut into pieces. Printing parts tokens by spaces except where marks were joint, so a
printed token is cut off as it was, and two joint marks make a path separator or an arrow again.
-/
namespace HookDispatch.Source.TokenTree

open Text HookDispatch.TypeName

def joined : Char → Char → Option Piece
  | ':', ':' => some .pathSep
  | '-', '>' => some .arrow
  | _, _ => none

def openSign : Delimiter → Char
  | .paren => '('
  | .bracket => '['
  | .brace => '\x7b'

def closeSign : Delimiter → Char
  | .paren => ')'
  | .bracket => ']'
  | .brace => '\x7d'

mutual

def shownAlone : TokenTree → List Piece
  | ident s => pieces s.toList
  | lifetime name => pieces ('\'' :: name.toList)
  | punct c _ => [.sign c]
  | literal s => pieces s.toList
  | group d inner => .sign (openSign d) :: (shown inner ++ [.sign (closeSign d)])

def shown : List TokenTree → List Piece
  | [] => []
  | punct c true :: punct d joint :: rest =>
    match joined c d with
    | some p => p :: shown rest
    | none => .sign c :: shown (punct d joint :: rest)
  | t :: rest => shownAlone t ++ shown rest

end

def beginsApart (text : List Char) : Bool := text.head?.any fun c => c ≠ ':' && c ≠ '>'

mutual

/-- A token that is written in source text: marks are marks, and nothing else begins with one that
could end a path separator or an arrow. -/
def Lexical : TokenTree → Prop
  | ident s => beginsApart s.toList = true
  | lifetime _ => True
  | punct c _ => (Piece.sign c).Proper
  | literal s => beginsApart s.toList = true
  | group _ inner => AllLexical inner

def AllLexical : List TokenTree → Prop
  | [] => True
  | t :: rest => t.Lexical ∧ AllLexical rest

end

variable {c d : Char} {p : Piece} {t : TokenTree} {rest ts : List TokenTree} {text : List Char}

theorem pieces_joined (h : joined c d = some p) (text : List Char) :
    pieces (c :: d :: text) = p :: pieces text := by
  unfold joined at h
  split at h
  · cases h
    rw [pieces, if_neg (by decide)]
    rfl
  · cases h
    rw [pieces, if_neg (by decide)]
    rfl
  · cases h

theorem ends_sign_of_joined_eq_none (h : joined c d = none) (text : List Char) :
    (Piece.sign c).Ends (d :: text) := by
  constructor
  · rintro rfl hd
    cases hd
    cases h
  · rintro rfl hd
    cases hd
    cases h

/-- A mark is printed with a space after it or without one. -/
theorem exists_render_punct (c : Char) (joint : Bool) (rest : List TokenTree) :
    ∃ tail, (render (punct c joint :: rest)).toList = c :: tail ∧
      (joint = true → tail = (render rest).toList) ∧ pieces tail = pieces (render rest).toList := by
  rw [render]
  split
  · exact ⟨(render rest).toList, by simp [TokenTree.text], fun _ => rfl, rfl⟩
  · rename_i hgap
    refine ⟨' ' :: (render rest).toList, by simp [TokenTree.text], ?_, pieces_space _⟩
    rintro rfl
    exact absurd (by simp [isJoint]) hgap

/-- A token that is not joint is cut apart from what is printed after it. -/
theorem pieces_render_cons (h : t.isJoint = false) (rest : List TokenTree) :
    pieces (render (t :: rest)).toList = pieces t.text.toList ++ pieces (render rest).toList := by
  rw [render]
  cases rest with
  | nil => simp [render, pieces]
  | cons u rest =>
    rw [if_neg (by simp [h]), String.toList_append, String.toList_append, List.append_assoc,
      pieces_append rfl]
    exact congrArg _ (pieces_space _)

theorem ends_sign_of_beginsApart (h : beginsApart text = true) (c : Char) :
    (Piece.sign c).Ends text := by
  unfold beginsApart at h
  constructor
  · intro _ hhead
    rw [hhead] at h
    cases h
  · intro _ hhead
    rw [hhead] at h
    cases h

/-- Tokens other than marks are not drawn into a mark before them. -/
theorem beginsApart_text (hmark : ∀ d joint, t ≠ punct d joint) (h : t.Lexical) :
    beginsApart t.text.toList = true := by
  cases t with
  | ident s => exact h
  | lifetime name =>
    rw [TokenTree.text, String.toList_append]
    rfl
  | punct d joint => exact absurd rfl (hmark d joint)
  | literal s => exact h
  | group d inner =>
    rw [TokenTree.text]
    cases d <;> simp [enclose, beginsApart]

theorem beginsApart_append (h : beginsApart text = true) (tail : List Char) :
    beginsApart (text ++ tail) = true := by
  cases text with
  | nil => cases h
  | cons c text => exact h

theorem beginsApart_render (hmark : ∀ d joint, t ≠ punct d joint) (h : t.Lexical)
    (rest : List TokenTree) : beginsApart (render (t :: rest)).toList = true := by
  rw [render, String.toList_append, String.toList_append, List.append_assoc]
  exact beginsApart_append (beginsApart_text hmark h) _

theorem shown_cons (h : t.isJoint = false) (rest : List TokenTree) :
    shown (t :: rest) = t.shownAlone ++ shown rest := by
  cases t with
  | punct c joint =>
    obtain rfl : joint = false := h
    rw [shown]
    simp
  | _ => rfl

theorem shown_joint (hmark : ∀ d joint, t ≠ punct d joint) (c : Char) (rest : List TokenTree) :
    shown (punct c true :: t :: rest) = .sign c :: shown (t :: rest) := by
  cases t with
  | punct d joint => exact absurd rfl (hmark d joint)
  | _ => rfl

/-- A joint mark in front of tokens that are cut as they were. -/
theorem pieces_render_joint (h : AllLexical (punct c true :: ts))
    (hts : pieces (render ts).toList = shown ts)
    (hrest : pieces (render ts.tail).toList = shown ts.tail) :
    pieces (render (punct c true :: ts)).toList = shown (punct c true :: ts) := by
  obtain ⟨hc, hlexical⟩ := h
  obtain ⟨tail, htail, hjoint, -⟩ := exists_render_punct c true ts
  rw [htail, hjoint rfl]
  cases ts with
  | nil =>
    rw [render, String.toList_empty, pieces_sign hc ⟨by simp, by simp⟩, pieces]
    rfl
  | cons t rest =>
    by_cases hmark : ∀ d joint, t ≠ punct d joint
    · have hends := ends_sign_of_beginsApart (beginsApart_render hmark hlexical.1 rest) c
      rw [pieces_sign hc hends, hts, shown_joint hmark]
    · push Not at hmark
      obtain ⟨d, joint, rfl⟩ := hmark
      obtain ⟨after, hafter, -, hpieces⟩ := exists_render_punct d joint rest
      rw [shown]
      split
      · rename_i p hjoined
        rw [hafter, pieces_joined hjoined, hpieces]
        exact congrArg _ hrest
      · rename_i hjoined
        have hends : (Piece.sign c).Ends (render (punct d joint :: rest)).toList := by
          rw [hafter]
          exact ends_sign_of_joined_eq_none hjoined after
        rw [pieces_sign hc hends, hts]

theorem pieces_open (d : Delimiter) (text : List Char) :
    pieces (openSign d :: text) = .sign (openSign d) :: pieces text := by
  cases d <;> exact pieces_sign ⟨by decide, by decide, by decide⟩
    ⟨fun h => by simp [openSign] at h, fun h => by simp [openSign] at h⟩

theorem pieces_close (d : Delimiter) (text : List Char) :
    pieces (text ++ [closeSign d]) = pieces text ++ [.sign (closeSign d)] := by
  have hproper : (Piece.sign (closeSign d)).Proper := by
    cases d <;> exact ⟨by decide, by decide, by decide⟩
  rw [pieces_append (by cases d <;> rfl), pieces_sign hproper ⟨by simp, by simp⟩, pieces]

/-- Around the contents of a group stand its brackets and blanks. -/
theorem exists_toList_enclose (d : Delimiter) (isEmpty : Bool) (inner : String) :
    ∃ inside, (enclose d isEmpty inner).toList = openSign d :: (inside ++ [closeSign d]) ∧
      pieces inside = pieces inner.toList := by
  cases d with
  | paren | bracket => exact ⟨inner.toList, by simp [enclose, openSign, closeSign], rfl⟩
  | brace =>
    cases isEmpty with
    | true =>
      refine ⟨' ' :: inner.toList, by simp [enclose, openSign, closeSign], ?_⟩
      rw [pieces_space]
    | false =>
      refine ⟨' ' :: (inner.toList ++ [' ']), by simp [enclose, openSign, closeSign], ?_⟩
      rw [pieces_space, pieces_append rfl, pieces_space, pieces, List.append_nil]

/-- A group is cut off at its brackets. -/
theorem pieces_enclose (d : Delimiter) (isEmpty : Bool) (inner : String) :
    pieces (enclose d isEmpty inner).toList =
      .sign (openSign d) :: (pieces inner.toList ++ [.sign (closeSign d)]) := by
  obtain ⟨inside, hinside, hpieces⟩ := exists_toList_enclose d isEmpty inner
  rw [hinside, pieces_open, pieces_close, hpieces]

/-- What is printed of a token is cut as the token shows, if that holds of what is in a group. -/
theorem pieces_text (t : TokenTree) (h : t.Lexical) (hgroup : ∀ d inner, t = group d inner →
    pieces (render inner).toList = shown inner) : pieces t.text.toList = t.shownAlone := by
  cases t with
  | ident s => rfl
  | lifetime name =>
    rw [TokenTree.text, String.toList_append]
    rfl
  | punct c joint =>
    rw [TokenTree.text, String.toList_singleton, pieces_sign h ⟨by simp, by simp⟩, pieces]
    rfl
  | literal s => rfl
  | group d inner => rw [TokenTree.text, pieces_enclose, hgroup d inner rfl, shownAlone]

/-- What is printed of tokens is cut as the tokens show. -/
theorem pieces_render : ∀ ts : List TokenTree, AllLexical ts → pieces (render ts).toList = shown ts
  | [], _ => by rw [render, shown, String.toList_empty, pieces]
  | t :: rest, h => by
    have hrest := pieces_render rest h.2
    have hlater : ∀ u later, rest = u :: later → pieces (render later).toList = shown later := by
      rintro u later rfl
      exact pieces_render later h.2.2
    cases hjoint : t.isJoint with
    | false =>
      have hgroup : ∀ d inner, t = group d inner → pieces (render inner).toList = shown inner := by
        rintro d inner rfl
        exact pieces_render inner h.1
      rw [pieces_render_cons hjoint, pieces_text t h.1 hgroup, hrest, shown_cons hjoint]
    | true =>
      obtain ⟨c, rfl⟩ : ∃ c, t = punct c true := by
        cases t with
        | punct c joint => exact ⟨c, congrArg (punct c) hjoint⟩
        | _ => cases hjoint
      apply pieces_render_joint h hrest
      cases rest with
      | nil => exact hrest
      | cons u later => exact hlater u later rfl
termination_by ts => sizeOf ts

end HookDispatch.Source.TokenTree
