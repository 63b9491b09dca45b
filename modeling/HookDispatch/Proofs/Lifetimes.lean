import HookDispatch.Proofs.OverloadKeys
import HookDispatch.Proofs.TypeName.Slots
import Mathlib.Logic.Relation

/-!
Lifetimes in written types. Lifetimes are dropped before the lists of a type are known. The one of
a reference and a bound after a plus leave no trace. The comma that parts a lifetime from its
neighbours in a list stays behind: it is not shown in front of the closing bracket, but it makes a
difference everywhere else, and so do the brackets of a list of lifetimes and the plus after a
lifetime that is the first of its bounds.
-/
namespace HookDispatch

namespace TypeName

open Relation

/-- A lifetime in a written type that can be left out, with the pieces before and after it. -/
inductive Removal where
  | ofReference (front : List Piece) (name : List Char) (back : List Piece)
  /-- A bound with the plus before it. -/
  | laterBound (front : List Piece) (name : List Char) (back : List Piece)
  /-- A bound with the plus after it, and the piece that comes next. -/
  | firstBound (front : List Piece) (name : List Char) (next : Piece) (back : List Piece)
  /-- An argument with the comma before it. -/
  | laterArgument (front : List Piece) (name : List Char) (back : List Piece)
  /-- An argument with the comma after it. -/
  | firstArgument (front : List Piece) (name : List Char) (back : List Piece)
  /-- A whole list, whatever stands in it. -/
  | wholeList (front inner back : List Piece)

namespace Removal

def written : Removal → List Piece
  | ofReference front name back => front ++ .sign '&' :: .lifetime name :: back
  | laterBound front name back => front ++ .sign '+' :: .lifetime name :: back
  | firstBound front name next back => front ++ .lifetime name :: .sign '+' :: next :: back
  | laterArgument front name back => front ++ .sign ',' :: .lifetime name :: back
  | firstArgument front name back => front ++ .lifetime name :: .sign ',' :: back
  | wholeList front inner back => front ++ .sign '<' :: (inner ++ .sign '>' :: back)

def elided : Removal → List Piece
  | ofReference front _ back => front ++ .sign '&' :: back
  | firstBound front _ next back => front ++ next :: back
  | laterBound front _ back | laterArgument front _ back | firstArgument front _ back
  | wholeList front _ back => front ++ back

/-- Arguments stand between commas and the brackets of their list. A first bound does not come
after a plus, and after it comes another bound that is no lifetime. -/
def WellPlaced : Removal → Prop
  | laterArgument _ _ back => back.head? = some (.sign ',') ∨ back.head? = some (.sign '>')
  | firstArgument front _ _ => front.getLast? = some (.sign '<') ∨ front.getLast? = some (.sign ',')
  | firstBound front _ next _ => (tokensOf front).getLast? ≠ some (.mark .plus) ∧
      ∃ t, Token.push [] next = [t] ∧ t ≠ .mark .plus
  | ofReference .. | laterBound .. | wholeList .. => True

/-- Whether the canonical text stays as it is. -/
def Traceless : Removal → Prop
  | ofReference .. | laterBound .. => True
  | laterArgument front _ back | firstArgument front _ back =>
    Idle (tokensOf front) (tokensOf back)
  | firstBound .. | wholeList .. => False

end Removal

/-- Two written types differ in one lifetime that leaves no trace. -/
def Elision (t u : TypeName) : Prop :=
  ∃ r : Removal, r.WellPlaced ∧ r.Traceless ∧ pieces t.source.toList = r.written ∧
    pieces u.source.toList = r.elided

/-- Two written types differ in lifetimes that leave no trace. -/
def SameButLifetimes : TypeName → TypeName → Prop := EqvGen Elision

variable {front back inner ps qs : List Piece} {p : Piece} {name : List Char} {x : Token}
  {t u : TypeName} {r : Removal}

theorem sameType_iff_kept : t.sameType u = true ↔
    (kept (tokenize t.source.toList)).map Token.square =
      (kept (tokenize u.source.toList)).map Token.square := by
  rw [sameType, beq_iff_eq]
  exact canonicalize_eq_iff_kept

theorem sameType_of_tokenize_eq (h : tokenize t.source.toList = tokenize u.source.toList) :
    t.sameType u = true := by
  rw [sameType_iff_kept, h]

section Arguments

theorem tokensOf_append_congr (h : ∀ seen, ps.foldl Token.push seen = qs.foldl Token.push seen)
    (front : List Piece) : tokensOf (front ++ ps) = tokensOf (front ++ qs) := by
  unfold tokensOf
  rw [List.foldl_append, List.foldl_append, h]

/-- An argument can be left out exactly if its comma is not shown. -/
theorem sameType_iff_idle
    (ht : tokenize t.source.toList = tokensOf front ++ .mark .comma :: tokensOf back)
    (hu : tokenize u.source.toList = tokensOf front ++ tokensOf back) :
    t.sameType u = true ↔ Idle (tokensOf front) (tokensOf back) := by
  rw [sameType_iff_kept, ht, hu]
  constructor
  · intro h
    have hlength := congrArg List.length h
    rw [List.length_map, List.length_map] at hlength
    by_contra hidle
    have hmore := length_kept_of_not_idle hidle
    omega
  · intro hidle
    rw [kept_of_idle hidle]

end Arguments

section Counts

/-- Written types that are the same have the same number of any token but commas. -/
theorem countP_eq_of_sameType (h : t.sameType u = true) {q : Token → Bool}
    (hq : q (.mark .comma) = false) :
    (tokenize t.source.toList).countP (q ∘ Token.square) =
      (tokenize u.source.toList).countP (q ∘ Token.square) := by
  have hsquare : (q ∘ Token.square) (.mark .comma) = false := hq
  have hcount := congrArg (List.countP q) (sameType_iff_kept.mp h)
  rwa [List.countP_map, List.countP_map, countP_kept hsquare, countP_kept hsquare] at hcount

/-- A lifetime takes nothing away but a plus. -/
theorem countP_push {q : Token → Bool} (hq : q (.mark .plus) = false) (seen : List Token)
    (p : Piece) : (Token.push seen p).countP q = seen.countP q + (Token.push [] p).countP q := by
  cases p with
  | lifetime name =>
    cases seen with
    | nil => rfl
    | cons t seen =>
      by_cases ht : t = .mark .plus
      · rw [ht, List.countP_cons_of_neg (by simp [hq])]
        rfl
      · simp [Token.push, ht]
  | rawMark => rfl
  | _ => simp [Token.push, List.countP_cons]

theorem countP_foldl_push {q : Token → Bool} (hq : q (.mark .plus) = false) (ps : List Piece)
    (seen : List Token) : (ps.foldl Token.push seen).countP q =
      seen.countP q + (ps.flatMap (Token.push [])).countP q := by
  induction ps generalizing seen with
  | nil => rfl
  | cons p ps ih =>
    rw [List.foldl_cons, ih, countP_push hq, List.flatMap_cons, List.countP_append, Nat.add_assoc]

/-- Tokens other than a plus are counted piece by piece. -/
theorem countP_tokensOf {q : Token → Bool} (hq : q (.mark .plus) = false) (ps : List Piece) :
    (tokensOf ps).countP q = (ps.flatMap (Token.push [])).countP q := by
  rw [tokensOf, List.countP_reverse, countP_foldl_push hq]
  exact Nat.zero_add _

/-- The brackets of a list are seen, whatever stands in the list. -/
theorem not_sameType_of_list
    (ht : pieces t.source.toList = front ++ .sign '<' :: (inner ++ .sign '>' :: back))
    (hu : pieces u.source.toList = front ++ back) : t.sameType u ≠ true := by
  intro h
  -- Angle brackets are spelled as square ones, so both are counted.
  have hcount := countP_eq_of_sameType h (q := (· == .mark .squareOpen)) rfl
  rw [tokenize, tokenize, countP_tokensOf rfl, countP_tokensOf rfl, ht, hu] at hcount
  simp only [List.flatMap_append, List.flatMap_cons, List.countP_append] at hcount
  have hopen : (Token.push [] (.sign '<')).countP ((· == .mark .squareOpen) ∘ Token.square) = 1 :=
    rfl
  omega

/-- The plus after a first bound is seen. -/
theorem not_sameType_of_bound (hfront : (tokensOf front).getLast? ≠ some (.mark .plus))
    (hp : Token.push [] p = [x]) (hx : x ≠ .mark .plus)
    (ht : pieces t.source.toList = front ++ .lifetime name :: .sign '+' :: p :: back)
    (hu : pieces u.source.toList = front ++ p :: back) : t.sameType u ≠ true := by
  have hwritten : tokenize t.source.toList =
      tokensOf front ++ [.mark .plus] ++ x :: tokensOf back := by
    have hbound : tokensOf (front ++ [.lifetime name, .sign '+']) =
        tokensOf front ++ [.mark .plus] := tokensOf_append hfront _
    have hsplit := tokensOf_append_cons hp hx (front ++ [.lifetime name, .sign '+']) back
    rw [List.append_assoc, hbound] at hsplit
    rw [tokenize, ht]
    exact hsplit
  have helided : tokenize u.source.toList = tokensOf front ++ x :: tokensOf back := by
    rw [tokenize, hu, tokensOf_append_cons hp hx]
  intro h
  have hcount := countP_eq_of_sameType h (q := (· == .mark .plus)) rfl
  have hplus : [Token.mark .plus].countP ((· == .mark .plus) ∘ Token.square) = 1 := rfl
  rw [hwritten, helided, List.countP_append, List.countP_append, List.countP_append, hplus]
    at hcount
  omega

end Counts

/-- A lifetime can be left out exactly if it leaves no trace. -/
theorem sameType_iff_traceless (hr : r.WellPlaced) (ht : pieces t.source.toList = r.written)
    (hu : pieces u.source.toList = r.elided) : t.sameType u = true ↔ r.Traceless := by
  cases r with
  | ofReference front name back =>
    refine iff_of_true (sameType_of_tokenize_eq ?_) trivial
    rw [tokenize, tokenize, ht, hu]
    apply tokensOf_append_congr
    intro seen
    rfl
  | laterBound front name back =>
    -- The lifetime takes away the plus that was pushed right before it.
    refine iff_of_true (sameType_of_tokenize_eq ?_) trivial
    rw [tokenize, tokenize, ht, hu]
    apply tokensOf_append_congr
    intro seen
    rfl
  | firstBound front name next back =>
    obtain ⟨hfront, x, hnext, hx⟩ := hr
    exact iff_of_false (not_sameType_of_bound hfront hnext hx ht hu) not_false
  | laterArgument front name back =>
    apply sameType_iff_idle
    · rw [tokenize, ht]
      exact tokensOf_append_cons rfl (by decide) front (.lifetime name :: back)
    · rw [tokenize, hu]
      rcases hr with hcomma | hclose
      · exact tokensOf_append_of_head? hcomma rfl (by decide) front
      · exact tokensOf_append_of_head? hclose rfl (by decide) front
  | firstArgument front name back =>
    have hparts : ∀ rest, tokensOf (front ++ rest) = tokensOf front ++ tokensOf rest := by
      intro rest
      rcases hr with hopen | hcomma
      · exact tokensOf_append_of_getLast? hopen rfl (by decide) rest
      · exact tokensOf_append_of_getLast? hcomma rfl (by decide) rest
    apply sameType_iff_idle
    · rw [tokenize, ht]
      refine (hparts _).trans (congrArg _ ?_)
      exact tokensOf_append_cons rfl (by decide) [.lifetime name] back
    · rw [tokenize, hu]
      exact hparts back
  | wholeList front inner back => exact iff_of_false (not_sameType_of_list ht hu) not_false

theorem SameButLifetimes.sameType (h : t.SameButLifetimes u) : t.sameType u = true := by
  have hcanonical : t.canonical = u.canonical := by
    induction h with
    | rel t u h =>
      obtain ⟨r, hr, htraceless, ht, hu⟩ := h
      exact beq_iff_eq.mp ((sameType_iff_traceless hr ht hu).mpr htraceless)
    | refl => rfl
    | symm _ _ _ ih => exact ih.symm
    | trans _ _ _ _ _ ih ih' => exact ih.trans ih'
  exact beq_iff_eq.mpr hcanonical

end TypeName

open HookDispatch.TypeName in
/-- One lifetime is left out. The type stays the same exactly if the lifetime leaves no trace:
always at a reference and at a bound after a plus, never with a whole list and at a bound before
the plus, and at an argument exactly if its comma is not shown. So do the keys of methods with such
a parameter. Any number of lifetimes that leave no trace can be left out of a method's types. -/
theorem traces_of_lifetimes (r : Removal) (hr : r.WellPlaced) {t u : TypeName}
    (ht : pieces t.source.toList = r.written) (hu : pieces u.source.toList = r.elided) :
    (t.sameType u = true ↔ r.Traceless) ∧
    (∀ (m n : Method) (before after : List Parameter) (p q : Parameter), m.name = n.name →
      (∀ p ∈ m.params, p.type.Enclosed) → (∀ q ∈ n.params, q.type.Enclosed) →
      m.params = before ++ p :: after → n.params = before ++ q :: after → p.type = t → q.type = u →
        (Signature.ofMethod m = Signature.ofMethod n ↔ r.Traceless)) ∧
    ∀ m n : Method, m.name = n.name →
      List.Forall₂ (fun p q => p.type.SameButLifetimes q.type) m.params n.params →
        Signature.ofMethod m = Signature.ofMethod n := by
  have hiff := sameType_iff_traceless hr ht hu
  refine ⟨hiff, ?_, ?_⟩
  · intro m n before after p q hname hm hn hmparams hnparams hp hq
    rw [Signature.ofMethod_eq_iff_of_name hname hm hn, hmparams, hnparams, ← hiff, sameType,
      beq_iff_eq, ← hp, ← hq]
    simp
  · intro m n hname htypes
    exact Signature.ofMethod_congr hname (htypes.imp fun _ _ h => h.sameType)

namespace Specimen

open HookDispatch.TypeName

def leading : Removal := .firstArgument (pieces "Foo<".toList) ['a'] (pieces "T>".toList)

def borrowing : Removal := .ofReference [] ['a'] (pieces "Foo<T, 'b>".toList)

def trailing : Removal := .laterArgument (pieces "&Foo<T".toList) ['b'] [.sign '>']

def taking (t : TypeName) : Method where
  name := "take"
  owner := "T"
  params := [{ name := "x", element := t }]

theorem enclosed_taking {t : TypeName} (h : t.Enclosed) :
    ∀ p ∈ (taking t).params, p.type.Enclosed := by
  intro p hp
  rw [List.mem_singleton.mp hp]
  exact h

theorem leading_wellPlaced : leading.WellPlaced := by
  left
  decide +kernel

theorem not_leading_traceless : ¬ leading.Traceless := by
  change ¬ Idle (tokensOf (pieces "Foo<".toList)) (tokensOf (pieces "T>".toList))
  have hback : tokensOf (pieces "T>".toList) = [.word ['T'], .mark .greater] := by decide +kernel
  rw [hback]
  rintro (hcommas | ⟨hcloses, -⟩)
  · cases hcommas (.word ['T']) List.mem_cons_self
  · cases hcloses

/-- Both lifetimes can be left out, one after the other. -/
theorem sameButLifetimes : SameButLifetimes ⟨"&'a Foo<T, 'b>"⟩ ⟨"&Foo<T>"⟩ := by
  have hborrowing : Elision ⟨"&'a Foo<T, 'b>"⟩ ⟨"&Foo<T, 'b>"⟩ :=
    ⟨borrowing, trivial, trivial, by decide +kernel, by decide +kernel⟩
  have htrailing : Elision ⟨"&Foo<T, 'b>"⟩ ⟨"&Foo<T>"⟩ := by
    refine ⟨trailing, ?_, ?_, by decide +kernel, by decide +kernel⟩
    · right
      rfl
    · right
      exact ⟨rfl, by decide +kernel⟩
  exact .trans _ _ _ (.rel _ _ hborrowing) (.rel _ _ htrailing)

end Specimen

open Specimen HookDispatch.TypeName in
theorem traces_of_lifetimes_specimen :
    leading.WellPlaced ∧ pieces "Foo<'a, T>".toList = leading.written ∧
      pieces "Foo<T>".toList = leading.elided ∧
      TypeName.sameType ⟨"Foo<'a, T>"⟩ ⟨"Foo<T>"⟩ = false ∧
      Signature.ofMethod (taking ⟨"Foo<'a, T>"⟩) ≠ Signature.ofMethod (taking ⟨"Foo<T>"⟩) ∧
      Signature.ofMethod (taking ⟨"&'a Foo<T, 'b>"⟩) = Signature.ofMethod (taking ⟨"&Foo<T>"⟩) := by
  have ht : pieces "Foo<'a, T>".toList = leading.written := by decide +kernel
  have hu : pieces "Foo<T>".toList = leading.elided := by decide +kernel
  have henclosed : TypeName.Enclosed ⟨"Foo<'a, T>"⟩ ∧ TypeName.Enclosed ⟨"Foo<T>"⟩ := by
    decide +kernel
  obtain ⟨htypes, hkeys, hchains⟩ := traces_of_lifetimes leading leading_wellPlaced
    (t := ⟨"Foo<'a, T>"⟩) (u := ⟨"Foo<T>"⟩) ht hu
  refine ⟨leading_wellPlaced, ht, hu, ?_, ?_, hchains _ _ rfl (.cons sameButLifetimes .nil)⟩
  · rw [Bool.eq_false_iff, ne_eq, htypes]
    exact not_leading_traceless
  · have hkey := hkeys (taking ⟨"Foo<'a, T>"⟩) (taking ⟨"Foo<T>"⟩) [] [] _ _ rfl
      (enclosed_taking henclosed.1) (enclosed_taking henclosed.2) rfl rfl rfl rfl
    rw [ne_eq, hkey]
    exact not_leading_traceless

open HookDispatch.TypeName in
/-- A first lifetime leaves its comma behind, so the list with it is another type than the list
without it. -/
theorem first_lifetime_seen :
    Enclosed ⟨"Foo<'a, T>"⟩ ∧ Enclosed ⟨"Foo<T>"⟩ ∧
      pieces "Foo<'a, T>".toList =
        pieces "Foo<".toList ++ [.lifetime ['a'], .sign ','] ++ pieces "T>".toList ∧
      pieces "Foo<T>".toList = pieces "Foo<".toList ++ pieces "T>".toList ∧
      canonicalize "Foo<'a, T>" = "Foo[, T]" ∧ canonicalize "Foo<T>" = "Foo[T]" ∧
      TypeName.sameType ⟨"Foo<'a, T>"⟩ ⟨"Foo<T>"⟩ = false := by
  decide +kernel

end HookDispatch
