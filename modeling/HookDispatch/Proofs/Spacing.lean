import HookDispatch.Hooks.Collection
import HookDispatch.Proofs.OverloadKeys
import HookDispatch.Proofs.TypeName.Printed

/-!
Spacing carries no identity. Blanks that are put into a text at its ends or between its pieces
leave the pieces as they are, and so does printing a type from its tokens. Keys of methods and what
becomes of the methods of a table are decided by the pieces of the written types.
-/
namespace HookDispatch

open Text

namespace TypeName

/-- The second text is the first one with blanks put in, at its ends or between its pieces. -/
inductive Respaced : List Char → List Char → Prop
  | nil : Respaced [] []
  | insert {c : Char} {text text' : List Char} (hc : isBlank c = true) (h : Respaced text text') :
      Respaced text (c :: text')
  | blank {c : Char} {text text' : List Char} (hc : isBlank c = true) (h : Respaced text text') :
      Respaced (c :: text) (c :: text')
  | piece {c : Char} {rest text' : List Char} (hc : isBlank c = false)
      (h : Respaced (Piece.next c rest).2 text') :
      Respaced (c :: rest) ((Piece.next c rest).1.chars ++ text')

/-- Two written types differ in nothing but their spacing. -/
def SamePieces (t u : TypeName) : Prop := pieces t.source.toList = pieces u.source.toList

variable {p : Piece} {text text' tail tail' : List Char} {t u : TypeName}

/-- Every piece ends before a blank. -/
theorem Piece.ends_blank {d : Char} (hd : isBlank d = true) (h : tail.head? = some d)
    (p : Piece) : p.Ends tail := by
  have hword : tail.head?.any isWordChar = false := by
    rw [h]
    exact isWordChar_of_isBlank hd
  have hother : ∀ e, isBlank e = false → tail.head? ≠ some e := by
    intro e he heq
    rw [h] at heq
    rw [Option.some.inj heq, he] at hd
    cases hd
  cases p with
  | word w => exact ⟨hword, fun _ => hother '#' (by decide)⟩
  | lifetime name => exact hword
  | sign c => exact ⟨fun _ => hother ':' (by decide), fun _ => hother '>' (by decide)⟩
  | rawMark | pathSep | arrow => trivial

theorem Piece.Ends.of_head?_eq (h : p.Ends tail) (hhead : tail'.head? = tail.head?) :
    p.Ends tail' := by
  cases p with
  | word | lifetime | sign =>
    unfold Ends at h ⊢
    rwa [hhead]
  | rawMark | pathSep | arrow => trivial

/-- A respaced text begins as it did, or with a blank. -/
theorem Respaced.head? (h : Respaced text text') :
    text'.head? = text.head? ∨ ∃ d, text'.head? = some d ∧ isBlank d = true := by
  cases h with
  | nil => exact .inl rfl
  | insert hc => exact .inr ⟨_, rfl, hc⟩
  | blank => exact .inl rfl
  | @piece c rest after hc =>
    have hcut := Piece.cut_next c rest
    obtain ⟨d, body, hbody, -⟩ := Piece.exists_chars_eq_cons (hcut.proper hc)
    left
    rw [← hcut.chars_append, hbody]
    rfl

/-- A respaced text is written with the pieces of the text. -/
theorem Respaced.spells (h : Respaced text text') : Spells (pieces text) text' := by
  induction h with
  | nil =>
    rw [pieces]
    exact .nil
  | insert hc h ih => exact ih.blank hc
  | blank hc h ih =>
    rw [pieces, if_pos hc]
    exact ih.blank hc
  | @piece c rest after hc h ih =>
    -- What comes after the piece begins as before or with a blank, and neither is drawn into it.
    have hcut := Piece.cut_next c rest
    have hends : (Piece.next c rest).1.Ends after := by
      rcases h.head? with hsame | ⟨d, hhead, hd⟩
      · exact hcut.ends.of_head?_eq hsame
      · exact Piece.ends_blank hd hhead _
    rw [pieces, if_neg (by simp [hc])]
    exact ih.piece (hcut.proper hc) hends

theorem respaced_self (text : List Char) : Respaced text text := by
  fun_induction pieces text with
  | case1 => exact .nil
  | case2 c rest hblank ih => exact .blank hblank ih
  | case3 c rest hblank ih =>
    have hpiece := ih.piece (Bool.not_eq_true _ ▸ hblank)
    rwa [(Piece.cut_next c rest).chars_append] at hpiece

/-- Blanks may stand wherever a text can be split without a piece being cut. -/
theorem respaced_between (front back : List Char) {blanks : List Char}
    (hcut : pieces (front ++ back) = pieces front ++ pieces back)
    (hblanks : ∀ c ∈ blanks, isBlank c = true) :
    Respaced (front ++ back) (front ++ (blanks ++ back)) := by
  fun_induction pieces front with
  | case1 =>
    clear hcut
    induction blanks with
    | nil => exact respaced_self back
    | cons c blanks ih =>
      refine .insert (hblanks c List.mem_cons_self) (ih ?_)
      intro d hd
      exact hblanks d (List.mem_cons_of_mem c hd)
  | case2 c rest hblank ih =>
    rw [List.cons_append, pieces, if_pos hblank] at hcut
    exact .blank hblank (ih hcut)
  | case3 c rest hblank ih =>
    rw [List.cons_append, pieces, if_neg hblank, List.cons_append] at hcut
    obtain ⟨hpiece, hpieces⟩ := List.cons.inj hcut
    -- One and the same piece is cut off, so the texts after it match as well.
    have hwhole := (Piece.cut_next c (rest ++ back)).chars_append
    rw [hpiece, ← List.cons_append, ← (Piece.cut_next c rest).chars_append, List.append_assoc,
      List.append_cancel_left_eq] at hwhole
    rw [hwhole] at hpieces
    have hrest := ih hpieces
    rw [← hwhole] at hrest
    have hspaced := hrest.piece (Bool.not_eq_true _ ▸ hblank)
    rwa [hpiece, ← List.append_assoc, (Piece.cut_next c rest).chars_append] at hspaced

/-- Respaced texts are cut as they were. -/
theorem Respaced.pieces_eq (h : Respaced text text') : pieces text' = pieces text :=
  pieces_of_spells h.spells

theorem SamePieces.canonical_eq (h : t.SamePieces u) : t.canonical = u.canonical := by
  unfold canonical canonicalize canonicalChars tokenize
  rw [h]

theorem SamePieces.sameType (h : t.SamePieces u) : t.sameType u = true := by
  unfold TypeName.sameType
  rw [h.canonical_eq, beq_self_eq_true]

theorem SamePieces.isObject_eq (h : t.SamePieces u) : t.isObject = u.isObject := by
  unfold isObject
  rw [h.canonical_eq]

/-- A borrow in front of a type is cut apart from it. -/
theorem pieces_ampersand (text : String) :
    pieces ("&" ++ text).toList = .sign '&' :: pieces text.toList := by
  have hends : (Piece.sign '&').Ends text.toList := ⟨by simp, by simp⟩
  rw [String.toList_append]
  exact pieces_sign ⟨by decide, by decide, by decide⟩ hends

theorem pieces_ampersandMut (text : String) :
    pieces ("&mut " ++ text).toList = .sign '&' :: .word "mut".toList :: pieces text.toList := by
  have hmark : pieces "&mut".toList = [.sign '&', .word "mut".toList] := by decide +kernel
  have hparts : pieces ("&mut".toList ++ ' ' :: text.toList) =
      pieces "&mut".toList ++ pieces (' ' :: text.toList) := pieces_append rfl _
  rw [hmark, pieces_space] at hparts
  rw [String.toList_append]
  exact hparts

theorem SamePieces.borrowed (h : t.SamePieces u) :
    SamePieces ⟨"&" ++ t.source⟩ ⟨"&" ++ u.source⟩ := by
  unfold SamePieces
  rw [pieces_ampersand, pieces_ampersand, h]

theorem SamePieces.borrowedMutably (h : t.SamePieces u) :
    SamePieces ⟨"&mut " ++ t.source⟩ ⟨"&mut " ++ u.source⟩ := by
  unfold SamePieces
  rw [pieces_ampersandMut, pieces_ampersandMut, h]

end TypeName

structure Parameter.SpacedAlike (p q : Parameter) : Prop where
  name : p.name = q.name
  passing : p.passing = q.passing
  variadic : p.variadic = q.variadic
  element : p.element.SamePieces q.element

inductive ReturnType.SpacedAlike : ReturnType → ReturnType → Prop
  | void : SpacedAlike .void .void
  | value {t u : TypeName} (h : t.SamePieces u) : SpacedAlike (.value t) (.value u)
  | object : SpacedAlike .object .object
  | generic {t u : TypeName} (h : t.SamePieces u) :
      SpacedAlike (.generic t.source) (.generic u.source)

structure Method.SpacedAlike (m n : Method) : Prop where
  name : m.name = n.name
  owner : m.owner = n.owner
  params : List.Forall₂ Parameter.SpacedAlike m.params n.params
  ret : m.ret.SpacedAlike n.ret
  flags : m.flags = n.flags
  genericParams : m.genericParams = n.genericParams

structure MethodTable.SpacedAlike (t u : MethodTable) : Prop where
  typeName : t.typeName = u.typeName
  methods : List.Forall₂ Method.SpacedAlike t.methods u.methods

theorem Parameter.SpacedAlike.sameType {p q : Parameter} (h : p.SpacedAlike q) :
    p.type.sameType q.type = true := by
  unfold Parameter.type
  rw [h.passing]
  cases q.passing with
  | byValue => exact h.element.sameType
  | shared => exact h.element.borrowed.sameType
  | mutable => exact h.element.borrowedMutably.sameType

theorem ReturnType.SpacedAlike.isGeneric_eq {r r' : ReturnType} (h : r.SpacedAlike r') :
    r.isGeneric = r'.isGeneric := by
  cases h <;> rfl

/-- A written return type is classified by its pieces. -/
theorem TypeName.SamePieces.ofType {t u : TypeName} (h : t.SamePieces u) :
    (ReturnType.ofType t).SpacedAlike (ReturnType.ofType u) := by
  unfold ReturnType.ofType
  rw [h.canonical_eq, h.isObject_eq]
  split
  · exact .void
  · split
    · exact .object
    · exact .value h

theorem Method.SpacedAlike.key_eq {m n : Method} (h : m.SpacedAlike n) :
    Signature.ofMethod m = Signature.ofMethod n :=
  Signature.ofMethod_congr h.name (h.params.imp fun _ _ hp => hp.sameType)

namespace MethodTable

variable {t u : MethodTable} {m n : Method} {seen seen' : Traced Registry}

theorem any_variadic_eq {ps qs : List Parameter} (h : List.Forall₂ Parameter.SpacedAlike ps qs) :
    (ps.any (·.variadic)) = qs.any (·.variadic) := by
  induction h with
  | nil => rfl
  | cons hp _ ih => rw [List.any_cons, List.any_cons, hp.variadic, ih]

theorem SpacedAlike.skipReason_eq (h : t.SpacedAlike u) (hm : m.SpacedAlike n) :
    t.skipReason m = u.skipReason n := by
  have hrefuses : t.refuses m = u.refuses n := by
    funext reason
    cases reason <;> simp only [refuses, h.typeName, hm.name, hm.owner, hm.flags,
      hm.genericParams, hm.ret.isGeneric_eq, any_variadic_eq hm.params]
  rw [MethodTable.skipReason, MethodTable.skipReason, hrefuses]

structure CollectedAlike (seen seen' : Traced Registry) : Prop where
  events : seen.events = seen'.events
  entries : List.Forall₂ (fun e e' => e.1 = e'.1 ∧ e.2.SpacedAlike e'.2) seen.value.entries
    seen'.value.entries

theorem CollectedAlike.keys_eq (h : CollectedAlike seen seen') :
    seen.value.keys = seen'.value.keys := by
  unfold Registry.keys
  rw [← List.forall₂_eq_eq_eq, List.forall₂_map_left_iff, List.forall₂_map_right_iff]
  exact h.entries.imp fun _ _ he => he.1

theorem SpacedAlike.collectStep (h : t.SpacedAlike u) (hseen : CollectedAlike seen seen')
    (hm : m.SpacedAlike n) : CollectedAlike (t.collectStep seen m) (u.collectStep seen' n) := by
  unfold MethodTable.collectStep
  rw [← h.skipReason_eq hm, ← h.typeName, ← hm.name, ← hm.key_eq, ← hseen.keys_eq,
    ← hseen.events]
  cases t.skipReason m with
  | some reason => exact ⟨rfl, hseen.entries⟩
  | none =>
    dsimp only
    split
    · exact ⟨rfl, hseen.entries⟩
    · next hfree =>
      refine ⟨rfl, ?_⟩
      have hfree' := hfree
      rw [hseen.keys_eq] at hfree'
      dsimp only
      rw [Registry.entries_insert_of_not_mem hfree, Registry.entries_insert_of_not_mem hfree']
      exact List.rel_append hseen.entries (.cons ⟨rfl, hm⟩ .nil)

theorem SpacedAlike.foldl_collectStep (h : t.SpacedAlike u) {ms ns : List Method}
    (hms : List.Forall₂ Method.SpacedAlike ms ns) (hseen : CollectedAlike seen seen') :
    CollectedAlike (ms.foldl t.collectStep seen) (ns.foldl u.collectStep seen') := by
  induction hms generalizing seen seen' with
  | nil => exact hseen
  | cons hm _ ih => exact ih (h.collectStep hseen hm)

theorem SpacedAlike.collect (h : t.SpacedAlike u) : CollectedAlike t.collect u.collect :=
  h.foldl_collectStep h.methods ⟨rfl, .nil⟩

end MethodTable

open Source Source.TokenTree in
/-- Spacing carries no identity. Blanks at the ends of a text or between its pieces leave its
canonical spelling as it is, and printed tokens are spelled like any text that is written with
them. So written types that differ in spacing are one type, methods that differ in spacing have one
key, and of two tables that differ in spacing the same methods are collected, skipped and
shadowed. -/
theorem spacing_without_identity :
    (∀ t u : TypeName, TypeName.Respaced t.source.toList u.source.toList →
      TypeName.canonicalize u.source = TypeName.canonicalize t.source ∧ t.SamePieces u) ∧
    (∀ (ts : Tokens) (u : TypeName), AllLexical ts →
      TypeName.Spells (shown ts) u.source.toList →
        TypeName.canonicalize (render ts) = TypeName.canonicalize u.source ∧
          TypeName.SamePieces ⟨render ts⟩ u) ∧
    (∀ t u : TypeName, t.SamePieces u →
      t.sameType u = true ∧ t.isObject = u.isObject ∧
        (ReturnType.ofType t).SpacedAlike (ReturnType.ofType u)) ∧
    (∀ m n : Method, m.SpacedAlike n → Signature.ofMethod m = Signature.ofMethod n) ∧
    (∀ t u : MethodTable, t.SpacedAlike u →
      t.collect.value.keys = u.collect.value.keys ∧ t.collect.events = u.collect.events) := by
  refine ⟨?_, ?_, ?_, fun m n h => h.key_eq, ?_⟩
  · intro t u h
    have hsame : t.SamePieces u := h.pieces_eq.symm
    exact ⟨hsame.canonical_eq.symm, hsame⟩
  · intro ts u hts hu
    have hsame : TypeName.SamePieces ⟨render ts⟩ u := by
      unfold TypeName.SamePieces
      rw [pieces_render ts hts, TypeName.pieces_of_spells hu]
    exact ⟨hsame.canonical_eq, hsame⟩
  · intro t u h
    exact ⟨h.sameType, h.isObject_eq, h.ofType⟩
  · intro t u h
    exact ⟨h.collect.keys_eq, h.collect.events⟩

namespace Specimen

open Source (Tokens TokenTree)

def narrow : Method where
  name := "fill"
  owner := "T"
  params := [{ name := "x", element := ⟨"Vec<u8>"⟩, passing := .mutable }]

def wide : Method where
  name := "fill"
  owner := "T"
  params := [{ name := "x", element := ⟨"Vec <u8>"⟩, passing := .mutable }]

def vecTokens : Tokens := [.ident "Vec", .punct '<' false, .ident "u8", .punct '>' false]

theorem respaced_vec : TypeName.Respaced "Vec<u8>".toList "Vec <u8>".toList := by
  have hblank : ∀ c ∈ [' '], isBlank c = true := by
    intro c hc
    rw [List.mem_singleton.mp hc]
    decide
  exact TypeName.respaced_between "Vec".toList "<u8>".toList (by decide +kernel) hblank

theorem narrow_spacedAlike_wide : narrow.SpacedAlike wide where
  name := rfl
  owner := rfl
  params := .cons ⟨rfl, rfl, rfl, respaced_vec.pieces_eq.symm⟩ .nil
  ret := .void
  flags := rfl
  genericParams := rfl

end Specimen

open Specimen Source.TokenTree in
theorem spacing_without_identity_specimen :
    TypeName.canonicalize "Vec <u8>" = TypeName.canonicalize "Vec<u8>" ∧
      TypeName.canonicalize (render vecTokens) = TypeName.canonicalize "Vec<u8>" ∧
      Signature.ofMethod narrow = Signature.ofMethod wide ∧
      (MethodTable.collect ⟨"T", [narrow, wide]⟩).events =
        [.shadowed "T" ⟨"fill(&mut Vec[u8])"⟩] := by
  obtain ⟨hspaced, hprinted, -, hkeys, htables⟩ := spacing_without_identity
  have hlexical : AllLexical vecTokens :=
    ⟨rfl, ⟨by decide, by decide, by decide⟩, rfl, ⟨by decide, by decide, by decide⟩, trivial⟩
  have hspells : TypeName.Spells (shown vecTokens) "Vec<u8>".toList :=
    TypeName.spells_iff.mpr (by decide +kernel)
  have hsame : narrow.SpacedAlike narrow :=
    ⟨rfl, rfl, .cons ⟨rfl, rfl, rfl, rfl⟩ .nil, .void, rfl, rfl⟩
  have htable : MethodTable.SpacedAlike ⟨"T", [narrow, narrow]⟩ ⟨"T", [narrow, wide]⟩ :=
    ⟨rfl, .cons hsame (.cons narrow_spacedAlike_wide .nil)⟩
  refine ⟨(hspaced _ _ respaced_vec).1, (hprinted _ _ hlexical hspells).1,
    hkeys _ _ narrow_spacedAlike_wide, ?_⟩
  rw [← (htables _ _ htable).2]
  decide +kernel

end HookDispatch
