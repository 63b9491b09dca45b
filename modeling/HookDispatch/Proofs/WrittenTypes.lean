import HookDispatch.Proofs.CatchAll
import HookDispatch.Proofs.Lifetimes
import HookDispatch.Proofs.Spacing
import HookDispatch.Source.Lexer

/-!
The types of described parameters and the types that are written. A described reference is a borrow
mark in front of the printed element. It is the written type exactly if the name of the lifetime in
between is cut off whole, which a name of word characters is. A raw lifetime and other characters of
identifiers leave marks behind, and then the described type is another one.
-/
namespace HookDispatch.Source

open Text HookDispatch.TypeName
open TokenTree (symbol render pieces_render_cons)

section Names

variable {c : Char} {name : String} {cs : List Char} {rest : List Char}

/-- Whether a name consists of characters of identifiers, behind the mark of a raw one or not. -/
def IsIdentifier (name : String) : Prop :=
  ∃ body, (∀ c ∈ body, isIdentContinue c = true) ∧
    (name.toList = body ∨ name.toList = 'r' :: '#' :: body)

/-- A character that no piece of a type is made of: it is a mark of its own, and one like others. -/
structure IsStray (c : Char) : Prop where
  proper : (Piece.sign c).Proper
  apart : c ≠ ':' ∧ c ≠ '-'
  other : Mark.ofChar c = .other

theorem isBlank_of_isIdentContinue (h : isIdentContinue c = true) : isBlank c = false := by
  have hpoints : ∀ n ∈ blankPoints, isIdentContinue (Char.ofNat n) = false := by decide +kernel
  rw [← Bool.not_eq_true]
  intro hblank
  have hc := hpoints c.toNat (mem_blankPoints hblank)
  rw [Char.ofNat_toNat, h] at hc
  cases hc

/-- What is no word character in an identifier is stray. -/
theorem isStray_of_isIdentContinue (h : isIdentContinue c = true) (hword : isWordChar c = false) :
    IsStray c := by
  have hhigh : 0x80 ≤ c.toNat := by
    simp only [isIdentContinue, Bool.or_eq_true, Bool.and_eq_true, decide_eq_true_eq] at h
    simp only [isWordChar, Bool.or_eq_false_iff] at hword
    rcases h with (h | h) | h
    · rw [h] at hword
      cases hword.1.1
    · rw [h] at hword
      cases hword.1.2
    · exact h.1
  have hne {d : Char} (hd : d.toNat < 0x80) : c ≠ d := by
    rintro rfl
    omega
  refine ⟨⟨isBlank_of_isIdentContinue h, hword, hne (by decide)⟩,
    ⟨hne (by decide), hne (by decide)⟩, ?_⟩
  unfold Mark.ofChar
  split <;> first | rfl | exact absurd rfl (hne (by decide))

theorem isStray_hash : IsStray '#' :=
  ⟨⟨by decide, by decide, by decide⟩, ⟨by decide, by decide⟩, rfl⟩

theorem isIdentContinue_of_mem_identRun (hc : c ∈ (identRun cs).1) : isIdentContinue c = true := by
  unfold identRun at hc
  split at hc
  · split at hc
    · exact List.mem_takeWhile_imp hc
    · cases hc
  · cases hc

/-- The names that are read from source text are identifiers. -/
theorem isIdentifier_of_identifier (h : identifier cs = some (name, rest)) : IsIdentifier name := by
  unfold identifier at h
  split at h
  · next cs =>
    refine ⟨(identRun cs).1, fun c hc => isIdentContinue_of_mem_identRun hc, Or.inr ?_⟩
    dsimp only at h
    split at h
    · cases h
    · cases h
      rw [String.toList_append, String.toList_ofList, String.toList_ofList]
      rfl
  · refine ⟨(identRun cs).1, fun c hc => isIdentContinue_of_mem_identRun hc, Or.inl ?_⟩
    dsimp only at h
    split at h
    · cases h
    · cases h
      rw [String.toList_ofList]

/-- An identifier that has other characters than word characters has a stray one after the first
word characters. -/
theorem IsIdentifier.exists_stray (h : IsIdentifier name)
    (hword : ¬ ∀ c ∈ name.toList, isWordChar c = true) :
    ∃ c after, name.toList.dropWhile isWordChar = c :: after ∧ IsStray c := by
  obtain ⟨body, hbody, hplain | hraw⟩ := h
  · cases hdrop : name.toList.dropWhile isWordChar with
    | nil => exact absurd (List.dropWhile_eq_nil_iff.mp hdrop) hword
    | cons c after =>
      have hc : isWordChar c = false := by
        have hhead := List.head?_dropWhile_not isWordChar name.toList
        rw [hdrop] at hhead
        simpa using hhead
      have hmem : c ∈ body := by
        rw [← hplain]
        exact (List.dropWhile_sublist _).subset (hdrop ▸ List.mem_cons_self)
      exact ⟨c, after, rfl, isStray_of_isIdentContinue (hbody c hmem) hc⟩
  · refine ⟨'#', body, ?_, isStray_hash⟩
    rw [hraw]
    rfl

end Names

namespace TypeExpr

def outerLifetime? : TypeExpr → Option String
  | .reference lifetime _ _ => lifetime
  | _ => none

/-- Whether the lifetime of the outermost reference is cut off whole. -/
def ShedsLifetime (t : TypeExpr) : Prop :=
  ∀ name, t.outerLifetime? = some name → ∀ c ∈ name.toList, isWordChar c = true

/-- Whether the lifetime of the outermost reference is named as in source text. -/
def NamesLifetime (t : TypeExpr) : Prop :=
  ∀ name, t.outerLifetime? = some name → IsIdentifier name

end TypeExpr

section Seam

variable {lifetime : Option String} {mutable : Bool} {target t : TypeExpr} {u : TypeName}

def lifetimePieces : Option String → List Piece
  | none => []
  | some name => pieces ('\'' :: name.toList)

def mutPieces (mutable : Bool) : List Piece := if mutable then [.word "mut".toList] else []

theorem pieces_lifetime (name : List Char) : pieces ('\'' :: name) =
    .lifetime (name.takeWhile isWordChar) :: pieces (name.dropWhile isWordChar) := by
  rw [pieces, if_neg (by decide)]
  rfl

/-- A reference is cut into its mark, its lifetime, whether it is mutable, and what it refers to. -/
theorem pieces_render_reference :
    pieces (TypeExpr.reference lifetime mutable target).render.toList =
      .sign '&' :: (lifetimePieces lifetime ++ (mutPieces mutable ++
        pieces target.render.toList)) := by
  have hmark (rest : Tokens) : pieces (render (.punct '&' false :: rest)).toList =
      .sign '&' :: pieces (render rest).toList := by
    rw [pieces_render_cons rfl, TokenTree.text, String.toList_singleton,
      pieces_sign ⟨by decide, by decide, by decide⟩ ⟨by simp, by simp⟩, pieces]
    rfl
  have hmut (rest : Tokens) :
      pieces (render ((if mutable then [TokenTree.ident "mut"] else []) ++ rest)).toList =
        mutPieces mutable ++ pieces (render rest).toList := by
    cases mutable with
    | false => rfl
    | true =>
      have hword : pieces "mut".toList = [.word "mut".toList] := by decide +kernel
      rw [if_pos rfl, List.singleton_append, pieces_render_cons rfl, TokenTree.text, hword]
      rfl
  cases lifetime with
  | none =>
    have htokens : (TypeExpr.reference none mutable target).tokens =
        .punct '&' false :: ((if mutable then [.ident "mut"] else []) ++ target.tokens) := by
      simp only [TypeExpr.tokens, List.append_assoc]
      rfl
    rw [TypeExpr.render, htokens, hmark, hmut]
    rfl
  | some name =>
    have htokens : (TypeExpr.reference (some name) mutable target).tokens =
        .punct '&' false :: .lifetime name ::
          ((if mutable then [.ident "mut"] else []) ++ target.tokens) := by
      simp only [TypeExpr.tokens, List.append_assoc]
      rfl
    rw [TypeExpr.render, htokens, hmark, pieces_render_cons rfl, TokenTree.text,
      String.toList_append, hmut]
    rfl

/-- The type of a described reference has no lifetime between its marks. -/
theorem pieces_type_reference (name : String) :
    pieces (parameter name (.reference lifetime mutable target)).type.source.toList =
      .sign '&' :: (mutPieces mutable ++ pieces target.render.toList) := by
  cases mutable with
  | false => exact pieces_ampersand target.render
  | true => exact pieces_ampersandMut target.render

/-- A lifetime of word characters leaves no trace behind the mark of a reference. -/
theorem sameType_of_shedsLifetime (name : String) (h : t.ShedsLifetime) :
    (parameter name t).type.sameType ⟨t.render⟩ = true := by
  cases t with
  | reference lifetime mutable target =>
    apply sameType_of_tokenize_eq
    rw [tokenize, tokenize, pieces_type_reference, pieces_render_reference]
    cases lifetime with
    | none => rfl
    | some l =>
      have hrest : l.toList.dropWhile isWordChar = [] := List.dropWhile_eq_nil_iff.mpr (h l rfl)
      rw [lifetimePieces, pieces_lifetime, hrest, pieces]
      rfl
  | _ => exact beq_self_eq_true _

/-- The rest of a lifetime that has a stray character is seen. -/
theorem not_sameType_of_stray (name : String) {l : String} {c : Char} {after : List Char}
    (ht : t.outerLifetime? = some l) (hrest : l.toList.dropWhile isWordChar = c :: after)
    (hc : IsStray c) : (parameter name t).type.sameType ⟨t.render⟩ ≠ true := by
  cases t with
  | reference lifetime mutable target =>
    obtain rfl : lifetime = some l := ht
    intro h
    have hcount := countP_eq_of_sameType h (q := (· == .mark .other)) rfl
    have hsign : pieces (c :: after) = .sign c :: pieces after :=
      pieces_sign hc.proper ⟨fun heq => absurd heq hc.apart.1, fun heq => absurd heq hc.apart.2⟩
    have hother : (Token.push [] (.sign c)).countP ((· == .mark .other) ∘ Token.square) = 1 := by
      rw [Token.push, hc.other]
      rfl
    rw [tokenize, tokenize, countP_tokensOf rfl, countP_tokensOf rfl, pieces_type_reference,
      pieces_render_reference, lifetimePieces, pieces_lifetime, hrest, hsign] at hcount
    simp only [List.flatMap_append, List.flatMap_cons, List.countP_append, List.cons_append]
      at hcount
    omega
  | _ => cases ht

/-- A described parameter has the type that is written exactly if the lifetime is cut off whole. -/
theorem sameType_iff_shedsLifetime (name : String) (ht : t.NamesLifetime) :
    (parameter name t).type.sameType ⟨t.render⟩ = true ↔ t.ShedsLifetime := by
  refine ⟨fun h l hl => ?_, sameType_of_shedsLifetime name⟩
  by_contra hword
  obtain ⟨c, after, hrest, hc⟩ := (ht l hl).exists_stray hword
  exact not_sameType_of_stray name hl hrest hc h

end Seam

section Keys

variable {f : FnItem} {m n : Method} {ws : List (Option String × TypeExpr)} {ps : List Parameter}

def writtenTypes (ws : List (Option String × TypeExpr)) : List String :=
  ws.map fun written => canonicalize written.2.render

def FnItem.writtenKey (f : FnItem) : HookDispatch.Signature :=
  ⟨unraw f.name ++ if f.params.isEmpty then ""
    else "(" ++ String.intercalate ", " (writtenTypes f.params) ++ ")"⟩

/-- A method made by hand from the name and the types that are written, with any spacing. -/
structure FnItem.MadeByHand (f : FnItem) (n : Method) : Prop where
  name : n.name = unraw f.name
  types : List.Forall₂ (fun written q => SamePieces ⟨written.2.render⟩ q.type) f.params n.params

theorem FnItem.MadeByHand.map_canonical (h : f.MadeByHand n) :
    n.params.map (·.type.canonical) = writtenTypes f.params := by
  rw [writtenTypes, ← List.forall₂_eq_eq_eq, List.forall₂_map_left_iff, List.forall₂_map_right_iff]
  exact h.types.flip.imp fun _ _ hsame => (SamePieces.canonical_eq hsame).symm

/-- The key of a method shows the written types if its parameters have them. -/
theorem ofMethod_eq_writtenKey (hname : m.name = unraw f.name)
    (htypes : m.params.map (·.type.canonical) = writtenTypes f.params) :
    Signature.ofMethod m = f.writtenKey := by
  have hempty := congrArg List.isEmpty htypes
  rw [writtenTypes, List.isEmpty_map, List.isEmpty_map] at hempty
  rw [Signature.ofMethod, Signature.parameterList, FnItem.writtenKey, hname, htypes, hempty]

theorem map_canonical_of_shedsLifetime
    (hps : List.Forall₂ (fun written p => ∃ name, parameter name written.2 = p) ws ps)
    (h : ∀ written ∈ ws, written.2.ShedsLifetime) :
    ps.map (·.type.canonical) = writtenTypes ws := by
  induction hps with
  | nil => rfl
  | cons hp _ ih =>
    obtain ⟨hfirst, hrest⟩ := List.forall_mem_cons.mp h
    obtain ⟨name, rfl⟩ := hp
    rw [List.map_cons, ih hrest, beq_iff_eq.mp (sameType_of_shedsLifetime name hfirst)]
    rfl

/-- Described parameters have the written types, all of them, exactly if each outermost lifetime is
cut off whole. -/
theorem map_canonical_iff
    (hps : List.Forall₂ (fun written p => ∃ name, parameter name written.2 = p) ws ps)
    (h : ∀ written ∈ ws, written.2.NamesLifetime) :
    ps.map (·.type.canonical) = writtenTypes ws ↔ ∀ written ∈ ws, written.2.ShedsLifetime := by
  refine ⟨fun htypes => ?_, map_canonical_of_shedsLifetime hps⟩
  induction hps with
  | nil => exact List.forall_mem_nil _
  | cons hp _ ih =>
    obtain ⟨hfirst, hrest⟩ := List.forall_mem_cons.mp h
    obtain ⟨name, rfl⟩ := hp
    obtain ⟨htype, htypes⟩ := List.cons.inj htypes
    refine List.forall_mem_cons.mpr ⟨?_, ih hrest htypes⟩
    exact (sameType_iff_shedsLifetime name hfirst).mp (beq_iff_eq.mpr htype)

/-- A method made by hand from what is written has the key of the described one if the parameters
of that have the written types, and otherwise another. -/
theorem FnItem.MadeByHand.key_eq_iff (hn : f.MadeByHand n) (hname : m.name = unraw f.name)
    (hps : List.Forall₂ (fun written p => ∃ name, parameter name written.2 = p) f.params m.params)
    (h : ∀ written ∈ f.params, written.2.NamesLifetime)
    (hmtypes : ∀ p ∈ m.params, p.type.Enclosed) (hntypes : ∀ q ∈ n.params, q.type.Enclosed) :
    Signature.ofMethod m = Signature.ofMethod n ↔
      ∀ written ∈ f.params, written.2.ShedsLifetime := by
  rw [Signature.ofMethod_eq_iff_of_name (hname.trans hn.name.symm) hmtypes hntypes,
    hn.map_canonical, map_canonical_iff hps h]

end Keys

end HookDispatch.Source

namespace HookDispatch

open Source HookDispatch.TypeName

/-- How a description shows the types that are written. A parameter has the written type, with any
spacing, if the lifetime behind its borrow is cut off whole. If all parameters are such, the key of
the method is its name with the written types, and a method made by hand from these has the same
key. A lifetime that is an identifier of other characters as well changes the type, and the key. -/
theorem described_as_written {b : ImplBlock} {d : Description} (h : b.describe = .ok d) :
    List.Forall₂ (fun f m =>
        m.name = unraw f.name ∧
        List.Forall₂ (fun written p =>
            (written.2.ShedsLifetime → ∀ u : TypeName, SamePieces ⟨written.2.render⟩ u →
              p.type.sameType u = true) ∧
            (written.2.NamesLifetime →
              (p.type.sameType ⟨written.2.render⟩ = true ↔ written.2.ShedsLifetime)))
          f.params m.params ∧
        ((∀ written ∈ f.params, written.2.ShedsLifetime) →
          Signature.ofMethod m = f.writtenKey ∧
            ∀ n, f.MadeByHand n → Signature.ofMethod m = Signature.ofMethod n) ∧
        ((∀ written ∈ f.params, written.2.NamesLifetime) → ∀ n, f.MadeByHand n →
          (∀ p ∈ m.params, p.type.Enclosed) → (∀ q ∈ n.params, q.type.Enclosed) →
            (Signature.ofMethod m = Signature.ofMethod n ↔
              ∀ written ∈ f.params, written.2.ShedsLifetime)))
      (b.methods.filter (·.tag?.isSome)) d.table.methods := by
  refine (ImplBlock.forall₂_methods h).imp ?_
  intro f m hmethod
  obtain ⟨tag, -, rfl⟩ := Option.map_eq_some_iff.mp hmethod
  have hps := f.forall₂_parameters
  refine ⟨rfl, hps.imp ?_, ?_, fun hnames n hn => hn.key_eq_iff rfl hps hnames⟩
  · rintro written p ⟨name, rfl⟩
    refine ⟨fun hsheds u hu => ?_, sameType_iff_shedsLifetime name⟩
    have hsame := beq_iff_eq.mp (sameType_of_shedsLifetime name hsheds)
    exact beq_iff_eq.mpr (hsame.trans hu.canonical_eq)
  · intro hsheds
    have htypes := map_canonical_of_shedsLifetime hps hsheds
    refine ⟨ofMethod_eq_writtenKey rfl htypes, fun n hn => ?_⟩
    rw [ofMethod_eq_writtenKey hn.name hn.map_canonical]
    exact ofMethod_eq_writtenKey rfl htypes

namespace Specimen

def borrowedBytes : TypeExpr :=
  .reference (some "a") true
    (.path (.mk false [.mk "Vec" (.angle false [.type (.path (.word "u8"))] false)]))

def borrowedRaw : TypeExpr := .reference (some "r#a") false (.path (.word "T"))

theorem describe_borrowedBytes : (takerBlock borrowedBytes).describe =
    .ok (takerDescription (parameter "m" borrowedBytes)) := by
  have htokens : borrowedBytes.element.tokens =
      [.ident "Vec", .punct '<' false, .ident "u8", .punct '>' false] := rfl
  refine describe_takerBlock _ ?_ rfl
  rw [TypeExpr.holdsBorrow, htokens]
  simp [borrows]

theorem describe_borrowedRaw : (takerBlock borrowedRaw).describe =
    .ok (takerDescription (parameter "m" borrowedRaw)) := by
  have htokens : borrowedRaw.element.tokens = [.ident "T"] := rfl
  refine describe_takerBlock _ ?_ rfl
  rw [TypeExpr.holdsBorrow, htokens]
  simp [borrows]

/-- The raw name is one that is read from source text. -/
theorem borrowedRaw_namesLifetime : borrowedRaw.NamesLifetime := by
  intro name hname
  obtain rfl := Option.some.inj hname
  have hread : identifier "r#a T".toList = some ("r#a", " T".toList) := by decide +kernel
  exact isIdentifier_of_identifier hread

theorem borrowedBytes_shedsLifetime : ∀ written ∈ (taker borrowedBytes).params,
    written.2.ShedsLifetime := by
  intro written hwritten name hname c hc
  rw [List.mem_singleton.mp hwritten] at hname
  cases hname
  rw [List.mem_singleton.mp hc]
  rfl

/-- The method as it is made by hand, with the lifetime. -/
theorem madeByHand_taking : (taker borrowedBytes).MadeByHand (taking ⟨"&'a mut Vec<u8>"⟩) where
  name := by decide +kernel
  types := by
    refine .cons ?_ .nil
    unfold SamePieces
    decide +kernel

end Specimen

open Specimen

/-- The lifetime of a borrow is neither in the described type nor in the key, and the key is that of
the method which is made with the whole type. -/
theorem described_as_written_specimen :
    ∃ d, (takerBlock borrowedBytes).describe = .ok d ∧ ∃ m, d.table.methods = [m] ∧
      m.params.map (·.type.source) = ["&mut Vec < u8 >"] ∧
      Signature.ofMethod m = ⟨"take(&mut Vec[u8])"⟩ ∧
      Signature.ofMethod m = Signature.ofMethod (taking ⟨"&'a mut Vec<u8>"⟩) := by
  obtain _ | ⟨⟨-, -, hkeys, -⟩, -⟩ := described_as_written describe_borrowedBytes
  obtain ⟨hkey, hsame⟩ := hkeys borrowedBytes_shedsLifetime
  have htext : (taker borrowedBytes).writtenKey = ⟨"take(&mut Vec[u8])"⟩ := by decide +kernel
  exact ⟨_, describe_borrowedBytes, _, rfl, by decide +kernel, hkey.trans htext,
    hsame _ madeByHand_taking⟩

/-- Of a raw lifetime a mark and a word are left in the type as it is written, and the described
type has neither. -/
theorem raw_lifetime_seen :
    borrowedRaw.NamesLifetime ∧
      (takerBlock borrowedRaw).describe = .ok (takerDescription (parameter "m" borrowedRaw)) ∧
      SamePieces ⟨borrowedRaw.render⟩ ⟨"&'r#a T"⟩ ∧
      (parameter "m" borrowedRaw).type.canonical = "&T" ∧
      canonicalize "&'r#a T" = "&#a T" ∧
      (takerDescription (parameter "m" borrowedRaw)).table.methods.map Signature.ofMethod =
        [⟨"take(&T)"⟩] ∧
      Signature.ofMethod (taking ⟨"&'r#a T"⟩) = ⟨"take(&#a T)"⟩ := by
  refine ⟨borrowedRaw_namesLifetime, describe_borrowedRaw, ?_⟩
  unfold SamePieces
  decide +kernel

end HookDispatch
