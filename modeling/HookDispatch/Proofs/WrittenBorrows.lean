import HookDispatch.Proofs.CatchAll
import HookDispatch.Proofs.CollectedHooks

/-!
Which methods are flagged as borrowing beyond the call. A type writes a borrow if, at some depth of
its token groups, there is a reference without a lifetime or a lifetime other than the static one.
The scan finds exactly these, so that a method is flagged if its result writes one, or one of its
parameters does behind its outer reference.
-/
namespace HookDispatch.Source

/-- The places in a row of tokens, at any depth of its groups: each is what begins there. -/
inductive Within : Tokens → Tokens → Prop
  | here (ts : Tokens) : Within ts ts
  | later {ts us : Tokens} (t : TokenTree) (h : Within ts us) : Within (t :: ts) us
  | deeper {inner us : Tokens} (d : Delimiter) (rest : Tokens) (h : Within inner us) :
      Within (.group d inner :: rest) us

def BeginsLifetime (ts : Tokens) : Prop := ∃ name rest, ts = .lifetime name :: rest

/-- Where a borrow is written that is not static. A quote by itself counts as a lifetime. -/
inductive BeginsBorrow : Tokens → Prop
  | elided (joint : Bool) {rest : Tokens} (h : ¬ BeginsLifetime rest) :
      BeginsBorrow (.punct '&' joint :: rest)
  | named {name : String} (rest : Tokens) (h : name ≠ "static") :
      BeginsBorrow (.lifetime name :: rest)
  | unnamed (joint : Bool) (rest : Tokens) : BeginsBorrow (.punct '\'' joint :: rest)

/-- Whether a borrow that is not static is written at some depth. -/
def WritesBorrow (ts : Tokens) : Prop := ∃ us, Within ts us ∧ BeginsBorrow us

section Scan

variable {t : TokenTree} {ts us inner inner' rest : Tokens} {name : String}

theorem writesBorrow_cons : WritesBorrow (t :: ts) ↔
    BeginsBorrow (t :: ts) ∨ (∃ d inner, t = .group d inner ∧ WritesBorrow inner) ∨
      WritesBorrow ts := by
  constructor
  · rintro ⟨us, hwithin, hbegins⟩
    cases hwithin with
    | here => exact Or.inl hbegins
    | later _ hlater => exact Or.inr (Or.inr ⟨us, hlater, hbegins⟩)
    | deeper d _ hdeeper => exact Or.inr (Or.inl ⟨d, _, rfl, us, hdeeper, hbegins⟩)
  · rintro (hbegins | ⟨d, inner, rfl, us, hwithin, hbegins⟩ | ⟨us, hwithin, hbegins⟩)
    · exact ⟨_, .here _, hbegins⟩
    · exact ⟨us, .deeper d ts hwithin, hbegins⟩
    · exact ⟨us, .later t hwithin, hbegins⟩

theorem not_writesBorrow_nil : ¬ WritesBorrow [] := by
  rintro ⟨us, hwithin, hbegins⟩
  cases hwithin
  cases hbegins

theorem writesBorrow_group {d : Delimiter} :
    WritesBorrow (.group d inner :: rest) ↔ WritesBorrow inner ∨ WritesBorrow rest := by
  rw [writesBorrow_cons]
  constructor
  · rintro (hbegins | ⟨_, _, heq, hinner⟩ | hrest)
    · cases hbegins
    · cases heq
      exact Or.inl hinner
    · exact Or.inr hrest
  · rintro (hinner | hrest)
    · exact Or.inr (Or.inl ⟨d, inner, rfl, hinner⟩)
    · exact Or.inr (Or.inr hrest)

theorem writesBorrow_lifetime :
    WritesBorrow (.lifetime name :: rest) ↔ name ≠ "static" ∨ WritesBorrow rest := by
  rw [writesBorrow_cons]
  constructor
  · rintro (hbegins | ⟨_, _, heq, -⟩ | hrest)
    · cases hbegins with
      | named _ hname => exact Or.inl hname
    · cases heq
    · exact Or.inr hrest
  · rintro (hname | hrest)
    · exact Or.inl (.named rest hname)
    · exact Or.inr (Or.inr hrest)

/-- The lifetime of a reference decides about it. -/
theorem writesBorrow_reference {joint : Bool} : WritesBorrow (.punct '&' joint :: ts) ↔
    ¬ BeginsLifetime ts ∨ WritesBorrow ts := by
  rw [writesBorrow_cons]
  constructor
  · rintro (hbegins | ⟨_, _, heq, -⟩ | hrest)
    · cases hbegins with
      | elided _ hno => exact Or.inl hno
    · cases heq
    · exact Or.inr hrest
  · rintro (hno | hrest)
    · exact Or.inl (.elided joint hno)
    · exact Or.inr (Or.inr hrest)

theorem writesBorrow_ident {text : String} :
    WritesBorrow (.ident text :: rest) ↔ WritesBorrow rest := by
  rw [writesBorrow_cons]
  constructor
  · rintro (hbegins | ⟨_, _, heq, -⟩ | hrest)
    · cases hbegins
    · cases heq
    · exact hrest
  · exact fun hrest => Or.inr (Or.inr hrest)

/-- Of what follows, it matters only whether it begins with a lifetime. -/
theorem beginsBorrow_congr (h : BeginsLifetime us ↔ BeginsLifetime ts) :
    BeginsBorrow (t :: us) ↔ BeginsBorrow (t :: ts) := by
  constructor
  all_goals
    intro hbegins
    cases hbegins with
    | elided joint hno => exact .elided joint (by simpa only [h] using hno)
    | named _ hname => exact .named _ hname
    | unnamed joint _ => exact .unnamed joint _

/-- The scan finds the borrows that are written. -/
theorem borrows_iff (ts : Tokens) : borrows ts = true ↔ WritesBorrow ts := by
  induction ts using borrows.induct with
  | case1 => simp [borrows, not_writesBorrow_nil]
  | case2 d inner rest ihinner ihrest =>
    rw [borrows, Bool.or_eq_true, ihinner, ihrest, writesBorrow_group]
  | case3 joint name rest ih =>
    have hnext : BeginsLifetime (.lifetime name :: rest) := ⟨name, rest, rfl⟩
    rw [borrows, Bool.or_eq_true, bne_iff_ne, ih, writesBorrow_reference, writesBorrow_lifetime]
    simp [hnext]
  | case4 joint rest hno =>
    have hnext : ¬ BeginsLifetime rest := by
      rintro ⟨name, more, rfl⟩
      exact hno name more rfl
    rw [borrows, writesBorrow_reference]
    · simp [hnext]
    · exact hno
  | case5 name rest ih =>
    rw [borrows, Bool.or_eq_true, bne_iff_ne, ih, writesBorrow_lifetime]
  | case6 joint rest =>
    exact iff_of_true (by rw [borrows]) ⟨_, .here _, .unnamed joint rest⟩
  | case7 t rest hgroup hlifetime hamp hname hquote ih =>
    rw [borrows, ih, writesBorrow_cons]
    · constructor
      · exact fun h => Or.inr (Or.inr h)
      · rintro (hbegins | ⟨d, inner, rfl, -⟩ | hrest)
        · cases hbegins with
          | elided joint _ => exact absurd rfl (hamp joint)
          | named _ _ => exact absurd rfl (hname _)
          | unnamed joint _ => exact absurd rfl (hquote joint)
        · exact absurd rfl (hgroup d inner)
        · exact hrest
    all_goals assumption

end Scan

/-- The second row is the first one with static references added at any depth, none of them in
front of a lifetime. -/
inductive AddsStatic : Tokens → Tokens → Prop
  | nil : AddsStatic [] []
  | cons (t : TokenTree) {ts us : Tokens} (h : AddsStatic ts us) : AddsStatic (t :: ts) (t :: us)
  | group (d : Delimiter) {inner inner' ts us : Tokens} (hinner : AddsStatic inner inner')
      (h : AddsStatic ts us) : AddsStatic (.group d inner :: ts) (.group d inner' :: us)
  | reference (joint mutable : Bool) {ts us : Tokens} (hno : ¬ BeginsLifetime ts)
      (h : AddsStatic ts us) :
      AddsStatic ts (.punct '&' joint :: .lifetime "static" ::
        ((if mutable then [.ident "mut"] else []) ++ us))

namespace AddsStatic

variable {ts us : Tokens}

theorem beginsLifetime_iff (h : AddsStatic ts us) : BeginsLifetime us ↔ BeginsLifetime ts := by
  cases h with
  | nil => rfl
  | cons t h =>
    constructor
    all_goals
      rintro ⟨name, rest, heq⟩
      rw [List.cons.injEq] at heq
      exact ⟨name, _, by rw [heq.1]⟩
  | group d hinner h =>
    constructor
    all_goals
      rintro ⟨name, rest, heq⟩
      cases heq
  | reference joint mutable hno h =>
    refine iff_of_false ?_ hno
    rintro ⟨name, rest, heq⟩
    cases heq

/-- Static references make no difference. -/
theorem writesBorrow_iff (h : AddsStatic ts us) : WritesBorrow us ↔ WritesBorrow ts := by
  induction h with
  | nil => rfl
  | @cons t ts us h ih =>
    have hnext := h.beginsLifetime_iff
    rw [writesBorrow_cons, writesBorrow_cons, ih, beginsBorrow_congr hnext]
  | group d hinner h ihinner ih => rw [writesBorrow_group, writesBorrow_group, ihinner, ih]
  | @reference joint mutable ts us hno h ih =>
    have hstatic (rest : Tokens) :
        WritesBorrow (.punct '&' joint :: .lifetime "static" :: rest) ↔ WritesBorrow rest := by
      have hnext : BeginsLifetime (.lifetime "static" :: rest) := ⟨_, _, rfl⟩
      rw [writesBorrow_reference, writesBorrow_lifetime]
      simp [hnext]
    rw [hstatic, ← ih]
    cases mutable with
    | false => rfl
    | true => exact writesBorrow_ident

end AddsStatic

namespace FnItem

variable {f f' : FnItem}

/-- Whether the result writes a borrow that is not static, or a parameter does behind its outer
reference. -/
def WritesBorrow (f : FnItem) : Prop :=
  (∃ t, f.result = some t ∧ Source.WritesBorrow t.tokens) ∨
    ∃ p ∈ f.params, Source.WritesBorrow p.2.element.tokens

theorem holdsBorrow_iff (f : FnItem) : f.holdsBorrow = true ↔ f.WritesBorrow := by
  rw [holdsBorrow, Bool.or_eq_true, Option.any_eq_true, List.any_eq_true, or_comm]
  simp only [TypeExpr.holdsBorrow, borrows_iff]
  rfl

/-- The second method is the first one with static references added at any depth. The outer
references of the parameters may be any. -/
structure AddsStatic (f f' : FnItem) : Prop where
  params : List.Forall₂ (fun p p' => Source.AddsStatic p.2.element.tokens p'.2.element.tokens)
    f.params f'.params
  result : Option.Rel (fun t t' => Source.AddsStatic t.tokens t'.tokens) f.result f'.result

theorem AddsStatic.writesBorrow_iff (h : f.AddsStatic f') :
    f'.WritesBorrow ↔ f.WritesBorrow := by
  have hparams := h.params.imp fun p p' hp => hp.writesBorrow_iff
  refine or_congr ?_ ⟨exists_mem_of_forall₂ (hparams.imp fun _ _ hp => hp.mp),
    exists_mem_of_forall₂ (hparams.flip.imp fun _ _ hp => hp.mpr)⟩
  have hresult := h.result
  generalize f.result = r, f'.result = r' at hresult
  cases hresult with
  | none => rfl
  | some ht => simp [ht.writesBorrow_iff]

/-- The second parameter is the first one, or has its type behind some reference. -/
def Rereferences (p p' : Option String × TypeExpr) : Prop :=
  p' = p ∨ ∃ lifetime mutable, p'.2 = .reference lifetime mutable p.2.element

variable {params : List (Option String × TypeExpr)} {t : MethodTable} {typeName : String}
  {typeParams : List String} {tag : Option HookTag}

/-- The elements of the parameters, with the result, decide about borrows. -/
theorem any_holdsBorrow (f : FnItem) : f.params.any (·.2.element.holdsBorrow) =
    (f.params.map (·.2.element)).any TypeExpr.holdsBorrow := by
  rw [List.any_map]
  rfl

/-- The elements of the parameters decide whether one of them takes all remaining arguments. -/
theorem any_variadic (f : FnItem) (typeName : String) (typeParams : List String)
    (tag : Option HookTag) : (f.describe typeName typeParams tag).params.any (·.variadic) =
      (f.params.map (·.2.element)).any fun t => isCatchAll ⟨t.render⟩ := by
  have hpair (ps : List Parameter) :
      ps.any (·.variadic) = (ps.map fun p => (p.element, p.variadic)).any Prod.snd := by
    rw [List.any_map]
    rfl
  rw [hpair, classified_params, List.any_map, List.any_map]
  simp only [isCatchAll_eq]
  rfl

theorem map_element_of_rereferences (h : List.Forall₂ Rereferences f.params params) :
    params.map (·.2.element) = f.params.map (·.2.element) := by
  rw [← List.forall₂_eq_eq_eq, List.forall₂_map_left_iff, List.forall₂_map_right_iff]
  refine h.flip.imp ?_
  rintro p' p (rfl | ⟨lifetime, mutable, heq⟩)
  · rfl
  · rw [heq]
    rfl

theorem isImplTrait_of_rereferences {p p' : Option String × TypeExpr} (h : Rereferences p p')
    (himpl : p'.2.isImplTrait = true) : p.2.isImplTrait = true := by
  obtain rfl | ⟨lifetime, mutable, heq⟩ := h
  · exact himpl
  · rw [heq] at himpl
    cases himpl

/-- A hook stays one whatever references its parameters are put behind, one for each. -/
theorem skipReason_rereferenced (h : List.Forall₂ Rereferences f.params params)
    (hskip : t.skipReason (f.describe typeName typeParams tag) = none) :
    t.skipReason (FnItem.describe { f with params } typeName typeParams tag) = none := by
  have helements := map_element_of_rereferences h
  rw [MethodTable.skipReason_eq_none_iff] at hskip ⊢
  intro r
  have hr := hskip r
  cases r with
  | generic =>
    have hcount : f.genericCount = 0 := Nat.eq_zero_of_not_pos (of_decide_eq_false hr)
    obtain ⟨hgenerics, hparams⟩ := genericCount_eq_zero_iff.mp hcount
    have hcount' : FnItem.genericCount { f with params } = 0 := by
      refine genericCount_eq_zero_iff.mpr ⟨hgenerics, fun p' hp' => ?_⟩
      by_contra himpl
      obtain ⟨p, hp, himpl⟩ := exists_mem_of_forall₂
        (h.imp fun p p' => isImplTrait_of_rereferences) ⟨p', hp', by simpa using himpl⟩
      rw [hparams p hp] at himpl
      cases himpl
    exact decide_eq_false hcount'.not_gt
  | borrowed =>
    have hr : f.holdsBorrow = false := hr
    change FnItem.holdsBorrow { f with params } = false
    rw [holdsBorrow, any_holdsBorrow] at hr ⊢
    rwa [helements]
  | variadic =>
    have hr : (f.describe typeName typeParams tag).params.any (·.variadic) = false := hr
    change (FnItem.describe { f with params } typeName typeParams tag).params.any _ = false
    rw [any_variadic] at hr ⊢
    rwa [helements]
  | _ => exact hr

end FnItem

/-- A hook is what some method of the block is described as. -/
theorem ImplBlock.exists_of_hook {b : ImplBlock} {d : Description} (h : b.describe = .ok d)
    {entry : HookDispatch.Signature × Method} (hentry : entry ∈ d.table.collect.value.entries) :
    ∃ f ∈ b.methods, b.method? f = some entry.2 ∧ d.table.skipReason entry.2 = none := by
  obtain ⟨hmem, hnone⟩ := MethodTable.hook_of_mem_collect hentry
  rw [(describe_methods h).2] at hmem
  obtain ⟨f, hf, hm⟩ := List.mem_filterMap.mp hmem
  exact ⟨f, hf, hm, hnone⟩

end HookDispatch.Source

namespace HookDispatch

open Source

variable {b : ImplBlock} {d : Description}

/-- What a description flags as borrowing, and keeps from being a hook: the methods that write a
borrow that is not static in their result, or in a parameter behind its outer reference. No hook
writes one. Static references make no difference, wherever they are added, and a hook stays one if
its parameters are put behind references, with a lifetime or without. -/
theorem written_borrows_flagged (h : b.describe = .ok d) :
    List.Forall₂ (fun f m => b.method? f = some m ∧ (m.flags.isBorrowed = true ↔ f.WritesBorrow) ∧
        (d.table.skipReason m = none ↔
          ¬ f.WritesBorrow ∧ ∀ r ≠ .borrowed, d.table.refuses m r = false))
      (b.methods.filter (·.tag?.isSome)) d.table.methods ∧
    (∀ entry ∈ d.table.collect.value.entries,
      ∃ f ∈ b.methods, b.method? f = some entry.2 ∧ ¬ f.WritesBorrow) ∧
    (∀ f f' m m', f.AddsStatic f' → b.method? f = some m → b.method? f' = some m' →
      m'.flags.isBorrowed = m.flags.isBorrowed) ∧
    (∀ f params m, List.Forall₂ FnItem.Rereferences f.params params → b.method? f = some m →
      d.table.skipReason m = none →
      ∃ m', b.method? { f with params } = some m' ∧ d.table.skipReason m' = none) := by
  have hflag {f : FnItem} {m : Method} (hm : b.method? f = some m) :
      m.flags.isBorrowed = true ↔ f.WritesBorrow := by
    obtain ⟨tag, -, rfl⟩ := Option.map_eq_some_iff.mp hm
    exact f.holdsBorrow_iff
  have hskip {f : FnItem} {m : Method} (hm : b.method? f = some m) :
      d.table.skipReason m = none ↔
        ¬ f.WritesBorrow ∧ ∀ r ≠ .borrowed, d.table.refuses m r = false := by
    rw [d.table.skipReason_eq_none_iff_of_reason m .borrowed, ← hflag hm, Bool.not_eq_true]
    rfl
  refine ⟨(ImplBlock.forall₂_methods h).imp fun f m hm => ⟨hm, hflag hm, hskip hm⟩, ?_, ?_, ?_⟩
  · intro entry hentry
    obtain ⟨f, hf, hm, hnone⟩ := ImplBlock.exists_of_hook h hentry
    exact ⟨f, hf, hm, ((hskip hm).mp hnone).1⟩
  · intro f f' m m' hadds hm hm'
    rw [Bool.eq_iff_iff, hflag hm, hflag hm']
    exact hadds.writesBorrow_iff
  · intro f params m hparams hm hnone
    obtain ⟨tag, htag, rfl⟩ := Option.map_eq_some_iff.mp hm
    exact ⟨_, congrArg (Option.map _) htag, FnItem.skipReason_rereferenced hparams hnone⟩

namespace Specimen

def slot (inner : Option String) : TypeExpr :=
  .reference (some "a") true (.path (.mk false [.mk "Option" (.angle false
    [.type (.reference inner false (.path (.word "str")))] false)]))

def slotParameter : Parameter :=
  { name := "m", element := ⟨"Option < & 'static str >"⟩, passing := .mutable }

theorem describe_slot :
    (takerBlock (slot (some "static"))).describe = .ok (takerDescription slotParameter) := by
  have htokens : (slot (some "static")).element.tokens =
      [.ident "Option", .punct '<' false, .punct '&' false, .lifetime "static", .ident "str",
        .punct '>' false] := rfl
  have hborrow : (slot (some "static")).element.holdsBorrow = false := by
    rw [TypeExpr.holdsBorrow, htokens]
    simp [borrows]
  have hrender : (slot (some "static")).element.render = "Option < & 'static str >" := by
    decide +kernel
  have hparameter : parameter "m" (slot (some "static")) = slotParameter := by
    rw [parameter, hrender, isCatchAll_eq]
    decide +kernel
  rw [describe_takerBlock _ hborrow rfl, hparameter]

end Specimen

open Specimen

/-- A hook may take a static borrow behind a named reference. Without the lifetime of the inner
reference, a borrow is written. -/
theorem written_borrows_flagged_specimen :
    ∃ d, (takerBlock (slot (some "static"))).describe = .ok d ∧
      d.table.collect.value.size = 1 ∧ ¬ (taker (slot (some "static"))).WritesBorrow ∧
      (taker (slot none)).WritesBorrow := by
  obtain ⟨-, hhooks, -, -⟩ := written_borrows_flagged describe_slot
  have hcollected : ∃ entry,
      (takerDescription slotParameter).table.collect.value.entries = [entry] := by
    rw [← List.length_eq_one_iff]
    decide +kernel
  obtain ⟨entry, hentries⟩ := hcollected
  obtain ⟨f, hf, -, hno⟩ := hhooks entry (hentries ▸ List.mem_singleton_self _)
  rw [List.mem_singleton.mp hf] at hno
  have helided : ¬ BeginsLifetime [.ident "str", .punct '>' false] := by
    rintro ⟨name, rest, heq⟩
    cases heq
  exact ⟨_, describe_slot, congrArg List.length hentries, hno,
    Or.inr ⟨_, List.mem_singleton_self _, _, .later _ (.later _ (.here _)), .elided false helided⟩⟩

end HookDispatch
