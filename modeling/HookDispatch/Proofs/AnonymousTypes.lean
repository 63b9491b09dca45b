import HookDispatch.Proofs.DispatchLoop.Unboxing
import HookDispatch.Proofs.WrittenBorrows

/-!
Which methods are kept from being hooks because they are generic. A method is if it declares a type
parameter, if one of its parameters is of an anonymous type, or if its result is an anonymous type
or a type parameter of the block. Only the type itself counts: anonymous types behind a reference or
inside of other types are not seen, and methods with these are hooks like any others.
-/
namespace HookDispatch.Source

/-- Whether the keyword of anonymous types is written at some depth. -/
def WritesAnonymous (ts : Tokens) : Prop := ∃ rest, Within ts (.ident "impl" :: rest)

theorem writesAnonymous_of_isImplTrait {t : TypeExpr} (h : t.isImplTrait = true) :
    WritesAnonymous t.tokens := by
  cases t with
  | implTrait bounds trailing =>
    rw [TypeExpr.tokens]
    exact ⟨_, .here _⟩
  | _ => cases h

/-- The types that count as generic in a result. -/
theorem isGeneric_returnType_iff {typeParams : List String} {t : TypeExpr} :
    (t.returnType typeParams).isGeneric = true ↔
      t.isImplTrait = true ∨ ∃ name ∈ typeParams, t.bareName? = some name := by
  have hother (type : TypeName) : (ReturnType.ofType type).isGeneric = false := by
    rw [ReturnType.ofType]
    split_ifs <;> rfl
  have hnames : (t.isImplTrait || t.bareName?.any typeParams.contains) = true ↔
      t.isImplTrait = true ∨ ∃ name ∈ typeParams, t.bareName? = some name := by
    rw [Bool.or_eq_true, Option.any_eq_true]
    simp only [List.contains_iff_mem, and_comm]
  rw [← hnames, TypeExpr.returnType]
  split
  · next hgeneric => exact iff_of_true rfl hgeneric
  · next hgeneric => exact iff_of_false (by rw [hother]; exact Bool.false_ne_true) hgeneric

namespace FnItem

def MentionsAnonymous (f : FnItem) : Prop :=
  (∃ p ∈ f.params, WritesAnonymous p.2.tokens) ∨
    ∃ t, f.result = some t ∧ WritesAnonymous t.tokens

def ShowsAnonymous (f : FnItem) : Prop :=
  (∃ p ∈ f.params, p.2.isImplTrait = true) ∨ ∃ t, f.result = some t ∧ t.isImplTrait = true

theorem ShowsAnonymous.mentions {f : FnItem} (h : f.ShowsAnonymous) : f.MentionsAnonymous := by
  rcases h with ⟨p, hp, himpl⟩ | ⟨t, ht, himpl⟩
  · exact Or.inl ⟨p, hp, writesAnonymous_of_isImplTrait himpl⟩
  · exact Or.inr ⟨t, ht, writesAnonymous_of_isImplTrait himpl⟩

/-- Whether the method declares a parameter that is no lifetime. -/
def DeclaresParameter (f : FnItem) : Prop := ∃ g ∈ f.generics, g.isLifetime = false

/-- Whether the method returns a type parameter of the block. -/
def ReturnsParameter (b : ImplBlock) (f : FnItem) : Prop :=
  ∃ t, f.result = some t ∧
    ∃ name ∈ b.generics.params.filterMap GenericParam.typeName?, t.bareName? = some name

end FnItem

namespace ImplBlock

variable {b : ImplBlock} {d : Description} {f : FnItem} {m : Method} {t : MethodTable}

theorem refuses_generic_iff (hm : b.method? f = some m) : t.refuses m .generic = true ↔
    f.DeclaresParameter ∨ ∃ p ∈ f.params, p.2.isImplTrait = true := by
  obtain ⟨tag, -, rfl⟩ := Option.map_eq_some_iff.mp hm
  have hcount : 0 < f.genericCount ↔ ¬ f.genericCount = 0 := Nat.pos_iff_ne_zero
  rw [FnItem.genericCount_eq_zero_iff, not_and_or] at hcount
  refine decide_eq_true_iff.trans (hcount.trans ?_)
  simp [FnItem.DeclaresParameter]

theorem refuses_genericReturn_iff (hm : b.method? f = some m) :
    t.refuses m .genericReturn = true ↔
      (∃ t, f.result = some t ∧ t.isImplTrait = true) ∨ f.ReturnsParameter b := by
  obtain ⟨tag, -, rfl⟩ := Option.map_eq_some_iff.mp hm
  change ((f.result.map _).getD ReturnType.void).isGeneric = true ↔ _
  unfold FnItem.ReturnsParameter
  cases f.result with
  | none => simp [ReturnType.isGeneric]
  | some t =>
    simp only [Option.map_some, Option.getD_some, isGeneric_returnType_iff, Option.some.injEq,
      exists_eq_left']

/-- Of the types of a method, only those that are themselves generic speak against it. -/
theorem skipReason_eq_none_iff (hm : b.method? f = some m) : t.skipReason m = none ↔
    (¬ f.ShowsAnonymous ∧ ¬ f.DeclaresParameter ∧ ¬ f.ReturnsParameter b) ∧
      ∀ r, r ≠ .generic → r ≠ .genericReturn → t.refuses m r = false := by
  have htypes : (¬ f.ShowsAnonymous ∧ ¬ f.DeclaresParameter ∧ ¬ f.ReturnsParameter b) ↔
      t.refuses m .generic = false ∧ t.refuses m .genericReturn = false := by
    rw [← Bool.not_eq_true, ← Bool.not_eq_true, refuses_generic_iff hm,
      refuses_genericReturn_iff hm, FnItem.ShowsAnonymous, not_or, not_or, not_or]
    exact ⟨fun ⟨⟨hparams, hresult⟩, hnone, hno⟩ => ⟨⟨hnone, hparams⟩, hresult, hno⟩,
      fun ⟨⟨hnone, hparams⟩, hresult, hno⟩ => ⟨⟨hparams, hresult⟩, hnone, hno⟩⟩
  rw [htypes, MethodTable.skipReason_eq_none_iff]
  constructor
  · exact fun h => ⟨⟨h .generic, h .genericReturn⟩, fun r _ _ => h r⟩
  · rintro ⟨⟨hgeneric, hreturn⟩, hothers⟩ r
    by_cases hr : r = .generic
    · rwa [hr]
    by_cases hr' : r = .genericReturn
    · rwa [hr']
    · exact hothers r hr hr'

end ImplBlock

end HookDispatch.Source

namespace HookDispatch

open Source DispatchLoop

variable {b : ImplBlock} {d : Description}

/-- Anonymous types keep a method from being a hook if they are the type of a parameter or of the
result, and only then. A method that mentions them further inside is judged as if it did not. What
the loop of the block unboxes are the storage types of parameters that are not anonymous
themselves, and what it calls are methods without such parameters. -/
theorem anonymous_types_refused (h : b.describe = .ok d) :
    List.Forall₂ (fun f m => b.method? f = some m ∧
        (d.table.refuses m .generic = true ↔
          f.DeclaresParameter ∨ ∃ p ∈ f.params, p.2.isImplTrait = true) ∧
        (d.table.refuses m .genericReturn = true ↔
          (∃ t, f.result = some t ∧ t.isImplTrait = true) ∨ f.ReturnsParameter b) ∧
        (f.ShowsAnonymous → f.MentionsAnonymous ∧ d.table.skipReason m ≠ none) ∧
        (f.MentionsAnonymous → (d.table.skipReason m = none ↔
          (¬ f.ShowsAnonymous ∧ ¬ f.DeclaresParameter ∧ ¬ f.ReturnsParameter b) ∧
            ∀ r, r ≠ .generic → r ≠ .genericReturn → d.table.refuses m r = false)))
      (b.methods.filter (·.tag?.isSome)) d.table.methods ∧
    (∀ entry ∈ d.table.collect.value.entries,
      ∃ f ∈ b.methods, b.method? f = some entry.2 ∧ ¬ f.ShowsAnonymous) ∧
    ∀ o e, (Expansion.ofBlock o b).value = .ok e → ∀ arm ∈ e.loop.arms, ∀ stmt ∈ arm.body,
      (∀ index type written, stmt.read? = some (.typed index type written) →
        ∃ f ∈ b.methods, ¬ f.ShowsAnonymous ∧
          ∃ p ∈ f.params, ∃ name, (parameter name p.2).storage = type) ∧
      ∀ ident actuals keeps, stmt = .call ident actuals keeps →
        ∃ f ∈ b.methods, ¬ f.ShowsAnonymous ∧ d.identifiers.lookup (unraw f.name) = some ident := by
  have hhook {entry : Signature × Method} (hentry : entry ∈ d.table.collect.value.entries) :
      ∃ f ∈ b.methods, b.method? f = some entry.2 ∧ ¬ f.ShowsAnonymous := by
    obtain ⟨f, hf, hm, hnone⟩ := ImplBlock.exists_of_hook h hentry
    exact ⟨f, hf, hm, ((ImplBlock.skipReason_eq_none_iff hm).mp hnone).1.1⟩
  have hshown {f : FnItem} {m : Method} (hm : b.method? f = some m) (hshows : f.ShowsAnonymous) :
      f.MentionsAnonymous ∧ d.table.skipReason m ≠ none :=
    ⟨hshows.mentions, fun hnone => ((ImplBlock.skipReason_eq_none_iff hm).mp hnone).1.1 hshows⟩
  refine ⟨(ImplBlock.forall₂_methods h).imp fun f m hm => ⟨hm, ImplBlock.refuses_generic_iff hm,
    ImplBlock.refuses_genericReturn_iff hm, hshown hm,
    fun _ => ImplBlock.skipReason_eq_none_iff hm⟩, fun entry hentry => hhook hentry, ?_⟩
  intro o e he arm harm stmt hstmt
  obtain ⟨d', t, hd', ⟨L⟩, hloop⟩ := Expansion.exists_layout he
  obtain rfl : d' = d := Except.ok.inj (hd'.symm.trans h)
  constructor
  · intro index type written hread
    obtain ⟨entry, hentry, p, hp, hstorage⟩ := exists_param_of_read L hloop harm hstmt hread
    obtain ⟨f, hf, hm, hshows⟩ := hhook hentry
    obtain ⟨tag, -, heq⟩ := Option.map_eq_some_iff.mp hm
    rw [← heq] at hp
    obtain ⟨written, hwritten, name, rfl⟩ := f.exists_of_mem_parameters hp
    exact ⟨f, hf, hshows, written, hwritten, name, hstorage⟩
  · rintro ident actuals keeps rfl
    obtain ⟨entry, hentry, hident⟩ := exists_entry_of_call L hloop harm hstmt
    obtain ⟨f, hf, hm, hshows⟩ := hhook hentry
    obtain ⟨tag, -, heq⟩ := Option.map_eq_some_iff.mp hm
    refine ⟨f, hf, hshows, ?_⟩
    rw [← hident, ← heq]
    rfl

namespace Specimen

def convertible : TypeExpr :=
  .reference none false (.implTrait [.trait false false none (.mk false [.mk "Into" (.angle false
    [.type (.path (.word "u8"))] false)])] false)

def convertibleParameter : Parameter :=
  { name := "m", element := ⟨"impl Into < u8 >"⟩, passing := .shared }

theorem tokens_convertible : convertible.element.tokens =
    [.ident "impl", .ident "Into", .punct '<' false, .ident "u8", .punct '>' false] := rfl

theorem mentions_convertible : (taker convertible).MentionsAnonymous :=
  Or.inl ⟨_, List.mem_singleton_self _, _, .later _ (.here _)⟩

theorem describe_convertible :
    (takerBlock convertible).describe = .ok (takerDescription convertibleParameter) := by
  have hborrow : convertible.element.holdsBorrow = false := by
    rw [TypeExpr.holdsBorrow, tokens_convertible]
    simp [borrows]
  have hrender : convertible.element.render = "impl Into < u8 >" := by decide +kernel
  have hparameter : parameter "m" convertible = convertibleParameter := by
    rw [parameter, hrender, isCatchAll_eq]
    decide +kernel
  rw [describe_takerBlock _ hborrow rfl, hparameter]

def unboxesAnonymous (stmt : Stmt) : Bool :=
  stmt.read?.any fun
    | .typed _ _ written => written.isImplTrait
    | .object _ => false

end Specimen

open Specimen

/-- A method that takes a reference to an anonymous type does not show it, and is a hook. -/
theorem anonymous_types_refused_specimen :
    ∃ d, (takerBlock convertible).describe = .ok d ∧ (taker convertible).MentionsAnonymous ∧
      ¬ (taker convertible).ShowsAnonymous ∧ ∃ m ∈ d.table.methods,
        d.table.skipReason m = none := by
  obtain ⟨-, hhooks, -⟩ := anonymous_types_refused describe_convertible
  have hcollected : ∃ entry,
      (takerDescription convertibleParameter).table.collect.value.entries = [entry] := by
    rw [← List.length_eq_one_iff]
    decide +kernel
  obtain ⟨entry, hentries⟩ := hcollected
  obtain ⟨f, hf, -, hno⟩ := hhooks entry (hentries ▸ List.mem_singleton_self _)
  rw [List.mem_singleton.mp hf] at hno
  exact ⟨_, describe_convertible, mentions_convertible, hno, _, List.mem_singleton_self _,
    by decide +kernel⟩

/-- The loop of a block may unbox an argument to an anonymous type. -/
theorem anonymous_type_unboxed :
    (taker convertible).MentionsAnonymous ∧
      (takerDescription convertibleParameter).table.collect.value.keys =
        [⟨"take(&impl Into[u8])"⟩] ∧
      (takerBlock convertible).describe = .ok (takerDescription convertibleParameter) ∧
      ∃ e, (Expansion.ofBlock {} (takerBlock convertible)).value = .ok e ∧
        ∃ arm ∈ e.loop.arms, ∃ stmt ∈ arm.body, unboxesAnonymous stmt = true := by
  have hunboxes : ((Expansion.ofBlock {} (takerBlock convertible)).value.toOption.any fun e =>
      e.loop.arms.any (·.body.any unboxesAnonymous)) = true := by
    rw [Expansion.ofBlock, describe_convertible]
    decide +kernel
  refine ⟨mentions_convertible, by decide +kernel, describe_convertible, ?_⟩
  cases hvalue : (Expansion.ofBlock {} (takerBlock convertible)).value with
  | error e =>
    rw [hvalue] at hunboxes
    cases hunboxes
  | ok e =>
    rw [hvalue] at hunboxes
    obtain ⟨arm, harm, hbody⟩ := List.any_eq_true.mp hunboxes
    exact ⟨e, rfl, arm, harm, List.any_eq_true.mp hbody⟩

end HookDispatch
