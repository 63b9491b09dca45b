import HookDispatch.Program.Emission
import HookDispatch.Proofs.Trie.Growth

/-!
What is emitted for an edge group when nothing stands in the way. The relation has one case for
each form that the code below an edge takes: the whole name is compared at once, the edge leads to
a leaf, to a hook with edges below it, or to edges only. Facts about compiled code are proved by
induction on it.
-/
namespace HookDispatch

namespace Emission

@[simp]
theorem fault?_ofItems (items : List Item) : (ofItems items).fault? = none := by
  induction items with
  | nil => rfl
  | cons item items ih => exact ih

@[simp]
theorem items_ofItems (items : List Item) : (ofItems items).items = items := by
  induction items with
  | nil => rfl
  | cons item items ih => exact congrArg (item :: ·) ih

theorem fault?_append (a b : Emission) : (a ++ b).fault? = a.fault?.or b.fault? := by
  induction a with
  | nil => rfl
  | cons entry a ih =>
    cases entry with
    | ok item => exact ih
    | error e => rfl

theorem fault?_append_eq_none {a b : Emission} :
    (a ++ b).fault? = none ↔ a.fault? = none ∧ b.fault? = none := by
  rw [fault?_append, Option.or_eq_none_iff]

theorem items_append {a b : Emission} (h : a.fault? = none) :
    (a ++ b).items = a.items ++ b.items := by
  induction a with
  | nil => rfl
  | cons entry a ih =>
    cases entry with
    | ok item => exact congrArg (item :: ·) (ih h)
    | error e => cases h

theorem length_items {a : Emission} (h : a.fault? = none) : a.items.length = a.length := by
  induction a with
  | nil => rfl
  | cons entry a ih =>
    cases entry with
    | ok item => exact congrArg (· + 1) (ih h)
    | error e => cases h

end Emission

def Method.callItems (m : Method) (hook : MethodId) : List Item :=
  (m.callSequence hook).map .plain

structure Registry.Calls (r : Registry) (hook : MethodId) (key : Signature)
    (m : Method) : Prop where
  get?_eq : r.get? hook = some (key, m)
  resolved : m.ret.isGeneric = false

theorem Registry.Calls.emitCall_eq {r : Registry} {hook : MethodId} {key : Signature} {m : Method}
    (h : r.Calls hook key m) : r.emitCall hook = .ofItems (m.callItems hook) := by
  rw [emitCall, h.get?_eq]
  simp only [h.resolved, Bool.false_eq_true, if_false]
  rfl

/-- A call is emitted for the hooks of the registry that do not return a type parameter. -/
theorem Registry.fault?_emitCall {r : Registry} {hook : MethodId}
    (h : (r.emitCall hook).fault? = none) :
    ∃ key m, r.Calls hook key m ∧ (r.emitCall hook).items = m.callItems hook := by
  cases hget : r.get? hook with
  | none =>
    rw [emitCall, hget] at h
    cases h
  | some entry =>
    obtain ⟨key, m⟩ := entry
    cases hret : m.ret.isGeneric with
    | true =>
      rw [emitCall, hget] at h
      simp only [hret, if_true] at h
      cases h
    | false =>
      have hcalls : r.Calls hook key m := ⟨hget, hret⟩
      exact ⟨key, m, hcalls, by rw [hcalls.emitCall_eq, Emission.items_ofItems]⟩

namespace Edges

def testItems (id : NodeId) (byte : UInt8) (rest : Edges) : List Item :=
  [.entry id, .plain (.compareByte byte), .jump .different (.orEpilogue rest.first?)]

/-- The code of an edge group: the bytes on the way to it, the group and the items. -/
inductive Emitted (r : Registry) (collapse : Bool) : List UInt8 → Edges → List Item → Prop
  | nil (path : List UInt8) : Emitted r collapse path nil []
  | collapsed {path : List UInt8} {id : NodeId} {byte : UInt8} {below rest : Edges} {leaf : Leaf}
      {key : Signature} {m : Method} {items : List Item} (hcollapse : collapse = true)
      (hleaf : below.soleLeaf = some leaf) (hcalls : r.Calls leaf.hook key m)
      (hrest : Emitted r collapse path rest items) :
      Emitted r collapse path (cons id byte none below rest)
        (testItems id byte rest ++
          ([.plain (.compareName (Text.showBytes (path ++ [byte] ++ leaf.suffix))),
            .jump .different .epilogue] ++ m.callItems leaf.hook) ++ items)
  | leaf {path : List UInt8} {id : NodeId} {byte : UInt8} {hook : MethodId} {rest : Edges}
      {key : Signature} {m : Method} {items : List Item} (hcalls : r.Calls hook key m)
      (hrest : Emitted r collapse path rest items) :
      Emitted r collapse path (cons id byte (some hook) nil rest)
        (testItems id byte rest ++
          ([.plain .advance, .jump .remaining .epilogue] ++ m.callItems hook) ++ items)
  | inner {path : List UInt8} {id first : NodeId} {byte : UInt8} {hook : MethodId}
      {below rest : Edges} {key : Signature} {m : Method} {inside items : List Item}
      (hfirst : below.first? = some first) (hcalls : r.Calls hook key m)
      (hbelow : Emitted r collapse (path ++ [byte]) below inside)
      (hrest : Emitted r collapse path rest items) :
      Emitted r collapse path (cons id byte (some hook) below rest)
        (testItems id byte rest ++
            ([.plain .advance, .jump .remaining (.node first)] ++ m.callItems hook ++ inside) ++
          items)
  | passing {path : List UInt8} {id first : NodeId} {byte : UInt8} {below rest : Edges}
      {inside items : List Item} (hopen : collapse = true → below.soleLeaf = none)
      (hfirst : below.first? = some first)
      (hbelow : Emitted r collapse (path ++ [byte]) below inside)
      (hrest : Emitted r collapse path rest items) :
      Emitted r collapse path (cons id byte none below rest)
        (testItems id byte rest ++
          ([.plain .advance, .jump .exhausted .epilogue] ++ inside) ++ items)

theorem eq_nil_of_first?_eq_none {edges : Edges} (h : edges.first? = none) : edges = nil := by
  cases edges with
  | nil => rfl
  | cons => cases h

def emitInside (r : Registry) (collapse : Bool) (path : List UInt8) (id : NodeId)
    (terminal : Option MethodId) (below : Edges) : Emission :=
  match (if collapse && terminal.isNone then below.soleLeaf else none) with
  | some leaf =>
    .ofItems [.plain (.compareName (Text.showBytes (path ++ leaf.suffix))),
      .jump .different .epilogue] ++ r.emitCall leaf.hook
  | none =>
    .ofItems [.plain .advance] ++
      match terminal, below.first? with
      | some hook, none => .ofItems [.jump .remaining .epilogue] ++ r.emitCall hook
      | some hook, some first =>
        .ofItems [.jump .remaining (.node first)] ++ r.emitCall hook ++ below.emit r collapse path
      | none, some _ => .ofItems [.jump .exhausted .epilogue] ++ below.emit r collapse path
      | none, none => [.error (.deadEnd id)]

theorem emit_cons (r : Registry) (collapse : Bool) (path : List UInt8) (id : NodeId) (byte : UInt8)
    (terminal : Option MethodId) (below rest : Edges) :
    (cons id byte terminal below rest).emit r collapse path =
      .ofItems (testItems id byte rest) ++
        below.emitInside r collapse (path ++ [byte]) id terminal ++ rest.emit r collapse path :=
  rfl

section Fault
variable {r : Registry} {collapse : Bool} {path : List UInt8} {id : NodeId} {byte : UInt8}
  {below rest : Edges} {items : List Item}

/-- Below an edge without a hook the name is compared at once, or other edges follow. -/
theorem emitted_of_open
    (hbelow : (below.emit r collapse (path ++ [byte])).fault? = none →
      Emitted r collapse (path ++ [byte]) below (below.emit r collapse (path ++ [byte])).items)
    (hrest : Emitted r collapse path rest items)
    (h : (below.emitInside r collapse (path ++ [byte]) id none).fault? = none) :
    Emitted r collapse path (cons id byte none below rest)
      (testItems id byte rest ++ (below.emitInside r collapse (path ++ [byte]) id none).items ++
        items) := by
  unfold emitInside at h ⊢
  by_cases hcollapse : collapse = true ∧ below.soleLeaf.isSome
  · obtain ⟨rfl, hsome⟩ := hcollapse
    obtain ⟨leaf, hleaf⟩ := Option.isSome_iff_exists.mp hsome
    simp only [Bool.true_and, Option.isNone_none, if_true, hleaf] at h ⊢
    rw [Emission.fault?_append_eq_none] at h
    obtain ⟨key, m, hcalls, hitems⟩ := r.fault?_emitCall h.2
    rw [Emission.items_append h.1, hitems, Emission.items_ofItems]
    exact .collapsed rfl hleaf hcalls hrest
  have hnone :
      (if collapse && (none : Option MethodId).isNone then below.soleLeaf else none) = none := by
    by_cases hc : collapse = true
    · simpa [hc] using hcollapse
    · simp [hc]
  simp only [hnone] at h ⊢
  cases hfirst : below.first? with
  | none =>
    simp only [hfirst] at h
    cases h
  | some first =>
    simp only [hfirst] at h ⊢
    rw [Emission.fault?_append_eq_none, Emission.fault?_append_eq_none] at h
    obtain ⟨hadvance, hjump, hinside⟩ := h
    rw [Emission.items_append hadvance, Emission.items_append hjump]
    refine .passing ?_ hfirst (hbelow hinside) hrest
    intro hc
    simpa [hc] using hnone

/-- Below an edge with a hook its call stands first. -/
theorem emitted_of_hook {hook : MethodId}
    (hbelow : (below.emit r collapse (path ++ [byte])).fault? = none →
      Emitted r collapse (path ++ [byte]) below (below.emit r collapse (path ++ [byte])).items)
    (hrest : Emitted r collapse path rest items)
    (h : (below.emitInside r collapse (path ++ [byte]) id (some hook)).fault? = none) :
    Emitted r collapse path (cons id byte (some hook) below rest)
      (testItems id byte rest ++
          (below.emitInside r collapse (path ++ [byte]) id (some hook)).items ++
        items) := by
  unfold emitInside at h ⊢
  simp only [Option.isNone_some, Bool.and_false, Bool.false_eq_true, if_false] at h ⊢
  cases hfirst : below.first? with
  | none =>
    simp only [hfirst] at h ⊢
    rw [Emission.fault?_append_eq_none, Emission.fault?_append_eq_none] at h
    obtain ⟨hadvance, hjump, hcall⟩ := h
    obtain ⟨key, m, hcalls, hitems⟩ := r.fault?_emitCall hcall
    rw [Emission.items_append hadvance, Emission.items_append hjump, hitems,
      eq_nil_of_first?_eq_none hfirst]
    exact .leaf hcalls hrest
  | some first =>
    simp only [hfirst] at h ⊢
    rw [Emission.fault?_append_eq_none, Emission.fault?_append_eq_none,
      Emission.fault?_append_eq_none] at h
    obtain ⟨hadvance, ⟨hjump, hcall⟩, hinside⟩ := h
    obtain ⟨key, m, hcalls, hitems⟩ := r.fault?_emitCall hcall
    rw [Emission.items_append hadvance,
      Emission.items_append (Emission.fault?_append_eq_none.mpr ⟨hjump, hcall⟩),
      Emission.items_append hjump, hitems]
    exact .inner hfirst hcalls (hbelow hinside) hrest

end Fault

/-- An emission without a fault is one of the forms of code. -/
theorem emitted_of_fault? {r : Registry} {collapse : Bool} {path : List UInt8} {edges : Edges}
    (h : (edges.emit r collapse path).fault? = none) :
    Emitted r collapse path edges (edges.emit r collapse path).items := by
  induction edges generalizing path with
  | nil => exact .nil path
  | cons id byte terminal below rest ihBelow ihRest =>
    rw [emit_cons, Emission.fault?_append_eq_none, Emission.fault?_append_eq_none] at h
    obtain ⟨⟨htest, hinside⟩, hrest⟩ := h
    rw [emit_cons, Emission.items_append (Emission.fault?_append_eq_none.mpr ⟨htest, hinside⟩),
      Emission.items_append htest, Emission.items_ofItems]
    cases terminal with
    | none => exact emitted_of_open ihBelow (ihRest hrest) hinside
    | some hook => exact emitted_of_hook ihBelow (ihRest hrest) hinside

end Edges

end HookDispatch
