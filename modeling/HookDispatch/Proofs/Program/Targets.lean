import HookDispatch.Proofs.Program.Emitted
import HookDispatch.Proofs.Trie.SoleLeaf

/-!
Where the branches of emitted code go. A branch to a node comes before the first operation of that
node, every node is entered at one place only, and operations that are final when they are emitted
are no branches. A group is emitted without a fault if all its hooks can be called.
-/
namespace HookDispatch

/-- What has to come after an item: the first operation of the node that it branches to, or the
test of the byte that it loads. -/
def Item.Needs : Item → List Item → Prop
  | jump _ (.node id), rest => .entry id ∈ rest
  | entry _, rest =>
    ∃ byte t tail, rest = .plain (.compareByte byte) :: .jump .different t :: tail
  | _, _ => True

/-- Every item is followed by what it needs. -/
def Wired : List Item → Prop
  | [] => True
  | item :: rest => item.Needs rest ∧ Wired rest

theorem Item.Needs.append {item : Item} {a b : List Item} (h : item.Needs a) :
    item.Needs (a ++ b) := by
  cases item with
  | plain op => trivial
  | jump c t =>
    cases t with
    | epilogue => trivial
    | node id => exact List.mem_append_left b h
  | entry id =>
    obtain ⟨byte, t, tail, rfl⟩ := h
    exact ⟨byte, t, tail ++ b, rfl⟩

theorem wired_append {a b : List Item} (ha : Wired a) (hb : Wired b) : Wired (a ++ b) := by
  induction a with
  | nil => exact hb
  | cons item a ih => exact ⟨ha.1.append, ih ha.2⟩

theorem Wired.needs {items : List Item} (h : Wired items) {i : Nat} {item : Item}
    (hi : items[i]? = some item) : item.Needs (items.drop (i + 1)) := by
  induction items generalizing i with
  | nil => cases hi
  | cons first items ih =>
    cases i with
    | zero =>
      cases hi
      exact h.1
    | succ i => exact ih h.2 hi

theorem Wired.exists_entry {items : List Item} (h : Wired items) {i : Nat} {c : Condition}
    {id : NodeId} (hjump : items[i]? = some (.jump c (.node id))) :
    ∃ j, i < j ∧ items[j]? = some (.entry id) := by
  obtain ⟨k, hk⟩ := List.mem_iff_getElem?.mp (h.needs hjump)
  rw [List.getElem?_drop] at hk
  exact ⟨i + 1 + k, by omega, hk⟩

theorem Wired.test_entry {items : List Item} (h : Wired items) {i : Nat} {id : NodeId}
    (hentry : items[i]? = some (.entry id)) :
    ∃ byte t, items[i + 1]? = some (.plain (.compareByte byte)) ∧
      items[i + 2]? = some (.jump .different t) := by
  obtain ⟨byte, t, tail, htail⟩ := h.needs hentry
  refine ⟨byte, t, ?_, ?_⟩
  · have hfirst := congrArg (·[0]?) htail
    simpa [List.getElem?_drop] using hfirst
  · have hsecond := congrArg (·[1]?) htail
    simpa [List.getElem?_drop, Nat.add_assoc] using hsecond

theorem mem_callItems {m : Method} {hook : MethodId} {item : Item} (h : item ∈ m.callItems hook) :
    ∃ op ∈ m.callSequence hook, item = .plain op := by
  obtain ⟨op, hop, rfl⟩ := List.mem_map.mp h
  exact ⟨op, hop, rfl⟩

/-- The operations of a call are final as they are emitted. -/
theorem map_callItems {f : Item → Operation} (hf : ∀ op, f (.plain op) = op) (m : Method)
    (hook : MethodId) : (m.callItems hook).map f = m.callSequence hook := by
  rw [Method.callItems, List.map_map]
  exact (List.map_congr_left fun op _ => hf op).trans (List.map_id _)

namespace Operation

def marshals : Operation → Bool
  | unboxArg .. | unboxTemp .. | pushTemp .. | call _ | storeResult .. | storeArg .. => true
  | _ => false

theorem target_eq_none_of_marshals {op : Operation} (h : op.marshals = true) :
    op.target = none := by
  cases op <;> first | rfl | cases h

end Operation

namespace Method

theorem marshals_unpackFrom {index temp : Nat} {ps : List Parameter} {op : Operation}
    (h : op ∈ unpackFrom index temp ps) : op.marshals = true := by
  induction ps generalizing index temp with
  | nil => cases h
  | cons p ps ih =>
    rw [unpackFrom] at h
    split at h
    · rcases List.mem_cons.mp h with rfl | h
      · rfl
      rcases List.mem_cons.mp h with rfl | h
      · rfl
      · exact ih h
    · rcases List.mem_cons.mp h with rfl | h
      · rfl
      · exact ih h

theorem marshals_writeBackFrom {index temp : Nat} {ps : List Parameter} {op : Operation}
    (h : op ∈ writeBackFrom index temp ps) : op.marshals = true := by
  induction ps generalizing index temp with
  | nil => cases h
  | cons p ps ih =>
    rw [writeBackFrom] at h
    rcases List.mem_append.mp h with h | h
    · split at h
      · rw [List.mem_singleton.mp h]
        rfl
      · cases h
    · exact ih h

theorem marshals_storeReturn {m : Method} {op : Operation} (h : op ∈ m.storeReturn) :
    op.marshals = true := by
  unfold storeReturn at h
  split at h <;> simp at h
  · rw [h]
    rfl
  · rw [h]
    rfl

theorem mem_callSequence {m : Method} {hook : MethodId} {op : Operation}
    (h : op ∈ m.callSequence hook) :
    op.marshals = true ∨ op = .setHandled true ∨ op = .ret := by
  simp only [callSequence, List.mem_append, List.mem_cons, List.not_mem_nil, or_false] at h
  rcases h with (((h | rfl) | h) | h) | h
  · exact Or.inl (marshals_unpackFrom h)
  · exact Or.inl rfl
  · exact Or.inl (marshals_storeReturn h)
  · exact Or.inl (marshals_writeBackFrom h)
  · exact Or.inr h

theorem call_not_mem_unpackFrom (index temp : Nat) (ps : List Parameter) {hook : MethodId} :
    .call hook ∉ unpackFrom index temp ps := by
  induction ps generalizing index temp with
  | nil => exact List.not_mem_nil
  | cons p ps ih =>
    rw [unpackFrom]
    split
    · simpa using ih (index + 1) (temp + 1)
    · simpa using ih (index + 1) temp

theorem mem_writeBackFrom {index temp : Nat} {ps : List Parameter} {op : Operation}
    (h : op ∈ writeBackFrom index temp ps) : ∃ i t type, op = .storeArg i t type := by
  induction ps generalizing index temp with
  | nil => cases h
  | cons p ps ih =>
    rw [writeBackFrom, List.mem_append] at h
    rcases h with h | h
    · split at h
      · exact ⟨_, _, _, List.mem_singleton.mp h⟩
      · cases h
    · exact ih h

theorem mem_storeReturn {m : Method} {op : Operation} (h : op ∈ m.storeReturn) :
    ∃ type boxed, op = .storeResult type boxed := by
  unfold storeReturn at h
  split at h
  · exact ⟨_, _, List.mem_singleton.mp h⟩
  · exact ⟨_, _, List.mem_singleton.mp h⟩
  · cases h
  · cases h

def afterCall (m : Method) : List Operation :=
  m.storeReturn ++ writeBackFrom 0 0 m.params ++ [.setHandled true, .ret]

theorem callSequence_eq (m : Method) (hook : MethodId) :
    m.callSequence hook = unpackFrom 0 0 m.params ++ .call hook :: m.afterCall := by
  rw [callSequence, afterCall, List.append_assoc, List.append_assoc, List.append_assoc,
    List.append_assoc]
  rfl

theorem call_not_mem_afterCall (m : Method) (hook : MethodId) : .call hook ∉ m.afterCall := by
  intro h
  simp only [afterCall, List.mem_append, List.mem_cons, List.not_mem_nil, or_false, reduceCtorEq]
    at h
  rcases h with h | h
  · obtain ⟨type, boxed, heq⟩ := mem_storeReturn h
    cases heq
  · obtain ⟨i, temp, type, heq⟩ := mem_writeBackFrom h
    cases heq

/-- A call sequence begins with an argument or with the call. -/
theorem callSequence_eq_cons (m : Method) (hook : MethodId) :
    ∃ op seg, m.callSequence hook = op :: seg ∧ op.marshals = true := by
  rw [callSequence]
  cases hparams : m.params with
  | nil => exact ⟨_, _, rfl, rfl⟩
  | cons p ps =>
    rw [unpackFrom]
    split
    · exact ⟨_, _, rfl, rfl⟩
    · exact ⟨_, _, rfl, rfl⟩

theorem target_callSequence {m : Method} {hook : MethodId} {op : Operation}
    (h : op ∈ m.callSequence hook) : op.target = none := by
  rcases mem_callSequence h with h | rfl | rfl
  · exact Operation.target_eq_none_of_marshals h
  · rfl
  · rfl

end Method

theorem wired_callItems (m : Method) (hook : MethodId) : Wired (m.callItems hook) := by
  rw [Method.callItems]
  induction m.callSequence hook with
  | nil => trivial
  | cons op ops ih => exact ⟨trivial, ih⟩

namespace Edges

variable {r : Registry} {collapse : Bool} {path : List UInt8} {edges : Edges} {items : List Item}

/-- The code of a group begins with the first operation of its first node. -/
theorem Emitted.head? (h : Emitted r collapse path edges items) :
    items.head? = edges.first?.map .entry := by
  cases h <;> rfl

theorem Emitted.entry_mem (h : Emitted r collapse path edges items) {id : NodeId}
    (hfirst : edges.first? = some id) : .entry id ∈ items := by
  have hhead := h.head?
  rw [hfirst] at hhead
  exact List.mem_of_mem_head? hhead

theorem wired_test {id : NodeId} {byte : UInt8} {rest : Edges} {tail items : List Item}
    (hrest : Emitted r collapse path rest items) (htail : Wired (tail ++ items)) :
    Wired (testItems id byte rest ++ tail ++ items) := by
  rw [testItems, List.append_assoc]
  refine ⟨⟨byte, _, _, rfl⟩, trivial, ?_, htail⟩
  cases hfirst : rest.first? with
  | none => trivial
  | some next => exact List.mem_append_right tail (hrest.entry_mem hfirst)

theorem Emitted.wired (h : Emitted r collapse path edges items) : Wired items := by
  induction h with
  | nil => trivial
  | collapsed _ _ _ hrest ih =>
    refine wired_test hrest (wired_append ?_ ih)
    exact wired_append ⟨trivial, trivial, trivial⟩ (wired_callItems _ _)
  | leaf _ hrest ih =>
    refine wired_test hrest (wired_append ?_ ih)
    exact wired_append ⟨trivial, trivial, trivial⟩ (wired_callItems _ _)
  | inner hfirst _ hbelow hrest ihBelow ihRest =>
    refine wired_test hrest (wired_append ?_ ihRest)
    refine ⟨trivial, ?_, wired_append (wired_callItems _ _) ihBelow⟩
    exact List.mem_append_right _ (hbelow.entry_mem hfirst)
  | passing _ _ _ hrest ihBelow ihRest =>
    refine wired_test hrest (wired_append ?_ ihRest)
    exact wired_append ⟨trivial, trivial, trivial⟩ ihBelow

theorem filterMap_node?_callItems (m : Method) (hook : MethodId) :
    (m.callItems hook).filterMap Item.node? = [] := by
  rw [List.filterMap_eq_nil_iff]
  intro item hmem
  obtain ⟨op, -, rfl⟩ := mem_callItems hmem
  rfl

theorem filterMap_node?_test (id : NodeId) (byte : UInt8) (rest : Edges) (tail items : List Item) :
    (testItems id byte rest ++ tail ++ items).filterMap Item.node? =
      id :: (tail.filterMap Item.node? ++ items.filterMap Item.node?) := by
  rw [List.filterMap_append, List.filterMap_append]
  rfl

/-- Nodes are entered in their order, each at one place at most. -/
theorem Emitted.nodes_sublist (h : Emitted r collapse path edges items) :
    (items.filterMap Item.node?).Sublist edges.numbers := by
  induction h with
  | nil => exact List.Sublist.refl []
  | collapsed _ _ _ _ ih =>
    rw [filterMap_node?_test, List.filterMap_append, filterMap_node?_callItems]
    exact (ih.trans (List.sublist_append_right _ _)).cons_cons _
  | leaf _ _ ih =>
    rw [filterMap_node?_test, List.filterMap_append, filterMap_node?_callItems]
    exact ih.cons_cons _
  | inner _ _ _ _ ihBelow ihRest =>
    rw [filterMap_node?_test, List.filterMap_append, List.filterMap_append,
      filterMap_node?_callItems]
    exact (ihBelow.append ihRest).cons_cons _
  | passing _ _ _ _ ihBelow ihRest =>
    rw [filterMap_node?_test, List.filterMap_append]
    exact (ihBelow.append ihRest).cons_cons _

theorem target_callItems {m : Method} {hook : MethodId} {op : Operation}
    (h : .plain op ∈ m.callItems hook) : op.target = none := by
  obtain ⟨op', hop, heq⟩ := mem_callItems h
  cases heq
  exact Method.target_callSequence hop

/-- What is emitted in its final form is no branch. -/
theorem Emitted.target_plain (h : Emitted r collapse path edges items) {op : Operation}
    (hmem : .plain op ∈ items) : op.target = none := by
  induction h with
  | nil => cases hmem
  | collapsed _ _ _ _ ih =>
    simp only [testItems, List.mem_append, List.mem_cons, List.not_mem_nil, or_false, reduceCtorEq,
      false_or, Item.plain.injEq] at hmem
    rcases hmem with (rfl | rfl | hcall) | hrest
    · rfl
    · rfl
    · exact target_callItems hcall
    · exact ih hrest
  | leaf _ _ ih =>
    simp only [testItems, List.mem_append, List.mem_cons, List.not_mem_nil, or_false, reduceCtorEq,
      false_or, Item.plain.injEq] at hmem
    rcases hmem with (rfl | rfl | hcall) | hrest
    · rfl
    · rfl
    · exact target_callItems hcall
    · exact ih hrest
  | inner _ _ _ _ ihBelow ihRest =>
    simp only [testItems, List.mem_append, List.mem_cons, List.not_mem_nil, or_false, reduceCtorEq,
      false_or, Item.plain.injEq] at hmem
    rcases hmem with (rfl | (rfl | hcall) | hbelow) | hrest
    · rfl
    · rfl
    · exact target_callItems hcall
    · exact ihBelow hbelow
    · exact ihRest hrest
  | passing _ _ _ _ ihBelow ihRest =>
    simp only [testItems, List.mem_append, List.mem_cons, List.not_mem_nil, or_false, reduceCtorEq,
      false_or, Item.plain.injEq] at hmem
    rcases hmem with (rfl | rfl | hbelow) | hrest
    · rfl
    · rfl
    · exact ihBelow hbelow
    · exact ihRest hrest

end Edges

def Registry.Callable (r : Registry) (hook : MethodId) : Prop :=
  ∃ key m, r.Calls hook key m

theorem Registry.Callable.fault? {r : Registry} {hook : MethodId} (h : r.Callable hook) :
    (r.emitCall hook).fault? = none := by
  obtain ⟨key, m, hcalls⟩ := h
  rw [hcalls.emitCall_eq, Emission.fault?_ofItems]

/-- What stands in the way below an edge is what stands in the way of its hook, or else of the
first of the hooks below. A single path has one hook, so comparing the whole name skips none. -/
theorem Edges.fault?_emitInside {r : Registry} {collapse : Bool} {path : List UInt8} {id : NodeId}
    {terminal : Option MethodId} {below : Edges} (hnode : terminal.isSome ∨ below ≠ .nil)
    (hbelow : (below.emit r collapse path).fault? =
      below.terminals.findSome? fun entry => (r.emitCall entry.2).fault?) :
    (below.emitInside r collapse path id terminal).fault? =
      (terminal.bind fun hook => (r.emitCall hook).fault?).or
        (below.terminals.findSome? fun entry => (r.emitCall entry.2).fault?) := by
  unfold emitInside
  split
  · rename_i leaf hleaf
    split at hleaf
    · rename_i hcollapse
      rw [Bool.and_eq_true, Option.isNone_iff_eq_none] at hcollapse
      rw [hcollapse.2, terminals_of_soleLeaf hleaf, Emission.fault?_append,
        Emission.fault?_ofItems, Option.none_or, Option.bind_none, Option.none_or,
        List.findSome?_singleton]
    · cases hleaf
  · rw [Emission.fault?_append, Emission.fault?_ofItems, Option.none_or]
    cases hfirst : below.first? with
    | none =>
      have hnil := eq_nil_of_first?_eq_none hfirst
      cases terminal with
      | none =>
        rcases hnode with hterminal | hedges
        · cases hterminal
        · exact absurd hnil hedges
      | some hook =>
        simp only [hnil, terminals, List.findSome?_nil, Option.bind_some, Option.or_none,
          Emission.fault?_append, Emission.fault?_ofItems, Option.none_or]
    | some first =>
      cases terminal with
      | none =>
        simp only [Emission.fault?_append, Emission.fault?_ofItems, Option.none_or,
          Option.bind_none, hbelow]
      | some hook =>
        simp only [Emission.fault?_append, Emission.fault?_ofItems, Option.none_or,
          Option.bind_some, hbelow]

/-- What stands in the way of a group is what stands in the way of its first hook that cannot be
called. -/
theorem Edges.fault?_emit_eq {r : Registry} {collapse : Bool} {path : List UInt8} {edges : Edges}
    (hproductive : edges.Productive) : (edges.emit r collapse path).fault? =
      edges.terminals.findSome? fun entry => (r.emitCall entry.2).fault? := by
  induction edges generalizing path with
  | nil => rfl
  | cons id byte terminal below rest ihBelow ihRest =>
    obtain ⟨hnode, hbelow, hrest⟩ := hproductive
    have hterminal : (terminal.toList.map (([byte], ·))).findSome?
        (fun entry => (r.emitCall entry.2).fault?) =
          terminal.bind fun hook => (r.emitCall hook).fault? := by
      cases terminal with
      | none => rfl
      | some hook => simp
    rw [emit_cons, Emission.fault?_append, Emission.fault?_append, Emission.fault?_ofItems,
      Option.none_or, fault?_emitInside hnode (ihBelow hbelow), ihRest hrest, terminals,
      List.findSome?_append, List.findSome?_append, hterminal, List.findSome?_map]
    rfl

/-- A group is emitted if every path leads to a hook and every hook can be called. -/
theorem Edges.fault?_emit {r : Registry} {collapse : Bool} {path : List UInt8} {edges : Edges}
    (hproductive : edges.Productive) (hhooks : ∀ q hook, (q, hook) ∈ edges.terminals →
      r.Callable hook) : (edges.emit r collapse path).fault? = none := by
  rw [fault?_emit_eq hproductive, List.findSome?_eq_none_iff]
  rintro ⟨q, hook⟩ hmem
  exact (hhooks q hook hmem).fault?

end HookDispatch
