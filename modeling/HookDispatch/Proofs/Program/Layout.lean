import HookDispatch.Proofs.Program.Patching
import HookDispatch.Proofs.Trie.Lookup

/-!
The layout of a compiled program. Its operations are the emitted items with all targets known, and
the place of a node is the position of its first operation. A compilation that succeeds has put
every branch within reach of a label, so this needs no bound on the size of the program; only the
label of the rejection at the end may have lost bits in a program that is too large.
-/
namespace HookDispatch

def Holds (ops : Array Operation) (pos : Nat) : List Operation → Prop
  | [] => True
  | op :: seg => ops[pos]? = some op ∧ Holds ops (pos + 1) seg

/-- Items stand at a position and after it, with the places that their targets have. -/
def Laid (ops : Array Operation) (place : JumpTarget → Label) (pos : Nat) : List Item → Prop
  | [] => True
  | item :: items =>
    (ops[pos]? = some (item.patched place) ∧
      ∀ id, item = .entry id → (place (.node id)).toNat = pos) ∧ Laid ops place (pos + 1) items

section Laid
variable {ops : Array Operation} {place : JumpTarget → Label} {pos : Nat}

theorem laid_append {a b : List Item} :
    Laid ops place pos (a ++ b) ↔ Laid ops place pos a ∧ Laid ops place (pos + a.length) b := by
  induction a generalizing pos with
  | nil => simp [Laid]
  | cons item a ih =>
    simp only [List.cons_append, Laid, ih, List.length_cons, and_assoc,
      show pos + (a.length + 1) = pos + 1 + a.length by omega]

theorem holds_of_laid {seg : List Operation} (h : Laid ops place pos (seg.map .plain)) :
    Holds ops pos seg := by
  induction seg generalizing pos with
  | nil => trivial
  | cons op seg ih => exact ⟨h.1.1, ih h.2⟩

theorem laid_of_getElem? {items : List Item}
    (hcode : ∀ i item, items[i]? = some item → ops[pos + i]? = some (item.patched place))
    (hentry : ∀ i id, items[i]? = some (.entry id) → (place (.node id)).toNat = pos + i) :
    Laid ops place pos items := by
  induction items generalizing pos with
  | nil => trivial
  | cons item items ih =>
    refine ⟨⟨hcode 0 item rfl, ?_⟩, ih ?_ ?_⟩
    · rintro id rfl
      exact hentry 0 id rfl
    · intro i item' hi
      rw [Nat.add_assoc, Nat.add_comm 1 i]
      exact hcode (i + 1) item' hi
    · intro i id hi
      rw [Nat.add_assoc, Nat.add_comm 1 i]
      exact hentry (i + 1) id hi

theorem Holds.getElem? {seg : List Operation} (h : Holds ops pos seg) {i : Nat} {op : Operation}
    (hi : seg[i]? = some op) : ops[pos + i]? = some op := by
  induction seg generalizing pos i with
  | nil => cases hi
  | cons first seg ih =>
    cases i with
    | zero =>
      cases hi
      exact h.1
    | succ i =>
      rw [Nat.add_comm i 1, ← Nat.add_assoc]
      exact ih h.2 hi

end Laid

def rejection : List Operation := [.setHandled false, .ret]

theorem mem_entryMarks {items : List Item} {id : NodeId} {l : Label} :
    (id, l) ∈ entryMarks items ↔ ∃ i, items[i]? = some (.entry id) ∧ l = .ofNat i := by
  rw [entryMarks, List.mem_filterMap]
  constructor
  · rintro ⟨⟨item, i⟩, hmem, heq⟩
    have hitem := List.mem_zipIdx_iff_getElem?.mp hmem
    cases item with
    | plain op => cases heq
    | jump c target => cases heq
    | entry id' =>
      cases heq
      exact ⟨i, hitem, rfl⟩
  · rintro ⟨i, hitem, rfl⟩
    exact ⟨(.entry id, i), List.mem_zipIdx_iff_getElem?.mpr hitem, rfl⟩

namespace Trie

def opening (t : Trie) : List Item :=
  [.plain .clearResult, .jump .nameEmpty .epilogue, .plain .initCursor] ++
    if t.edges.first?.isNone then [] else [.jump .exhausted .epilogue]

def methodItems (t : Trie) (group : List Item) : List Item :=
  t.opening ++ group ++ rejection.map .plain

/-- A method is emitted around the code of its edges. -/
theorem items_emit {t : Trie} {r : Registry} {collapse : Bool}
    (h : (t.emit r collapse).fault? = none) :
    ∃ group, t.edges.Emitted r collapse [] group ∧
      (t.emit r collapse).items = t.methodItems group := by
  rw [emit, Emission.fault?_append_eq_none, Emission.fault?_append_eq_none] at h
  obtain ⟨⟨hstart, hgroup⟩, hend⟩ := h
  rw [emit, Emission.items_append (Emission.fault?_append_eq_none.mpr ⟨hstart, hgroup⟩),
    Emission.items_append hstart, Emission.items_ofItems, Emission.items_ofItems]
  simp only [methodItems, opening]
  cases hfirst : t.edges.first? with
  | none =>
    rw [Edges.eq_nil_of_first?_eq_none hfirst]
    exact ⟨[], .nil [], rfl⟩
  | some first =>
    simp only [hfirst, Option.isNone_some, Bool.false_eq_true, if_false] at hgroup ⊢
    rw [Emission.fault?_append_eq_none] at hgroup
    refine ⟨_, Edges.emitted_of_fault? hgroup.2, ?_⟩
    rw [Emission.items_append hgroup.1, Emission.items_ofItems]
    rfl

section Method
variable {t : Trie} {r : Registry} {collapse : Bool} {group : List Item}

theorem wired_methodItems (h : t.edges.Emitted r collapse [] group) :
    Wired (t.methodItems group) := by
  have hopening : Wired t.opening := by
    rw [opening]
    split
    · exact ⟨trivial, trivial, trivial, trivial⟩
    · exact ⟨trivial, trivial, trivial, trivial, trivial⟩
  exact wired_append (wired_append hopening h.wired) ⟨trivial, trivial, trivial⟩

theorem target_plain_methodItems (h : t.edges.Emitted r collapse [] group) {op : Operation}
    (hmem : .plain op ∈ t.methodItems group) : op.target = none := by
  rw [methodItems, List.mem_append, List.mem_append, opening] at hmem
  rcases hmem with (hopening | hgroup) | hend
  · split at hopening <;> simp at hopening <;> rcases hopening with rfl | rfl <;> rfl
  · exact h.target_plain hgroup
  · simp only [rejection, List.map_cons, List.map_nil, List.mem_cons, List.not_mem_nil, or_false,
      Item.plain.injEq] at hend
    rcases hend with rfl | rfl <;> rfl

theorem two_le_methodItems (t : Trie) (group : List Item) : 2 ≤ (t.methodItems group).length := by
  rw [methodItems, List.length_append]
  exact Nat.le_add_left _ _

theorem nodes_methodItems (t : Trie) (group : List Item) :
    (t.methodItems group).filterMap Item.node? = group.filterMap Item.node? := by
  have hopening : t.opening.filterMap Item.node? = [] := by
    rw [opening]
    split <;> rfl
  rw [methodItems, List.filterMap_append, List.filterMap_append, hopening]
  exact List.append_nil _

/-- The latest mark of a node counts. -/
theorem firstOp?_mark_eq (t : Trie) (marks : List (NodeId × Label)) (id : NodeId) :
    (t.mark marks).firstOp? id =
      ((marks.reverse.find? (·.1 == id)).map Prod.snd).or (t.firstOp? id) := by
  rw [firstOp?, mark, List.find?_append, firstOp?]
  cases marks.reverse.find? (·.1 == id) <;> rfl

/-- A node is marked with the position of its first operation. -/
theorem firstOp?_mark {items : List Item} (hnodup : (items.filterMap Item.node?).Nodup) {i : Nat}
    {id : NodeId} (hentry : items[i]? = some (.entry id)) :
    (t.mark (entryMarks items)).firstOp? id = some (.ofNat i) := by
  have hfst : (entryMarks items).map Prod.fst = items.filterMap Item.node? := by
    rw [entryMarks, List.map_filterMap]
    conv_rhs => rw [← List.zipIdx_map_fst 0 items, List.filterMap_map]
    congr 1
    funext ⟨item, j⟩
    cases item <;> rfl
  have hmem : (id, Label.ofNat i) ∈ (entryMarks items).reverse :=
    List.mem_reverse.mpr (mem_entryMarks.mpr ⟨i, hentry, rfl⟩)
  have hnodup' : ((entryMarks items).reverse.map Prod.fst).Nodup := by
    rw [List.map_reverse, hfst]
    exact List.nodup_reverse.mpr hnodup
  rw [firstOp?_mark_eq, find?_of_nodup_map hnodup' hmem]
  rfl

theorem nodup_nodes (ht : t.Sound) (h : t.edges.Emitted r collapse [] group) :
    ((t.methodItems group).filterMap Item.node?).Nodup := by
  rw [nodes_methodItems]
  exact h.nodes_sublist.nodup ht.numbers_nodup

def place (t : Trie) (epilogue : Label) : JumpTarget → Label
  | .epilogue => epilogue
  | .node id => (t.firstOp? id).getD .pending

def finished (t : Trie) (items : List Item) (epilogue : Label) : Array Operation :=
  (items.map (Item.patched ((t.mark (entryMarks items)).place epilogue))).toArray

/-- If all its branches are within reach of labels, a method is patched completely. -/
theorem patchAll_methodItems (ht : t.Sound) (h : t.edges.Emitted r collapse [] group)
    (hsmall : ∀ i c target, (t.methodItems group)[i]? = some (.jump c target) → i < UInt32.size)
    (epilogue : Label) :
    PendingJump.patchAll (t.mark (entryMarks (t.methodItems group))).firstOp? epilogue
      (pendingJumps (t.methodItems group)) ((t.methodItems group).map Item.operation).toArray =
        (t.finished (t.methodItems group) epilogue, none) := by
  refine PendingJump.patchAll_items [] (t.methodItems group) ?_ ?_
  · intro i c target hi
    rw [List.length_nil, Nat.zero_add]
    exact hsmall i c target hi
  · intro op c target hmem
    cases target with
    | epilogue => rfl
    | node id =>
      obtain ⟨i, hi⟩ := List.mem_iff_getElem?.mp hmem
      obtain ⟨j, -, hj⟩ := (wired_methodItems h).exists_entry hi
      have hfirst := firstOp?_mark (t := t) (nodup_nodes ht h) hj
      rw [PendingJump.destination_node hfirst, place, hfirst, Option.getD_some]

end Method

end Trie

structure Layout (t : Trie) (r : Registry) (collapse : Bool) (p : Program) where
  group : List Item
  place : JumpTarget → Label
  emitted : t.edges.Emitted r collapse [] group
  operations : p.operations = ((t.methodItems group).map (Item.patched place)).toArray
  entries : ∀ i id, (t.methodItems group)[i]? = some (.entry id) → (place (.node id)).toNat = i
  epilogue : place .epilogue = .ofNat (p.size - 2)
  hooks : p.hooks = r.entries
  temps : p.temps = tempDemand 0 ((t.methodItems group).map Item.operation)

namespace Trie

variable {t : Trie} {r : Registry} {collapse : Bool} {typeName : String}

/-- A branch without a label of its own is found after the patching. -/
theorem jump_lt_of_resolved {items : List Item} {firstOp : NodeId → Option Label} {epilogue : Label}
    {queue : List PendingJump} {resolved : Array Operation} {count : Nat}
    (h : resolveJumps queue firstOp epilogue (items.map Item.operation).toArray =
      (resolved, .ok count)) {i : Nat} {c : Condition} {target : JumpTarget}
    (hi : items[i]? = some (.jump c target)) : i < UInt32.size := by
  by_contra hlarge
  obtain ⟨-, hkeep⟩ := PendingJump.patchAll_untouched firstOp epilogue queue
    (items.map Item.operation).toArray
  have hold : (items.map Item.operation).toArray[i]? = some (.branch c .pending) := by
    rw [List.getElem?_toArray, List.getElem?_map, hi]
    rfl
  have hop := (hkeep i (Nat.not_lt.mp hlarge)).trans hold
  obtain ⟨hpatch, hnone, -⟩ := PendingJump.resolveJumps_eq_ok.mp h
  rw [hpatch] at hop
  have hpending := Array.findIdx?_eq_none_iff.mp hnone (.branch c .pending)
    (Array.mem_of_getElem? hop)
  exact absurd hpending (by simp [Operation.isPendingBranch, Operation.target, Label.isPending])

/-- What was done by a compilation that succeeds: nothing was in the way of the emission, the
entered nodes are marked, and all queued branches were patched and counted. -/
theorem resolved_of_compile {p : Program} (h : (t.compile r collapse typeName).2.value = .ok p) :
    (t.emit r collapse).fault? = none ∧
      (t.compile r collapse typeName).1 = t.mark (entryMarks (t.emit r collapse).items) ∧
      p.epilogue = .ofNat ((t.emit r collapse).items.length - 2) ∧ p.hooks = r.entries ∧
      p.temps = tempDemand 0 ((t.emit r collapse).items.map Item.operation) ∧
      ∃ count, (t.compile r collapse typeName).2.events = [.resolved count p.epilogue] ∧
        resolveJumps (pendingJumps (t.emit r collapse).items)
          (t.mark (entryMarks (t.emit r collapse).items)).firstOp? p.epilogue
          ((t.emit r collapse).items.map Item.operation).toArray = (p.operations, .ok count) := by
  rw [compile] at h ⊢
  cases hfault : (t.emit r collapse).fault? with
  | some e =>
    simp only [hfault] at h
    cases h
  | none =>
    simp only [hfault, link, List.length_map] at h ⊢
    split at h
    · cases h
    rename_i resolved count hresolve
    cases h
    exact ⟨trivial, trivial, rfl, rfl, rfl, count, rfl, hresolve⟩

/-- A program that was compiled has a layout, in which entered nodes stand where they are marked. -/
theorem exists_marked_layout {p : Program} (ht : t.Sound)
    (h : (t.compile r collapse typeName).2.value = .ok p) :
    ∃ L : Layout t r collapse p, (t.emit r collapse).items = t.methodItems L.group ∧
      ∀ id, .entry id ∈ t.methodItems L.group →
        (t.compile r collapse typeName).1.firstOp? id = some (L.place (.node id)) := by
  obtain ⟨hfault, hmarked, hepilogue, hhooks, htemps, count, -, hresolve⟩ := resolved_of_compile h
  obtain ⟨group, hemitted, hitems⟩ := items_emit hfault
  rw [hitems] at hmarked hepilogue htemps hresolve
  have hsmall : ∀ i c target, (t.methodItems group)[i]? = some (.jump c target) →
      i < UInt32.size := fun i c target hi => jump_lt_of_resolved hresolve hi
  have hpatch := patchAll_methodItems ht hemitted hsmall p.epilogue
  have hops : p.operations = t.finished (t.methodItems group) p.epilogue :=
    congrArg Prod.fst ((PendingJump.resolveJumps_eq_ok.mp hresolve).1.symm.trans hpatch)
  have hmark : ∀ {i id}, (t.methodItems group)[i]? = some (.entry id) →
      (t.mark (entryMarks (t.methodItems group))).firstOp? id = some (.ofNat i) :=
    fun hi => firstOp?_mark (nodup_nodes ht hemitted) hi
  refine ⟨⟨group, _, hemitted, hops, ?_, ?_, hhooks, htemps⟩, hitems, ?_⟩
  · intro i id hi
    obtain ⟨byte, target, -, hjump⟩ := (wired_methodItems hemitted).test_entry hi
    have hlt := hsmall _ _ _ hjump
    rw [place, hmark hi]
    exact Label.toNat_ofNat (by omega)
  · rw [place, Program.size, hops, finished, List.size_toArray, List.length_map]
    exact hepilogue
  · intro id hmem
    obtain ⟨i, hi⟩ := List.mem_iff_getElem?.mp hmem
    rw [hmarked]
    simp only [place, hmark hi, Option.getD_some]

/-- A program that was compiled has a layout. -/
theorem exists_layout {p : Program} (ht : t.Sound)
    (h : (t.compile r collapse typeName).2.value = .ok p) : Nonempty (Layout t r collapse p) := by
  obtain ⟨L, -⟩ := exists_marked_layout ht h
  exact ⟨L⟩

/-- A compiled program is linked from what was emitted, and ends with the rejection. -/
theorem linked_of_compile {p : Program} (h : (t.compile r collapse typeName).2.value = .ok p) :
    (t.emit r collapse).fault? = none ∧ p.size = (t.emit r collapse).items.length ∧
      p.epilogue = .ofNat (p.size - 2) := by
  obtain ⟨hfault, -, hepilogue, -, -, count, -, hresolve⟩ := resolved_of_compile h
  obtain ⟨hpatch, -, -⟩ := PendingJump.resolveJumps_eq_ok.mp hresolve
  obtain ⟨hkeep, -⟩ := PendingJump.patchAll_untouched _ _ _ _
  rw [hpatch] at hkeep
  have hsize : p.size = (t.emit r collapse).items.length := by
    rw [Program.size, hkeep, List.size_toArray, List.length_map]
  exact ⟨hfault, hsize, hsize ▸ hepilogue⟩

/-- A compilation that succeeds reports its queued branches and the place of the rejection. -/
theorem events_of_compile {p : Program} (h : (t.compile r collapse typeName).2.value = .ok p) :
    (t.compile r collapse typeName).2.events =
      [.resolved (pendingJumps (t.emit r collapse).items).length p.epilogue] := by
  obtain ⟨-, -, -, -, -, count, hevents, hresolve⟩ := resolved_of_compile h
  obtain ⟨-, -, hcount⟩ := PendingJump.resolveJumps_eq_ok.mp hresolve
  rw [hevents, hcount]

/-- A compiled program has an operation for each emitted one. -/
theorem size_of_compile {p : Program} (h : (t.compile r collapse typeName).2.value = .ok p) :
    p.size = (t.emit r collapse).length := by
  obtain ⟨hfault, hsize, -⟩ := linked_of_compile h
  rw [hsize, Emission.length_items hfault]

theorem ne_pending {l : Label} {n : Nat} (h : l.toNat = n) (hn : n + 1 < UInt32.size) :
    l.isPending = false := by
  rw [Label.isPending, beq_eq_false_iff_ne]
  rintro rfl
  have hlast : Label.pending.toNat + 1 = UInt32.size := rfl
  omega

/-- If the program is not too large, no branch of it is left pending. -/
theorem findIdx?_finished {group : List Item} (ht : t.Sound)
    (hemitted : t.edges.Emitted r collapse [] group)
    (hsize : (t.methodItems group).length ≤ UInt32.size) :
    (t.finished (t.methodItems group)
      (.ofNat (((t.methodItems group).map Item.operation).length - 2))).findIdx?
        Operation.isPendingBranch = none := by
  have hlt : ∀ i item, (t.methodItems group)[i]? = some item → i < (t.methodItems group).length :=
    fun i item hi => (List.getElem?_eq_some_iff.mp hi).1
  rw [Array.findIdx?_eq_none_iff]
  intro op hop
  rw [finished, List.mem_toArray, List.mem_map] at hop
  obtain ⟨item, hitem, rfl⟩ := hop
  cases item with
  | plain op =>
    have htarget := target_plain_methodItems hemitted hitem
    simp [Item.patched, Operation.isPendingBranch, htarget]
  | entry id => rfl
  | jump c target =>
    obtain ⟨i, hi⟩ := List.mem_iff_getElem?.mp hitem
    have hlast := hlt i _ hi
    cases target with
    | epilogue =>
      have htwo := two_le_methodItems t group
      rw [List.length_map]
      exact ne_pending (Label.toNat_ofNat (by omega)) (by omega)
    | node id =>
      -- The entry of a node is followed by its test, so it is not the last operation.
      obtain ⟨j, hij, hj⟩ := (wired_methodItems hemitted).exists_entry hi
      obtain ⟨byte, target, -, hjump⟩ := (wired_methodItems hemitted).test_entry hj
      have hafter := hlt _ _ hjump
      refine ne_pending (n := j) ?_ (by omega)
      rw [place, firstOp?_mark (nodup_nodes ht hemitted) hj]
      exact Label.toNat_ofNat (by omega)

/-- A trie whose hooks can be called is compiled, unless the program is too large for labels. -/
theorem compile_ok (ht : t.Sound) (hhooks : ∀ path hook, (path, hook) ∈ t.edges.terminals →
    r.Callable hook) (collapse : Bool) (typeName : String)
    (hsize : (t.emit r collapse).length ≤ UInt32.size) :
    ∃ p, (t.compile r collapse typeName).2.value = .ok p ∧
      p.size = (t.emit r collapse).length := by
  have hfault : (t.emit r collapse).fault? = none := by
    rw [emit, Emission.fault?_append_eq_none, Emission.fault?_append_eq_none]
    refine ⟨⟨Emission.fault?_ofItems _, ?_⟩, Emission.fault?_ofItems _⟩
    split
    · rfl
    · exact Emission.fault?_append_eq_none.mpr
        ⟨Emission.fault?_ofItems _, Edges.fault?_emit ht.productive hhooks⟩
  obtain ⟨group, hemitted, hitems⟩ := items_emit hfault
  have hlength : (t.methodItems group).length = (t.emit r collapse).length := by
    rw [← hitems, Emission.length_items hfault]
  rw [← hlength] at hsize
  have hsmall : ∀ i c target, (t.methodItems group)[i]? = some (.jump c target) →
      i < UInt32.size := fun i c target hi =>
    Nat.lt_of_lt_of_le (List.getElem?_eq_some_iff.mp hi).1 hsize
  have hpatch := patchAll_methodItems ht hemitted hsmall
    (.ofNat (((t.methodItems group).map Item.operation).length - 2))
  have hnone := findIdx?_finished ht hemitted hsize
  obtain ⟨p, hlink, hp⟩ : ∃ p, ((t.mark (entryMarks (t.methodItems group))).link r typeName
      (t.methodItems group)).value = .ok p ∧ p.size = (t.methodItems group).length := by
    simp only [link, PendingJump.resolveJumps_eq_ok.mpr ⟨hpatch, hnone, rfl⟩]
    exact ⟨_, rfl, by simp [Program.size, finished]⟩
  refine ⟨p, ?_, hp.trans hlength⟩
  rw [compile]
  simp only [hfault, hitems]
  exact hlink

end Trie

namespace Layout

variable {t : Trie} {r : Registry} {collapse : Bool} {p : Program}

theorem size_eq (L : Layout t r collapse p) : p.size = (t.methodItems L.group).length := by
  rw [Program.size, L.operations, List.size_toArray, List.length_map]

theorem operation_at (L : Layout t r collapse p) {i : Nat} {item : Item}
    (h : (t.methodItems L.group)[i]? = some item) :
    p.operations[i]? = some (item.patched L.place) := by
  rw [L.operations, List.getElem?_toArray, List.getElem?_map, h]
  rfl

/-- All operations are in their places. -/
theorem laid (L : Layout t r collapse p) :
    Laid p.operations L.place 0 (t.methodItems L.group) := by
  refine laid_of_getElem? ?_ ?_
  · intro i item hi
    rw [Nat.zero_add]
    exact L.operation_at hi
  · intro i id hi
    rw [Nat.zero_add]
    exact L.entries i id hi

theorem holds_rejection (L : Layout t r collapse p) :
    Holds p.operations (p.size - 2) rejection := by
  have hend := (laid_append.mp L.laid).2
  have hsize : p.size - 2 = 0 + (t.opening ++ L.group).length := by
    rw [L.size_eq, Trie.methodItems, List.length_append, Nat.zero_add]
    exact Nat.add_sub_cancel _ 2
  rw [hsize]
  exact holds_of_laid hend

/-- The label of the rejection is right in a program that is not too large. -/
theorem toNat_epilogue (L : Layout t r collapse p) (hsize : p.size ≤ UInt32.size) :
    (L.place .epilogue).toNat = p.size - 2 := by
  have htwo := Trie.two_le_methodItems t L.group
  rw [← L.size_eq] at htwo
  rw [L.epilogue, Label.toNat_ofNat (by omega)]

theorem five_le_size (L : Layout t r collapse p) : 5 ≤ p.size := by
  rw [L.size_eq, Trie.methodItems, List.length_append, List.length_append, Trie.opening,
    List.length_append]
  simp only [List.length_cons, List.length_nil, List.length_map, rejection]
  omega

end Layout

/-- The operations that answer a name for which the trie has the given hook. -/
inductive Registry.Answers (r : Registry) : Option MethodId → List Operation → Prop
  | call {hook : MethodId} {key : Signature} {m : Method} (hcalls : r.Calls hook key m) :
      Answers r (some hook) (m.callSequence hook)
  | reject : Answers r none rejection

namespace Registry.Answers

variable {r : Registry} {found : Option MethodId} {body : List Operation}

theorem target (h : r.Answers found body) : ∀ op ∈ body, op.target = none := by
  intro op hop
  cases h with
  | call hcalls => exact Method.target_callSequence hop
  | reject =>
    simp only [rejection, List.mem_cons, List.not_mem_nil, or_false] at hop
    rcases hop with rfl | rfl <;> rfl

/-- The answers end with a return, and no block ends before it. -/
theorem ends_once (h : r.Answers found body) :
    ∃ seg, body = seg ++ [.ret] ∧ ∀ op ∈ seg, Program.endsBlock op = false := by
  cases h with
  | @call hook key m hcalls =>
    refine ⟨Method.unpackFrom 0 0 m.params ++ [.call hook] ++ m.storeReturn ++
      Method.writeBackFrom 0 0 m.params ++ [.setHandled true], by simp [Method.callSequence], ?_⟩
    intro op hop
    have hmarshals : op.marshals = true ∨ op = .setHandled true := by
      simp only [List.mem_append, List.mem_singleton] at hop
      rcases hop with (((hop | rfl) | hop) | hop) | rfl
      · exact Or.inl (Method.marshals_unpackFrom hop)
      · exact Or.inl rfl
      · exact Or.inl (Method.marshals_storeReturn hop)
      · exact Or.inl (Method.marshals_writeBackFrom hop)
      · exact Or.inr rfl
    rcases hmarshals with hmarshals | rfl
    · cases op <;> first | rfl | cases hmarshals
    · rfl
  | reject =>
    refine ⟨[.setHandled false], rfl, ?_⟩
    intro op hop
    rw [List.mem_singleton.mp hop]
    rfl

theorem lt_size (h : r.Answers found body) {ops : Array Operation} {pc : Nat}
    (hholds : Holds ops pc body) : pc < ops.size := by
  obtain ⟨seg, hseg, -⟩ := h.ends_once
  obtain ⟨op, hfirst⟩ : ∃ op, body[0]? = some op := by
    rw [hseg]
    cases seg with
    | nil => exact ⟨_, rfl⟩
    | cons op seg => exact ⟨op, rfl⟩
  exact (Array.getElem?_eq_some_iff.mp (hholds.getElem? hfirst)).1

end Registry.Answers

end HookDispatch
