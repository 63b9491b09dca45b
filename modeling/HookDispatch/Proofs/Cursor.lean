import HookDispatch.Proofs.Machine.Counters
import HookDispatch.Proofs.Machine.Stages
import HookDispatch.Proofs.NodeArena

/-!
The cursor of a run. Control comes to the test of a node only if the name goes on behind the path of
the node's parent, and if no earlier sibling has its next byte. So every byte that is loaded is
there, although not every group of tests is guarded, and neither the cursor nor anything inspected
is ever beyond the end of the name.
-/
namespace HookDispatch

namespace Run

variable {σ : Type} {t : Trie} {r : Registry} {collapse : Bool} {p : Program}
  {invokers : Array (Invoker σ)} {name : List UInt8} {s : Run σ}

/-- The test of a node is next: the cursor is on the byte that leads to the node from its parent. -/
structure AtNode (t : Trie) (name : List UInt8) (n : Node) (s : Run σ) : Prop where
  depth_eq : s.position + 1 = n.depth
  inside_name : s.position < name.length
  /-- The bytes before the cursor spell the path of the parent, and the siblings that are stored
  before the node are reached by other bytes than the next one. -/
  below_parent : ∃ parent before after, n.parent = some parent.id ∧
    t.node? parent.id = some parent ∧ name.take s.position = parent.path ∧
    parent.children = before ++ n.id :: after ∧
    ∀ sibling ∈ before, ∃ m, t.node? sibling = some m ∧ m.byte ≠ name[s.position]?

section Faces
variable {L : Layout t r collapse p} {above : Node} {before : List Node} {id : NodeId}
  {byte : UInt8} {terminal : Option MethodId} {below rest : Edges} {pos : Nat}

theorem Faces.atNode (h : Faces name L above before (.cons id byte terminal below rest) pos s)
    (ht : t.Regular) :
    ∃ n, t.node? id = some n ∧ AtNode t name n s := by
  have hplace : ⟨id, some above.id, above.path ++ [byte], terminal, below, rest⟩ ∈ t.places :=
    h.mem_places List.mem_cons_self
  refine ⟨_, ht.node?_eq_some.mpr ⟨hplace, rfl⟩, ?_, h.inside_name, ?_⟩
  · rw [h.position_eq, Node.depth, List.length_append]
    rfl
  have hchildren : above.children = before.map Node.id ++ id :: rest.ids := by
    rw [Node.children, ← Edges.map_id_heads above.id above.path, h.heads_eq, List.map_append,
      Edges.map_id_heads]
    rfl
  refine ⟨above, before.map Node.id, rest.ids, rfl, ht.node?_eq_some.mpr ⟨h.above_mem, rfl⟩, ?_,
    hchildren, ?_⟩
  · rw [h.position_eq]
    exact (List.prefix_iff_eq_take.mp h.spelled).symm
  · intro sibling hsibling
    obtain ⟨m, hm, rfl⟩ := List.mem_map.mp hsibling
    have hplace : m ∈ t.places := by
      refine Trie.mem_places_iff.mpr (Or.inr ⟨above, h.above_mem, ?_⟩)
      rw [h.heads_eq]
      exact List.mem_append_left _ hm
    exact ⟨m, ht.node?_eq_some.mpr ⟨hplace, rfl⟩, h.passed m hm⟩

end Faces

section Position
variable {L : Layout t r collapse p}

theorem Judged.position_le (h : Judged name L s) : s.position ≤ name.length := by
  cases h <;> assumption

theorem Stage.position_le (h : Stage name L s) : s.position ≤ name.length := by
  cases h with
  | starting hpc hposition | cleared hpc hposition | named hpc hposition | begun hpc hposition =>
    exact hposition ▸ Nat.zero_le _
  | entering hfaces | loaded hfaces | compared hfaces => exact Nat.le_of_lt hfaces.inside_name
  | agreed hinside hlength hposition hspelled =>
    have hle := hspelled.length_le
    omega
  | atHook _ _ _ _ hposition hspelled | passing _ _ _ _ hposition hspelled =>
    exact hposition ▸ hspelled.length_le
  | judged hjudged => exact hjudged.position_le

end Position

end Run

namespace Layout

variable {σ : Type} {t : Trie} {r : Registry} {collapse : Bool} {p : Program}
  {name : List UInt8} {s : Run σ}

/-- Every run of a program is in a stage, whatever it does. -/
theorem stage_go (L : Layout t r collapse p) (hsize : p.size ≤ UInt32.size)
    (invokers : Array (Invoker σ)) (hpc : s.pc = 0) (hposition : s.position = 0) (n : Nat) :
    Run.Stage name L (Run.go p.operations invokers name n s) :=
  Run.go_of_step (fun _ h hopen => h.step hsize hopen) (.starting hpc hposition) n

theorem stage_trace (L : Layout t r collapse p) (hsize : p.size ≤ UInt32.size)
    {invokers : Array (Invoker σ)} (hpc : s.pc = 0) (hposition : s.position = 0) {n : Nat}
    {e : Operation × Run σ} (he : e ∈ Run.trace p.operations invokers name n s) :
    Run.Stage name L e.2 ∧ Run.Reads name e.2 L e.1 := by
  obtain ⟨hstage, hopen, hop⟩ := Run.mem_trace_of_step (P := Run.Stage name L)
    (fun _ h hopen => h.step hsize hopen) (.starting hpc hposition) he
  exact ⟨hstage, hstage.reads hopen hop⟩

/-- Of the name a run inspects what the tests of its nodes reach, and all of it only if the whole
name is compared with a key of the same length. -/
theorem inspected_go_le (L : Layout t r collapse p) (hsize : p.size ≤ UInt32.size)
    {invokers : Array (Invoker σ)} {bound n : Nat} (hpc : s.pc = 0) (hposition : s.position = 0)
    (h : s.stats.inspected ≤ bound)
    (hreach : ∀ e ∈ Run.trace p.operations invokers name n s, ∀ above before edges pos,
      Run.Faces name L above before edges pos e.2 → e.2.position + 1 ≤ bound)
    (hwhole : (∃ e ∈ Run.trace p.operations invokers name n s, ∃ key,
      e.1 = .compareName key ∧ key.utf8ByteSize = name.length) → name.length ≤ bound) :
    (Run.go p.operations invokers name n s).stats.inspected ≤ bound := by
  refine Run.inspected_go_le h ?_ ?_
  · intro e he hload
    obtain ⟨-, hreads⟩ := L.stage_trace hsize hpc hposition he
    rw [hload] at hreads
    cases hreads with
    | load hfaces => exact hreach e he _ _ _ _ hfaces
    | other hlooks => cases hlooks
  · intro e he key hcompares hlength
    obtain ⟨-, hreads⟩ := L.stage_trace hsize hpc hposition he
    rw [hcompares] at hreads
    cases hreads with
    | whole _ heq _ => exact heq ▸ hwhole ⟨e, he, key, hcompares, hlength⟩
    | other hlooks => cases hlooks

end Layout

/-- The cursor of a run, after any number of steps. Where control is at the first operation of a
node, the cursor is on the byte of the node's edge; where a byte is loaded, there is one. The cursor
does not pass the end of the name, and nothing is inspected beyond it. -/
theorem cursor_invariant {t : Trie} {r : Registry} {collapse : Bool} {typeName : String}
    {σ : Type} {d : Dispatcher σ} (ht : t.Reachable)
    (hp : (t.compile r collapse typeName).2.value = .ok d.program)
    (hsize : d.program.size ≤ UInt32.size) (target : σ) (supply : Supply) (name : List UInt8)
    (result : Option Object) (args : Array Object) (steps : Nat) {s : Run σ}
    (hs : s = Run.go d.program.operations d.invokers name steps
      (d.start target supply result args)) :
    (∀ id, s.outcome = none → (t.emit r collapse).items[s.pc]? = some (.entry id) →
      (t.compile r collapse typeName).1.firstOp? id = some (.ofNat s.pc) ∧
        ∃ n, t.node? id = some n ∧ Run.AtNode t name n s) ∧
    (s.outcome = none → d.program.operations[s.pc]? = some .loadByte →
      (∃ id, (t.emit r collapse).items[s.pc]? = some (.entry id)) ∧
        ∃ byte, name[s.position]? = some byte) ∧
    s.position ≤ name.length ∧ s.stats.inspected ≤ name.length := by
  obtain ⟨L, hitems, -⟩ := Trie.exists_marked_layout ht.sound hp
  obtain ⟨-, hmarked, -⟩ := Trie.resolved_of_compile hp
  have hstage : Run.Stage name L s := hs ▸ L.stage_go hsize d.invokers rfl rfl steps
  rw [hitems]
  refine ⟨?_, ?_, hstage.position_le, ?_⟩
  · intro id hopen hentry
    rw [hmarked, hitems]
    refine ⟨Trie.firstOp?_mark (Trie.nodup_nodes ht.sound L.emitted) hentry, ?_⟩
    cases hstage.reads hopen (L.operation_at hentry) with
    | load hfaces =>
      cases Option.some.inj (hfaces.stands_test.1.symm.trans hentry)
      exact hfaces.atNode ht.regular
    | other hlooks => cases hlooks
  · intro hopen hload
    cases hstage.reads hopen hload with
    | load hfaces => exact ⟨⟨_, hfaces.stands_test.1⟩, hfaces.exists_byte⟩
    | other hlooks => cases hlooks
  · rw [hs]
    refine L.inspected_go_le hsize rfl rfl (Nat.zero_le _) ?_ fun _ => Nat.le_refl _
    intro e he above before edges pos hfaces
    exact hfaces.inside_name

/-- After nine steps for the name of the second hook its test is next, behind a hook that the name
goes beyond, where nothing guards it but the branch of that hook. -/
theorem cursor_specimen :
    ∃ p, (Specimen.trie.compile Specimen.registry true "T").2.value = .ok p ∧
      ∃ s : Run Unit, s = Run.go p.operations #[] [97, 98] 9
          (Dispatcher.start ⟨p, #[]⟩ () 0 none #[]) ∧
        s.outcome = none ∧
        ∃ n, Specimen.trie.node? 2 = some n ∧ Run.AtNode Specimen.trie [97, 98] n s := by
  obtain ⟨p, -, hp, -⟩ := Specimen.exists_dispatcher true
  have hsize : p.size ≤ UInt32.size := by
    rw [Trie.size_of_compile hp]
    decide
  have hat : (Specimen.trie.compile Specimen.registry true "T").2.value.toOption.any (fun p =>
      let s : Run Unit := Run.go p.operations #[] [97, 98] 9
        (Dispatcher.start ⟨p, #[]⟩ () 0 none #[])
      s.outcome.isNone &&
        (Specimen.trie.emit Specimen.registry true).items[s.pc]? == some (.entry 2)) = true := by
    decide +kernel
  rw [hp] at hat
  simp only [Except.toOption, Option.any_some, Bool.and_eq_true, Option.isNone_iff_eq_none,
    beq_iff_eq] at hat
  obtain ⟨hopen, hentry⟩ := hat
  obtain ⟨hnode, -⟩ := cursor_invariant (d := ⟨p, #[]⟩)
    (Trie.reachable_ofRegistry Specimen.trie_eq) hp hsize () 0 [97, 98] none #[] 9 rfl
  exact ⟨p, hp, _, rfl, hopen, (hnode 2 hopen hentry).2⟩

end HookDispatch
