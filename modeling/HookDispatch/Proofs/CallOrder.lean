import HookDispatch.Proofs.Machine.Effects
import HookDispatch.Proofs.NodeArena
import HookDispatch.Proofs.Program.WholeCall
import HookDispatch.Proofs.Specimen

/-!
The calls of a compiled program. Its code is that of the hooks in the order of their nodes: each has
one whole call, and before, between and after the calls the program only searches. The shortcut
leaves nodes out that have no hook, so it changes nothing in this. Names are rejected at one place,
and as many branches are reported as patched as the program has.
-/
namespace HookDispatch

def Operation.callee? : Operation → Option MethodId
  | call hook => some hook
  | _ => none

theorem Operation.callee?_eq_some {op : Operation} {hook : MethodId} :
    op.callee? = some hook ↔ op = .call hook := by
  cases op <;> simp [callee?]

/-- Operations that look for a hook and do nothing with it. -/
def Searching (seg : List Operation) : Prop :=
  ∀ op ∈ seg, op.scans = true ∨ op = .clearResult

namespace Searching

variable {seg seg' : List Operation}

theorem nil : Searching [] := fun _ h => absurd h List.not_mem_nil

theorem cons {op : Operation} (hop : op.scans = true ∨ op = .clearResult) (h : Searching seg) :
    Searching (op :: seg) :=
  List.forall_mem_cons.mpr ⟨hop, h⟩

theorem append (h : Searching seg) (h' : Searching seg') : Searching (seg ++ seg') := by
  intro op hop
  rcases List.mem_append.mp hop with hop | hop
  · exact h op hop
  · exact h' op hop

theorem setHandled_not_mem (h : Searching seg) (value : Bool) : .setHandled value ∉ seg := by
  intro hop
  rcases h _ hop with hscans | heq
  · cases hscans
  · cases heq

theorem not_mem_of_marshals (h : Searching seg) {op : Operation} (hop : op.marshals = true) :
    op ∉ seg := by
  intro hmem
  rcases h op hmem with hscans | rfl
  · rw [Operation.marshals_of_scans hscans] at hop
    cases hop
  · cases hop

end Searching

theorem filterMap_callee?_eq_nil {seg : List Operation} (h : ∀ hook, .call hook ∉ seg) :
    seg.filterMap Operation.callee? = [] := by
  rw [List.filterMap_eq_nil_iff]
  intro op hop
  rw [Option.eq_none_iff_forall_ne_some]
  intro hook hcall
  rw [Operation.callee?_eq_some.mp hcall] at hop
  exact h hook hop

theorem Searching.filterMap_callee? {seg : List Operation} (h : Searching seg) :
    seg.filterMap Operation.callee? = [] := by
  apply filterMap_callee?_eq_nil
  intro hook hop
  rcases h _ hop with hscans | heq
  · cases hscans
  · cases heq

theorem Method.filterMap_callee? (m : Method) (hook : MethodId) :
    (m.callSequence hook).filterMap Operation.callee? = [hook] := by
  have hbefore := filterMap_callee?_eq_nil fun _ => call_not_mem_unpackFrom 0 0 m.params
  have hafter := filterMap_callee?_eq_nil m.call_not_mem_afterCall
  rw [callSequence_eq, List.filterMap_append, List.filterMap_cons, hbefore, hafter]
  rfl

theorem Method.setHandled_not_mem (m : Method) (hook : MethodId) :
    .setHandled false ∉ m.callSequence hook := by
  intro hop
  rcases mem_callSequence hop with hmarshals | heq | heq
  · cases hmarshals
  · cases heq
  · cases heq

namespace Registry

variable {r : Registry}

/-- Code that has one whole call for each of the hooks, in order, and only searches elsewhere. -/
inductive Serves (r : Registry) : List MethodId → List Operation → Prop
  | search {seg : List Operation} (hseg : Searching seg) : Serves r [] seg
  | call {hook : MethodId} {key : Signature} {m : Method} {hooks : List MethodId}
      {seg call code : List Operation} (hseg : Searching seg) (hcalls : r.Calls hook key m)
      (hcall : m.WholeCall hook call) (hcode : Serves r hooks code) :
      Serves r (hook :: hooks) (seg ++ call ++ code)

namespace Serves

variable {hooks hooks' : List MethodId} {seg code code' : List Operation}

theorem after_search (hseg : Searching seg) (h : r.Serves hooks code) :
    r.Serves hooks (seg ++ code) := by
  cases h with
  | search hcode => exact .search (hseg.append hcode)
  | call hmore hcalls hcall hcode =>
    rw [← List.append_assoc, ← List.append_assoc]
    exact .call (hseg.append hmore) hcalls hcall hcode

theorem append (h : r.Serves hooks code) (h' : r.Serves hooks' code') :
    r.Serves (hooks ++ hooks') (code ++ code') := by
  induction h with
  | search hseg => exact h'.after_search hseg
  | call hseg hcalls hcall _ ih =>
    rw [List.append_assoc]
    exact .call hseg hcalls hcall ih

theorem single {hook : MethodId} {key : Signature} {m : Method} (hcalls : r.Calls hook key m) :
    r.Serves [hook] (m.callSequence hook) := by
  have hcall : m.WholeCall hook _ := (Method.wholeCall_iff hcalls.resolved).mpr rfl
  have h := Serves.call Searching.nil hcalls hcall (.search Searching.nil)
  rwa [List.append_nil] at h

/-- The calls in the code are those of its hooks. -/
theorem filterMap_callee? (h : r.Serves hooks code) :
    code.filterMap Operation.callee? = hooks := by
  induction h with
  | search hseg => exact hseg.filterMap_callee?
  | call hseg hcalls hcall _ ih =>
    rw [(Method.wholeCall_iff hcalls.resolved).mp hcall, List.filterMap_append,
      List.filterMap_append, hseg.filterMap_callee?, Method.filterMap_callee?, ih]
    rfl

/-- Arguments and results are handled inside of whole calls only. -/
theorem exists_call_at (h : r.Serves hooks code) {pos : Nat} {op : Operation}
    (hop : code[pos]? = some op) (hmarshals : op.marshals = true) :
    ∃ hook key m before after i, r.Calls hook key m ∧
      code = before ++ m.callSequence hook ++ after ∧ pos = before.length + i ∧
      (m.callSequence hook)[i]? = some op := by
  induction h generalizing pos with
  | search hseg => exact absurd (List.mem_of_getElem? hop) (hseg.not_mem_of_marshals hmarshals)
  | @call hook key m hooks seg _ code hseg hcalls hcall hcode ih =>
    obtain rfl := (Method.wholeCall_iff hcalls.resolved).mp hcall
    rw [List.append_assoc] at hop
    rcases Nat.lt_or_ge pos seg.length with hbefore | hreached
    · rw [List.getElem?_append_left hbefore] at hop
      exact absurd (List.mem_of_getElem? hop) (hseg.not_mem_of_marshals hmarshals)
    obtain ⟨i, rfl⟩ := Nat.exists_eq_add_of_le hreached
    rw [List.getElem?_append_right hreached, Nat.add_sub_cancel_left] at hop
    rcases Nat.lt_or_ge i (m.callSequence hook).length with hinside | hpast
    · rw [List.getElem?_append_left hinside] at hop
      exact ⟨hook, key, m, seg, code, i, hcalls, rfl, rfl, hop⟩
    · rw [List.getElem?_append_right hpast] at hop
      obtain ⟨hook', key', m', before, after, j, hcalls', rfl, hj, hop'⟩ := ih hop
      refine ⟨hook', key', m', seg ++ m.callSequence hook ++ before, after, j, hcalls', ?_, ?_,
        hop'⟩
      · simp only [List.append_assoc]
      · rw [List.length_append, List.length_append]
        omega

theorem setHandled_not_mem (h : r.Serves hooks code) : .setHandled false ∉ code := by
  induction h with
  | search hseg => exact hseg.setHandled_not_mem false
  | call hseg hcalls hcall _ ih =>
    rw [(Method.wholeCall_iff hcalls.resolved).mp hcall, List.mem_append, List.mem_append]
    rintro ((hop | hop) | hop)
    · exact hseg.setHandled_not_mem false hop
    · exact Method.setHandled_not_mem _ _ hop
    · exact ih hop

end Serves

end Registry

namespace Edges

variable {r : Registry} {collapse : Bool} {path : List UInt8} {edges : Edges} {items : List Item}

/-- The hooks of the nodes, each node before those below it, are the hooks that paths lead to. -/
theorem filterMap_terminal_places (parent : NodeId) (path : List UInt8) (edges : Edges) :
    (edges.places parent path).filterMap Node.terminal = edges.terminals.map Prod.snd := by
  induction edges generalizing parent path with
  | nil => rfl
  | cons id byte terminal below rest ihBelow ihRest =>
    rw [places, List.filterMap_cons, List.filterMap_append, ihBelow, ihRest, terminals]
    cases terminal <;> simp

theorem searching_test (place : JumpTarget → Label) (id : NodeId) (byte : UInt8) (rest : Edges) :
    Searching ((testItems id byte rest).map (Item.patched place)) :=
  .cons (Or.inl rfl) (.cons (Or.inl rfl) (.cons (Or.inl rfl) .nil))

theorem searching_step (place : JumpTarget → Label) {op : Operation} (hop : op.scans = true)
    (c : Condition) (target : JumpTarget) :
    Searching ([.plain op, .jump c target].map (Item.patched place)) :=
  .cons (Or.inl hop) (.cons (Or.inl rfl) .nil)

/-- An edge serves what comes after its test and one more step of the search. -/
theorem serves_test {place : JumpTarget → Label} (id : NodeId) (byte : UInt8) (rest : Edges)
    {hooks hooks' : List MethodId} {step tail items : List Item}
    (hstep : Searching (step.map (Item.patched place)))
    (htail : r.Serves hooks (tail.map (Item.patched place)))
    (hitems : r.Serves hooks' (items.map (Item.patched place))) :
    r.Serves (hooks ++ hooks')
      ((testItems id byte rest ++ (step ++ tail) ++ items).map (Item.patched place)) := by
  rw [List.map_append, List.map_append, List.map_append]
  exact ((htail.after_search hstep).after_search (searching_test place id byte rest)).append hitems

/-- The code of a group serves the hooks of the group. -/
theorem Emitted.serves (h : Emitted r collapse path edges items) (place : JumpTarget → Label) :
    r.Serves (edges.terminals.map Prod.snd) (items.map (Item.patched place)) := by
  have hcall : ∀ {hook key m}, r.Calls hook key m →
      r.Serves [hook] ((m.callItems hook).map (Item.patched place)) := by
    intro hook key m hcalls
    rw [map_callItems fun _ => rfl]
    exact .single hcalls
  induction h with
  | nil => exact .search Searching.nil
  | collapsed _ hleaf hcalls _ ih =>
    -- A single path has one hook, so none is left out.
    rw [terminals, terminals_of_soleLeaf hleaf]
    refine serves_test _ _ _ ?_ (hcall hcalls) ih
    exact searching_step place rfl _ _
  | leaf hcalls _ ih =>
    refine serves_test _ _ _ ?_ (hcall hcalls) ih
    exact searching_step place rfl _ _
  | @inner path id first byte hook below rest key m inside items _ hcalls _ _ ihBelow ihRest =>
    -- The hook of the node comes before those below it.
    have hboth : r.Serves (hook :: below.terminals.map Prod.snd)
        ((m.callItems hook ++ inside).map (Item.patched place)) := by
      rw [List.map_append]
      exact (hcall hcalls).append ihBelow
    have hstep : Searching
        ([Item.plain .advance, .jump .remaining (.node first)].map (Item.patched place)) :=
      searching_step place rfl _ _
    have hall := serves_test id byte rest hstep hboth ihRest
    simpa [terminals, Function.comp_def] using hall
  | @passing path id first byte below rest inside items _ _ _ _ ihBelow ihRest =>
    have hstep : Searching
        ([Item.plain .advance, .jump .exhausted .epilogue].map (Item.patched place)) :=
      searching_step place rfl _ _
    have hall := serves_test id byte rest hstep ihBelow ihRest
    simpa [terminals, Function.comp_def] using hall

end Edges

/-- Behind code that never rejects, the rejection is the only place that does. -/
theorem rejects_at_iff {body : List Operation} (h : .setHandled false ∉ body) {j : Nat} :
    (body ++ rejection)[j]? = some (.setHandled false) ↔ j = body.length := by
  constructor
  · intro hj
    by_contra hne
    rcases Nat.lt_or_gt_of_ne hne with hlt | hgt
    · rw [List.getElem?_append_left hlt] at hj
      exact h (List.mem_of_getElem? hj)
    · obtain ⟨k, rfl⟩ := Nat.exists_eq_add_of_lt hgt
      rw [Nat.add_assoc, List.getElem?_append_right (Nat.le_add_right _ _),
        Nat.add_sub_cancel_left] at hj
      cases k <;> cases hj
  · rintro rfl
    rw [List.getElem?_append_right (Nat.le_refl _), Nat.sub_self]
    rfl

/-- The queued branches are the items that wait for a target. -/
theorem length_pendingJumps (items : List Item) :
    (pendingJumps items).length = items.countP (·.target?.isSome) := by
  rw [pendingJumps, List.length_filterMap_eq_countP]
  conv_rhs => rw [← List.zipIdx_map_fst 0 items, List.countP_map]
  congr 1
  funext ⟨item, i⟩
  cases item <;> rfl

namespace Trie

theorem filterMap_terminal_places (t : Trie) :
    t.places.filterMap Node.terminal = t.edges.terminals.map Prod.snd := by
  rw [places, List.filterMap_cons, Edges.filterMap_terminal_places]
  rfl

end Trie

namespace Layout

variable {t : Trie} {r : Registry} {collapse : Bool} {p : Program}

/-- The code before the rejection serves the hooks of the trie. -/
theorem exists_serves (L : Layout t r collapse p) :
    ∃ body, p.operations.toList = body ++ rejection ∧
      r.Serves (t.places.filterMap Node.terminal) body := by
  refine ⟨(t.opening ++ L.group).map (Item.patched L.place), ?_, ?_⟩
  · rw [L.operations, Trie.methodItems, List.map_append]
    rfl
  · have hopening : Searching (t.opening.map (Item.patched L.place)) := by
      rw [Trie.opening, List.map_append]
      refine .append (.cons (Or.inr rfl) (.cons (Or.inl rfl) (.cons (Or.inl rfl) .nil))) ?_
      split
      · exact .nil
      · exact .cons (Or.inl rfl) .nil
    rw [List.map_append, t.filterMap_terminal_places]
    exact (L.emitted.serves L.place).after_search hopening

/-- The rejection handles no arguments, so a program does so inside of whole calls only. -/
theorem exists_call_at (L : Layout t r collapse p) {pos : Nat} {op : Operation}
    (hop : p.operations[pos]? = some op) (hmarshals : op.marshals = true) :
    ∃ hook key m before after i, r.Calls hook key m ∧
      p.operations.toList = before ++ m.callSequence hook ++ after ∧ pos = before.length + i ∧
      (m.callSequence hook)[i]? = some op := by
  obtain ⟨body, hbody, hserves⟩ := L.exists_serves
  rw [← Array.getElem?_toList, hbody] at hop
  have hinside : pos < body.length := by
    by_contra hpast
    rw [List.getElem?_append_right (by omega)] at hop
    have hmem := List.mem_of_getElem? hop
    simp only [rejection, List.mem_cons, List.not_mem_nil, or_false] at hmem
    rcases hmem with rfl | rfl <;> cases hmarshals
  rw [List.getElem?_append_left hinside] at hop
  obtain ⟨hook, key, m, before, after, i, hcalls, rfl, hpos, hop'⟩ :=
    hserves.exists_call_at hop hmarshals
  refine ⟨hook, key, m, before, after ++ rejection, i, hcalls, ?_, hpos, hop'⟩
  rw [hbody, List.append_assoc]

/-- The queued branches are the branches of the program. -/
theorem countP_target (L : Layout t r collapse p) :
    p.operations.toList.countP (·.target.isSome) =
      (pendingJumps (t.methodItems L.group)).length := by
  rw [L.operations, length_pendingJumps, List.countP_map]
  apply List.countP_congr
  intro item hitem
  cases item with
  | entry id => simp [Item.patched, Item.target?, Operation.target]
  | jump c target => simp [Item.patched, Item.target?, Operation.target]
  | plain op =>
    have htarget := Trie.target_plain_methodItems L.emitted hitem
    simp [Item.patched, Item.target?, htarget]

end Layout

/-- A compiled program calls the hooks of its trie in the order of their nodes. Each has one whole
call: its arguments, the call, the result, what is put back, and the answer. Elsewhere the program
only searches. It rejects at one place, which the epilogue is the label of, and all its branches are
reported as patched. -/
theorem calls_in_node_order {t : Trie} {r : Registry} {collapse : Bool} {typeName : String}
    {p : Program} (ht : t.Reachable) (hp : (t.compile r collapse typeName).2.value = .ok p) :
    (∃ body, p.operations.toList = body ++ rejection ∧
      r.Serves (t.places.filterMap Node.terminal) body) ∧
    p.operations.toList.filterMap Operation.callee? = t.places.filterMap Node.terminal ∧
    (∃ i, p.epilogue = .ofNat i ∧ ∀ j, p.operations[j]? = some (.setHandled false) ↔ j = i) ∧
    (t.compile r collapse typeName).2.events =
      [.resolved (p.operations.toList.countP (·.target.isSome)) p.epilogue] := by
  obtain ⟨L, hitems, -⟩ := Trie.exists_marked_layout ht.sound hp
  obtain ⟨body, hbody, hserves⟩ := L.exists_serves
  have hlength : p.size - 2 = body.length := by
    rw [Program.size, ← Array.length_toList, hbody, List.length_append]
    exact Nat.add_sub_cancel _ 2
  refine ⟨⟨body, hbody, hserves⟩, ?_, ⟨body.length, ?_, ?_⟩, ?_⟩
  · rw [hbody, List.filterMap_append, hserves.filterMap_callee?]
    exact List.append_nil _
  · rw [(Trie.linked_of_compile hp).2.2, hlength]
  · intro j
    rw [← Array.getElem?_toList, hbody]
    exact rejects_at_iff hserves.setHandled_not_mem
  · rw [Trie.events_of_compile hp, L.countP_target, hitems]

/-- The second hook is called at two places, for its key and for its alias. -/
theorem calls_in_node_order_specimen :
    Specimen.trie.Reachable ∧
      ∃ p, (Specimen.trie.compile Specimen.registry true "T").2.value = .ok p ∧
        p.operations.toList.filterMap Operation.callee? = [⟨0⟩, ⟨1⟩, ⟨1⟩] := by
  have ht := Trie.reachable_ofRegistry Specimen.trie_eq
  obtain ⟨p, -, hp, -⟩ := Specimen.exists_dispatcher true
  obtain ⟨-, hcalls, -⟩ := calls_in_node_order ht hp
  exact ⟨ht, p, hp, hcalls⟩

end HookDispatch
