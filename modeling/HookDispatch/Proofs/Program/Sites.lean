import HookDispatch.Proofs.Program.Layout
import HookDispatch.Proofs.Trie.Places

/-!
Where the nodes of a trie are tested. The tests of a group stand in one place, those of the later
siblings behind those of an earlier one, and what stands behind the test of a node tells where to
go below it. So one can walk through a program along the edges of its trie and always knows the node
whose test one is at.
-/
namespace HookDispatch

/-- Items stand at a position of a list and after it. -/
def Stands (all : List Item) (pos : Nat) : List Item → Prop
  | [] => True
  | item :: items => all[pos]? = some item ∧ Stands all (pos + 1) items

section Stands
variable {all a b : List Item} {pos : Nat}

theorem stands_append :
    Stands all pos (a ++ b) ↔ Stands all pos a ∧ Stands all (pos + a.length) b := by
  induction a generalizing pos with
  | nil => simp [Stands]
  | cons item a ih =>
    simp only [List.cons_append, Stands, ih, List.length_cons, and_assoc,
      show pos + (a.length + 1) = pos + 1 + a.length by omega]

theorem stands_infix (before items after : List Item) :
    Stands (before ++ items ++ after) before.length items := by
  induction items generalizing before with
  | nil => trivial
  | cons item items ih =>
    have hrest := ih (before ++ [item])
    rw [List.append_assoc before, List.singleton_append, List.length_append,
      List.length_singleton] at hrest
    refine ⟨?_, hrest⟩
    rw [List.append_assoc, List.getElem?_append_right (Nat.le_refl _), Nat.sub_self]
    rfl

end Stands

namespace Layout

variable {t : Trie} {r : Registry} {collapse : Bool} {p : Program} {L : Layout t r collapse p}
  {above n : Node} {before : List Node} {edges : Edges} {pos : Nat}

theorem laid_of_stands (L : Layout t r collapse p) {items : List Item}
    (h : Stands (t.methodItems L.group) pos items) : Laid p.operations L.place pos items := by
  induction items generalizing pos with
  | nil => trivial
  | cons item items ih =>
    refine ⟨⟨L.operation_at h.1, ?_⟩, ih h.2⟩
    rintro id rfl
    exact L.entries pos id h.1

variable (L) in
/-- The tests of the edges below a node stand at a position, from some edge on; the nodes before
them are the earlier siblings. -/
structure Site (above : Node) (before : List Node) (edges : Edges) (pos : Nat) : Prop where
  above_mem : above ∈ t.places
  heads_eq : above.below.heads above.id above.path = before ++ edges.heads above.id above.path
  code : ∃ items, edges.Emitted r collapse above.path items ∧
    Stands (t.methodItems L.group) pos items

variable (L) in
/-- What stands behind the test of a node: the only key below it is compared, or its hook is called
unless the name goes on, or the name has to go on. -/
inductive Inside (n : Node) (pos : Nat) : Prop
  | whole {leaf : Edges.Leaf} {key : Signature} {m : Method} (hcollapse : collapse = true)
    (hcalls : r.Calls leaf.hook key m)
    (hstands : Stands (t.methodItems L.group) pos
      ([.plain (.compareName (Text.showBytes (n.path ++ leaf.suffix))),
        .jump .different .epilogue] ++ m.callItems leaf.hook))
  | terminal {hook : MethodId} {key : Signature} {m : Method} {next : Nat}
    (hcalls : r.Calls hook key m)
    (hstands : Stands (t.methodItems L.group) pos
      ([.plain .advance, .jump .remaining (.orEpilogue n.below.first?)] ++ m.callItems hook))
    (hbelow : L.Site n [] n.below next)
  | passing (hstands : Stands (t.methodItems L.group) pos
      [.plain .advance, .jump .exhausted .epilogue])
    (hbelow : L.Site n [] n.below (pos + 2)) (hsome : n.below ≠ .nil)

/-- The tests of the edges below the root stand behind the opening. -/
theorem site_root (L : Layout t r collapse p) : L.Site t.rootNode [] t.edges t.opening.length where
  above_mem := List.mem_cons_self
  heads_eq := rfl
  code := ⟨L.group, L.emitted, stands_infix t.opening L.group (rejection.map .plain)⟩

section Cons
variable {id : NodeId} {byte : UInt8} {terminal : Option MethodId} {below rest : Edges}

theorem Site.mem_places (h : L.Site above before edges pos)
    (hn : n ∈ edges.heads above.id above.path) : n ∈ t.places := by
  refine Trie.mem_places_iff.mpr (Or.inr ⟨above, h.above_mem, ?_⟩)
  rw [h.heads_eq]
  exact List.mem_append_right before hn

/-- The first node of the edges has its test at the position. -/
theorem Site.stands_test (h : L.Site above before (.cons id byte terminal below rest) pos) :
    Stands (t.methodItems L.group) pos (Edges.testItems id byte rest) := by
  obtain ⟨items, hemitted, hstands⟩ := h.code
  cases hemitted <;>
  · rw [stands_append, stands_append] at hstands
    exact hstands.1.1

theorem Site.place_first (h : L.Site above before edges pos) {first : NodeId}
    (hfirst : edges.first? = some first) : (L.place (.node first)).toNat = pos := by
  cases edges with
  | nil => cases hfirst
  | cons id byte terminal below rest =>
    cases hfirst
    exact L.entries pos _ h.stands_test.1

/-- The later siblings are tested further on. -/
theorem Site.later (h : L.Site above before (.cons id byte terminal below rest) pos) :
    ∃ next, L.Site above
      (before ++ [⟨id, some above.id, above.path ++ [byte], terminal, below, rest⟩]) rest next := by
  have hheads : above.below.heads above.id above.path =
      before ++ [⟨id, some above.id, above.path ++ [byte], terminal, below, rest⟩] ++
        rest.heads above.id above.path := by
    rw [h.heads_eq, Edges.heads, List.append_assoc, List.singleton_append]
  obtain ⟨items, hemitted, hstands⟩ := h.code
  cases hemitted <;>
  · rename_i hrest
    rw [stands_append] at hstands
    exact ⟨_, h.above_mem, hheads, _, hrest, hstands.2⟩

/-- Behind its test stands what is to be done at a node. -/
theorem Site.inside (h : L.Site above before (.cons id byte terminal below rest) pos) :
    L.Inside ⟨id, some above.id, above.path ++ [byte], terminal, below, rest⟩ (pos + 3) := by
  obtain ⟨items, hemitted, hstands⟩ := h.code
  have hplace : ⟨id, some above.id, above.path ++ [byte], terminal, below, rest⟩ ∈ t.places :=
    h.mem_places List.mem_cons_self
  cases hemitted with
  | collapsed hcollapse hleaf hcalls hrest =>
    rw [stands_append, stands_append] at hstands
    exact .whole hcollapse hcalls hstands.1.2
  | leaf hcalls hrest =>
    rw [stands_append, stands_append] at hstands
    have hbelow : L.Site _ [] .nil 0 := ⟨hplace, rfl, [], .nil _, trivial⟩
    exact .terminal hcalls hstands.1.2 hbelow
  | inner hfirst hcalls hbelow hrest =>
    rw [stands_append, stands_append, stands_append] at hstands
    refine .terminal hcalls (hfirst ▸ hstands.1.2.1) ⟨hplace, rfl, _, hbelow, hstands.1.2.2⟩
  | passing hopen hfirst hbelow hrest =>
    rw [stands_append, stands_append, stands_append] at hstands
    refine .passing hstands.1.2.1 ⟨hplace, rfl, _, hbelow, hstands.1.2.2⟩ ?_
    rintro rfl
    cases hfirst

end Cons

end Layout

end HookDispatch
