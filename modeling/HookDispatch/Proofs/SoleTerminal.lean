import HookDispatch.Proofs.Navigation
import HookDispatch.Proofs.Specimen

/-!
When the search below a node can stop at a single comparison. The search for the only hook below a
node looks at one chain of nodes and gives up where the chain branches or has a hook early. Since
every branch leads to a hook, it finds a node exactly if that is the only one with a hook in the
whole subtree and lies below the node that the search starts from.
-/
namespace HookDispatch

namespace Edges

def hooked : Edges → List NodeId
  | nil => []
  | cons id _ terminal below rest =>
    (if terminal.isSome then [id] else []) ++ (below.hooked ++ rest.hooked)

variable {edges : Edges} {parent id : NodeId} {path : List UInt8} {n : Node}

theorem mem_hooked (parent : NodeId) (path : List UInt8) :
    id ∈ edges.hooked ↔ ∃ n ∈ edges.places parent path, n.id = id ∧ n.terminal.isSome := by
  induction edges generalizing parent path with
  | nil => simp [hooked, places]
  | cons here byte terminal below rest ihBelow ihRest =>
    rw [hooked, places, List.mem_append, List.mem_append, ihBelow here (path ++ [byte]),
      ihRest parent path]
    simp only [List.mem_cons, List.mem_append, or_and_right, exists_or, exists_eq_left]
    refine or_congr ?_ Iff.rfl
    cases terminal <;> simp [eq_comm]

theorem hooked_sublist_numbers (edges : Edges) : edges.hooked.Sublist edges.numbers := by
  induction edges with
  | nil => exact List.Sublist.refl []
  | cons id byte terminal below rest ihBelow ihRest =>
    have hinner := ihBelow.append ihRest
    cases terminal with
    | none => exact hinner.cons id
    | some hook => exact hinner.cons_cons id

/-- Edges in a productive group lead to hooks. -/
theorem Productive.hooked_ne_nil (h : edges.Productive) (hne : edges ≠ nil) :
    edges.hooked ≠ [] := by
  induction edges with
  | nil => exact absurd rfl hne
  | cons id byte terminal below rest ihBelow ihRest =>
    obtain ⟨hhook | hedges, hbelow, -⟩ := h
    · simp [hooked, hhook]
    · simp [hooked, ihBelow hbelow hedges]

theorem Productive.hooked_eq_nil (h : edges.Productive) : edges.hooked = [] ↔ edges = nil := by
  constructor
  · intro hnone
    by_contra hne
    exact h.hooked_ne_nil hne hnone
  · rintro rfl
    rfl

theorem Productive.below (h : edges.Productive) (hn : n ∈ edges.places parent path) :
    n.below.Productive := by
  induction edges generalizing parent path with
  | nil => cases hn
  | cons id byte terminal below rest ihBelow ihRest =>
    obtain ⟨-, hbelow, hrest⟩ := h
    rw [places, List.mem_cons, List.mem_append] at hn
    rcases hn with rfl | hn | hn
    · exact hbelow
    · exact ihBelow hbelow hn
    · exact ihRest hrest hn

theorem hooked_of_soleLeaf {leaf : Leaf} (h : edges.soleLeaf = some leaf) :
    edges.hooked = [leaf.id] := by
  induction edges generalizing leaf with
  | nil => cases h
  | cons id byte terminal below rest ihBelow ihRest =>
    obtain ⟨rfl, ⟨hook, rfl, rfl, rfl⟩ | ⟨rfl, inner, hinner, rfl⟩⟩ := soleLeaf_cons h
    · rfl
    · simpa [hooked] using ihBelow hinner

/-- A productive group with one hook is a single path, since a branch would lead to another. -/
theorem Productive.exists_soleLeaf (h : edges.Productive) (hone : edges.hooked = [id]) :
    ∃ leaf, edges.soleLeaf = some leaf ∧ leaf.id = id := by
  induction edges with
  | nil => cases hone
  | cons here byte terminal below rest ihBelow ihRest =>
    have hfirst : (cons here byte terminal below nil).hooked ≠ [] :=
      Productive.hooked_ne_nil ⟨h.1, h.2.1, trivial⟩ (by simp)
    have hsplit : (cons here byte terminal below rest).hooked =
        (cons here byte terminal below nil).hooked ++ rest.hooked := by
      simp [hooked]
    obtain ⟨hnode, hbelow, hrest⟩ := h
    rw [hsplit, List.append_eq_singleton_iff] at hone
    obtain ⟨hnone, -⟩ | ⟨hone, hnone⟩ := hone
    · exact absurd hnone hfirst
    · obtain rfl := hrest.hooked_eq_nil.mp hnone
      cases terminal with
      | none =>
        obtain ⟨leaf, hleaf, hid⟩ := ihBelow hbelow (by simpa [hooked] using hone)
        refine ⟨{ leaf with suffix := byte :: leaf.suffix }, ?_, hid⟩
        rw [soleLeaf, hleaf, Option.map_some]
      | some hook =>
        simp only [hooked, Option.isSome_some, if_true, List.append_nil, List.singleton_append,
          List.cons.injEq] at hone
        obtain ⟨rfl, hnone⟩ := hone
        obtain rfl := hbelow.hooked_eq_nil.mp hnone
        exact ⟨_, rfl, rfl⟩

theorem Productive.soleLeaf_eq_some (h : edges.Productive) :
    edges.soleLeaf.map Leaf.id = some id ↔ edges.hooked = [id] := by
  rw [Option.map_eq_some_iff]
  constructor
  · rintro ⟨leaf, hleaf, rfl⟩
    exact hooked_of_soleLeaf hleaf
  · exact h.exists_soleLeaf

end Edges

namespace Node

variable {n : Node} {steps : Nat}

/-- The answer of the search for the only hook when it comes to a node after some steps. -/
def searched (n : Node) (steps : Nat) : Option NodeId :=
  if n.terminal.isSome then if n.children = [] ∧ 0 < steps then some n.id else none
  else n.below.soleLeaf.map Edges.Leaf.id

theorem searched_zero (n : Node) : n.searched 0 = n.collapseTarget := by
  simp [searched, collapseTarget]

/-- Where the chain branches or ends without a hook, nothing is found. -/
theorem searched_of_fork (hbare : n.terminal = none) (hchildren : n.children.length ≠ 1) :
    n.searched steps = none := by
  rw [searched, hbare, if_neg (by simp), Option.map_eq_none_iff]
  rw [children] at hchildren
  cases hbelow : n.below with
  | nil => rfl
  | cons id byte terminal below rest =>
    rw [hbelow] at hchildren
    cases rest with
    | nil => exact absurd rfl hchildren
    | cons => cases terminal <;> cases below <;> rfl

/-- On a chain the answer is that of the next node. -/
theorem searched_of_only {only : NodeId} {byte : UInt8} {terminal : Option MethodId} {below : Edges}
    (hbare : n.terminal = none) (hbelow : n.below = .cons only byte terminal below .nil) :
    n.searched steps =
      searched ⟨only, some n.id, n.path ++ [byte], terminal, below, .nil⟩ (steps + 1) := by
  rw [searched, searched, hbare, if_neg (by simp), hbelow]
  cases terminal with
  | none =>
    rw [Edges.soleLeaf, Option.map_map, if_neg (by simp)]
    rfl
  | some hook =>
    cases below with
    | nil => simp [Edges.soleLeaf, children, Edges.ids]
    | cons => simp [Edges.soleLeaf, children, Edges.ids]

end Node

namespace Trie

inductive Below (t : Trie) (top : NodeId) : NodeId → Prop
  | top : Below t top top
  | child {id child : NodeId} {n : Node} (h : Below t top id) (hn : t.node? id = some n)
      (hchild : child ∈ n.children) : Below t top child

def Hooked (t : Trie) (id : NodeId) : Prop := ∃ n, t.node? id = some n ∧ n.terminal.isSome

/-- The search for the only hook below a node: after some steps down it is at a node, and in the end
it has an answer. -/
inductive Descends (t : Trie) : NodeId → Nat → Option NodeId → Prop
  | hooked {id : NodeId} {steps : Nat} {n : Node} (hn : t.node? id = some n)
      (hhook : n.terminal.isSome) :
      Descends t id steps (if n.children = [] ∧ 0 < steps then some id else none)
  | down {id only : NodeId} {steps : Nat} {n : Node} {answer : Option NodeId}
      (hn : t.node? id = some n) (hbare : n.terminal = none) (honly : n.children = [only])
      (h : Descends t only (steps + 1) answer) : Descends t id steps answer
  | stuck {id : NodeId} {steps : Nat} {n : Node} (hn : t.node? id = some n)
      (hbare : n.terminal = none) (hchildren : n.children.length ≠ 1) : Descends t id steps none

variable {t : Trie} {n m : Node} {id target : NodeId} {steps : Nat} {answer : Option NodeId}

theorem descends_iff (hn : t.node? id = some n) : t.Descends id steps answer ↔
    (n.terminal.isSome ∧ answer = if n.children = [] ∧ 0 < steps then some id else none) ∨
    n.terminal = none ∧ ((∃ only, n.children = [only] ∧ t.Descends only (steps + 1) answer) ∨
      n.children.length ≠ 1 ∧ answer = none) := by
  constructor
  · intro h
    cases h with
    | hooked hn' hhook =>
      obtain rfl := Option.some.inj (hn.symm.trans hn')
      exact Or.inl ⟨hhook, rfl⟩
    | down hn' hbare honly hrest =>
      obtain rfl := Option.some.inj (hn.symm.trans hn')
      exact Or.inr ⟨hbare, Or.inl ⟨_, honly, hrest⟩⟩
    | stuck hn' hbare hchildren =>
      obtain rfl := Option.some.inj (hn.symm.trans hn')
      exact Or.inr ⟨hbare, Or.inr ⟨hchildren, rfl⟩⟩
  · rintro (⟨hhook, rfl⟩ | ⟨hbare, ⟨only, honly, hrest⟩ | ⟨hchildren, rfl⟩⟩)
    · exact .hooked hn hhook
    · exact .down hn hbare honly hrest
    · exact .stuck hn hbare hchildren

/-- Whatever node the search is at, its answer there is the only one. The induction is on what is
below the node, since every step goes down. -/
theorem Regular.descends_iff_eq (ht : t.Regular) (hn : n ∈ t.places) :
    t.Descends n.id steps answer ↔ answer = n.searched steps := by
  induction hbelow : n.below generalizing n steps with
  | nil =>
    have hchildren : n.children = [] := by
      rw [Node.children, hbelow]
      rfl
    rw [descends_iff (ht.node?_eq_some.mpr ⟨hn, rfl⟩)]
    cases hterminal : n.terminal with
    | none => simp [hchildren, Node.searched_of_fork hterminal]
    | some hook => simp [hchildren, hterminal, Node.searched]
  | cons only byte terminal below rest ihBelow ihRest =>
    rw [descends_iff (ht.node?_eq_some.mpr ⟨hn, rfl⟩)]
    cases hterminal : n.terminal with
    | some hook => simp [hterminal, Node.searched]
    | none =>
      cases rest with
      | nil =>
        have hchildren : n.children = [only] := by
          rw [Node.children, hbelow]
          rfl
        have hplace : ⟨only, some n.id, n.path ++ [byte], terminal, below, .nil⟩ ∈ t.places := by
          refine mem_places_iff.mpr (Or.inr ⟨n, hn, ?_⟩)
          rw [hbelow]
          exact List.mem_cons_self
        have hstep : t.Descends only (steps + 1) answer ↔ answer = Node.searched _ (steps + 1) :=
          ihBelow hplace rfl
        rw [Node.searched_of_only hterminal hbelow, ← hstep]
        simp [hchildren]
      | cons id' byte' terminal' below' rest' =>
        have hchildren : n.children.length ≠ 1 := by
          rw [Node.children, hbelow]
          simp [Edges.ids]
        rw [Node.searched_of_fork hterminal hchildren]
        have hmany : ∀ only, n.children ≠ [only] := by
          rintro only hone
          simp [hone] at hchildren
        simp [hchildren, hmany]

/-- What is in the group below a node of a subtree is in the subtree. -/
theorem below_of_mem_places (ht : t.Regular) {top parent : NodeId} {path : List UInt8}
    {edges : Edges} (hplaces : ∀ m ∈ edges.places parent path, m ∈ t.places)
    (hheads : ∀ m ∈ edges.heads parent path, t.Below top m.id)
    (hm : m ∈ edges.places parent path) : t.Below top m.id := by
  induction edges generalizing parent path with
  | nil => cases hm
  | cons id byte terminal below rest ihBelow ihRest =>
    have hfirst := hheads _ List.mem_cons_self
    have hnode : t.node? id = some ⟨id, some parent, path ++ [byte], terminal, below, rest⟩ :=
      ht.node?_eq_some.mpr ⟨hplaces _ List.mem_cons_self, rfl⟩
    simp only [Edges.places, List.mem_cons, List.mem_append] at hm hplaces
    rcases hm with rfl | hm | hm
    · exact hfirst
    · refine ihBelow (fun m hm => hplaces m (Or.inr (Or.inl hm))) (fun m hm => ?_) hm
      exact .child hfirst hnode (mem_children_of_mem_heads hm)
    · exact ihRest (fun m hm => hplaces m (Or.inr (Or.inr hm)))
        (fun m hm => hheads m (List.mem_cons_of_mem _ hm)) hm

/-- The subtree of a node is the node and what is below it. -/
theorem Regular.below_iff (ht : t.Regular) (hn : n ∈ t.places) :
    t.Below n.id id ↔ id = n.id ∨ ∃ m ∈ n.below.places n.id n.path, m.id = id := by
  constructor
  · intro h
    induction h with
    | top => exact Or.inl rfl
    | child _ hp hchild ih =>
      obtain ⟨hplace, rfl⟩ := ht.node?_eq_some.mp hp
      obtain ⟨m, hm, -, rfl⟩ := exists_of_mem_children hplace hchild
      refine Or.inr ⟨m, ?_, rfl⟩
      rcases ih with heq | ⟨q, hq, heq⟩
      · have hsame := List.inj_on_of_nodup_map ht.nodup_ids hplace hn heq
        subst hsame
        exact Edges.mem_places_of_mem_heads hm
      · have hsame := List.inj_on_of_nodup_map ht.nodup_ids (mem_places_below hn hq) hplace heq
        subst hsame
        exact Edges.mem_places_below hq (Edges.mem_places_of_mem_heads hm)
  · rintro (rfl | ⟨m, hm, rfl⟩)
    · exact .top
    · refine below_of_mem_places ht (fun q hq => mem_places_below hn hq) (fun q hq => ?_) hm
      exact .child .top (ht.node?_eq_some.mpr ⟨hn, rfl⟩) (mem_children_of_mem_heads hq)

theorem Regular.hooked_iff (ht : t.Regular) (hn : n ∈ t.places) :
    t.Hooked n.id ↔ n.terminal.isSome := by
  constructor
  · rintro ⟨m, hm, hhook⟩
    obtain rfl := Option.some.inj (hm.symm.trans (ht.node?_eq_some.mpr ⟨hn, rfl⟩))
    exact hhook
  · intro hhook
    exact ⟨n, ht.node?_eq_some.mpr ⟨hn, rfl⟩, hhook⟩

/-- In a subtree, the node on top may have a hook, and those below it. -/
theorem Regular.below_hooked_iff (ht : t.Regular) (hn : n ∈ t.places) :
    t.Below n.id id ∧ t.Hooked id ↔ (id = n.id ∧ n.terminal.isSome) ∨ id ∈ n.below.hooked := by
  rw [ht.below_iff hn, Edges.mem_hooked n.id n.path]
  constructor
  · rintro ⟨rfl | ⟨m, hm, rfl⟩, hhooked⟩
    · exact Or.inl ⟨rfl, (ht.hooked_iff hn).mp hhooked⟩
    · exact Or.inr ⟨m, hm, rfl, (ht.hooked_iff (mem_places_below hn hm)).mp hhooked⟩
  · rintro (⟨rfl, hhook⟩ | ⟨m, hm, rfl, hhook⟩)
    · exact ⟨Or.inl rfl, (ht.hooked_iff hn).mpr hhook⟩
    · exact ⟨Or.inr ⟨m, hm, rfl⟩, (ht.hooked_iff (mem_places_below hn hm)).mpr hhook⟩

theorem Regular.nodup_hooked (ht : t.Regular) (hn : n ∈ t.places) : n.below.hooked.Nodup := by
  apply n.below.hooked_sublist_numbers.nodup
  rcases List.mem_cons.mp hn with rfl | hn
  · exact ht.numbers_nodup
  · exact (Edges.numbers_sublist_of_mem_places hn).nodup ht.numbers_nodup

/-- A node is not below itself. -/
theorem Regular.not_mem_hooked (ht : t.Regular) (hn : n ∈ t.places) : n.id ∉ n.below.hooked := by
  intro hmem
  obtain ⟨m, hm, hid, -⟩ := (Edges.mem_hooked n.id n.path).mp hmem
  have hsame := List.inj_on_of_nodup_map ht.nodup_ids (mem_places_below hn hm) hn hid
  subst hsame
  obtain ⟨b, q, hpath, -⟩ := (ht.below hn).find?_of_mem_places hm
  have hlength := congrArg List.length hpath
  rw [List.length_append, List.length_cons] at hlength
  omega

theorem Sound.productive_below (ht : t.Sound) (hn : n ∈ t.places) : n.below.Productive := by
  rcases List.mem_cons.mp hn with rfl | hn
  · exact ht.productive
  · exact ht.productive.below hn

/-- The single path below a node leads to the only node of its subtree with a hook. -/
theorem Regular.collapseTarget_eq_some (ht : t.Regular) (hn : n ∈ t.places) :
    n.collapseTarget = some target ↔
      target ≠ n.id ∧ ∀ id, t.Below n.id id ∧ t.Hooked id ↔ id = target := by
  have hinner := ht.not_mem_hooked hn
  have hsole : n.below.soleLeaf.map Edges.Leaf.id = some target ↔ n.below.hooked = [target] :=
    (ht.toSound.productive_below hn).soleLeaf_eq_some
  simp only [ht.below_hooked_iff hn]
  rw [Node.collapseTarget]
  cases hterminal : n.terminal with
  | some hook =>
    simp only [Option.isSome_some, if_true, and_true, reduceCtorEq, false_iff, not_and]
    intro hne honly
    exact hne ((honly n.id).mp (Or.inl rfl)).symm
  | none =>
    simp only [Option.isSome_none, Bool.false_eq_true, if_false, and_false, false_or]
    rw [hsole]
    constructor
    · intro hone
      rw [hone] at hinner ⊢
      simpa [eq_comm] using hinner
    · rintro ⟨-, honly⟩
      have hperm : n.below.hooked.Perm [target] :=
        (List.perm_ext_iff_of_nodup (ht.nodup_hooked hn) (List.nodup_singleton target)).mpr
          (by simpa using honly)
      exact List.perm_singleton.mp hperm

/-- The bytes on the way to a node lead to its hook, and longer ones to the hooks below it. -/
theorem Regular.get?_path (ht : t.Regular) (hn : n ∈ t.places) :
    t.edges.get? n.path = n.terminal ∧
      ∀ more, more ≠ [] → t.edges.get? (n.path ++ more) = n.below.get? more := by
  rcases List.mem_cons.mp hn with rfl | hinner
  · exact ⟨Edges.get?_nil_path t.edges, fun more _ => rfl⟩
  · obtain ⟨b, q, hpath, -, hend, hbeyond⟩ := ht.edges_regular.seek_of_mem_places hinner
    rw [List.nil_append] at hpath
    rw [hpath, Edges.get?, hend, Option.bind_some]
    refine ⟨rfl, fun more hmore => ?_⟩
    rw [Edges.get?, hbeyond more hmore, Edges.get?]

/-- The keys that begin with the bytes of a node with a single path below it are the one of the
end of the path. -/
theorem Regular.key_of_collapseTarget (ht : t.Regular) (hn : n ∈ t.places)
    (h : n.collapseTarget = some target) :
    ∃ l, t.node? target = some l ∧ l.terminal.isSome ∧ l.children = [] ∧
      ∀ key, (t.get? key).isSome ∧ n.path <+: Text.bytes key ↔ key = l.key := by
  rw [Node.collapseTarget] at h
  split at h
  · cases h
  · rename_i hbare
    obtain ⟨leaf, hleaf, rfl⟩ := Option.map_eq_some_iff.mp h
    obtain ⟨l, hl, hid, hterminal, hpath, hend⟩ :=
      Edges.exists_place_of_soleLeaf n.id n.path hleaf
    have hplace : l ∈ t.places := mem_places_below hn hl
    have hhook : l.terminal.isSome := Option.isSome_of_eq_some hterminal
    have hbytes : Text.bytes l.key = n.path ++ leaf.suffix := by
      rw [← hpath]
      exact Text.bytes_showBytes (ht.isUtf8_path hplace hhook)
    obtain ⟨hhere, hmore⟩ := ht.get?_path hn
    refine ⟨l, ht.node?_eq_some.mpr ⟨hplace, hid⟩, hhook, ?_, fun key => ⟨?_, ?_⟩⟩
    · rw [Node.children, hend]
      rfl
    · rintro ⟨hkey, more, hsplit⟩
      rw [get?_eq, ← hsplit] at hkey
      have hne : more ≠ [] := by
        rintro rfl
        rw [List.append_nil, hhere] at hkey
        exact hbare hkey
      rw [hmore more hne, Edges.get?_of_soleLeaf hleaf] at hkey
      have hsuffix : more = leaf.suffix := by
        by_contra hother
        simp [hother] at hkey
      apply Text.bytes_injective
      rw [← hsplit, hsuffix, hbytes]
    · rintro rfl
      rw [get?_eq, hbytes, hmore _ (Edges.suffix_ne_nil_of_soleLeaf hleaf),
        Edges.get?_of_soleLeaf hleaf, if_pos rfl]
      exact ⟨rfl, List.prefix_append _ _⟩

end Trie

/-- The search for the only hook below a node ends, and it finds a node exactly if that is the only
one with a hook in the subtree and lies below its top. Then the node is an end of the trie, and its
key is the only one that begins with the bytes of the node where the search started. -/
theorem Trie.Reachable.search_exact {t : Trie} (ht : t.Reachable) {id : NodeId} {n : Node}
    (hn : t.node? id = some n) :
    (∀ answer, t.Descends id 0 answer ↔ answer = n.collapseTarget) ∧
    (∀ target, n.collapseTarget = some target ↔
      target ≠ id ∧ ∀ m, t.Below id m ∧ t.Hooked m ↔ m = target) ∧
    ∀ target, n.collapseTarget = some target →
      ∃ l, t.node? target = some l ∧ l.terminal.isSome ∧ l.children = [] ∧
        ∀ key, (t.get? key).isSome ∧ n.path <+: Text.bytes key ↔ key = l.key := by
  obtain ⟨hplace, rfl⟩ := ht.regular.node?_eq_some.mp hn
  refine ⟨fun answer => ?_, fun target => ?_, fun target => ?_⟩
  · rw [ht.regular.descends_iff_eq hplace, n.searched_zero]
  · exact ht.regular.collapseTarget_eq_some hplace
  · exact ht.regular.key_of_collapseTarget hplace

/-- After the opening parenthesis only one key is left, so it is compared at once. -/
theorem Specimen.search_after_parenthesis :
    ∃ n, trie.node? 3 = some n ∧ n.path = [97, 98, 40] ∧ trie.Descends 3 0 (some 7) ∧
      (∀ m, trie.Below 3 m ∧ trie.Hooked m ↔ m = 7) ∧
      ∀ key, (trie.get? key).isSome ∧ [97, 98, 40] <+: Text.bytes key ↔ key = "ab(i32)" := by
  have ht : trie.Reachable := Trie.reachable_ofRegistry trie_eq
  have hn : trie.node? 3 = some ⟨3, some 2, [97, 98, 40], none, .cons 4 105 none
      (.cons 5 51 none (.cons 6 50 none (.cons 7 41 (some ⟨1⟩) .nil .nil) .nil) .nil) .nil,
      .nil⟩ := rfl
  obtain ⟨hsearch, hexact, hkeys⟩ := Trie.Reachable.search_exact ht hn
  obtain ⟨l, hl, -, -, hkey⟩ := hkeys 7 rfl
  have hpath : l.path = Text.bytes "ab(i32)" := by
    cases hl
    decide
  have hspelled : l.key = "ab(i32)" := by
    rw [Node.key, hpath, Text.showBytes_bytes]
  rw [hspelled] at hkey
  exact ⟨_, hn, rfl, (hsearch (some 7)).mpr rfl, ((hexact 7).mp rfl).2, hkey⟩

end HookDispatch
