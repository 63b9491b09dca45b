import HookDispatch.Proofs.Trie.Regular
import Mathlib.Data.Set.Card

/-!
The nodes of a trie as an arena. Numbers are indices without gaps, parents and children refer to
each other by them, and nothing is in the arena that the inserted keys do not need: a node ends a
key or leads to one, and there are as many nodes as beginnings of keys.
-/
namespace HookDispatch.Trie

structure Arena (t : Trie) : Prop where
  numbered : ∀ id, (∃ n, t.node? id = some n) ↔ id < t.size
  root_bare : ∃ n, t.node? root = some n ∧ n.byte = none ∧ n.parent = none ∧ n.terminal = none
  /-- A node other than the root has an edge to it, from one node and once. -/
  attached : ∀ id n, t.node? id = some n → id ≠ root →
    ∃ byte parent p, n.byte = some byte ∧ n.parent = some parent ∧ parent < id ∧
      t.node? parent = some p ∧ p.children.count id = 1 ∧
      ∀ other q, t.node? other = some q → id ∈ q.children → other = parent
  /-- The nodes below a node know their parent. -/
  linked : ∀ id n, t.node? id = some n → ∀ child ∈ n.children,
    ∃ c, t.node? child = some c ∧ c.parent = some id
  /-- Siblings have different bytes. -/
  apart : ∀ id n, t.node? id = some n →
    (n.children.map fun child => (t.node? child).bind Node.byte).Nodup
  fruitful : ∀ id n, t.node? id = some n → id ≠ root → n.children = [] → n.terminal.isSome
  keyCount_eq : t.keyCount = t.nodes.countP (·.terminal.isSome)

section Places
variable {t : Trie} {n p : Node} {id : NodeId}

theorem Regular.nodup_ids (ht : t.Regular) : (t.places.map Node.id).Nodup := by
  rw [map_id_places, ht.numbers_perm.nodup_iff]
  exact List.nodup_range

/-- A node is found under its number. -/
theorem Regular.node?_eq_some (ht : t.Regular) :
    t.node? id = some n ↔ n ∈ t.places ∧ n.id = id := by
  rw [node?_eq_find?]
  constructor
  · intro h
    exact ⟨List.mem_of_find?_eq_some h, by simpa using List.find?_some h⟩
  · rintro ⟨hn, rfl⟩
    exact find?_of_nodup_map ht.nodup_ids hn

theorem Regular.exists_node?_iff (ht : t.Regular) : (∃ n, t.node? id = some n) ↔ id < t.size := by
  rw [← List.mem_range, ← ht.numbers_perm.mem_iff, ← map_id_places, List.mem_map]
  simp only [ht.node?_eq_some]

theorem Regular.below (ht : t.Regular) (hp : p ∈ t.places) : p.below.Regular p.id := by
  rcases List.mem_cons.mp hp with rfl | hp
  · exact ht.edges_regular
  · exact ht.edges_regular.of_mem_places hp

theorem Regular.nodup_children (ht : t.Regular) (hp : p ∈ t.places) : p.children.Nodup := by
  apply p.below.ids_sublist_numbers.nodup
  rcases List.mem_cons.mp hp with rfl | hp
  · exact ht.numbers_nodup
  · exact (Edges.numbers_sublist_of_mem_places hp).nodup ht.numbers_nodup

/-- The nodes in the group below a node are its children. -/
theorem exists_of_mem_children (hp : p ∈ t.places) (hid : id ∈ p.children) :
    ∃ n ∈ p.below.heads p.id p.path, n ∈ t.places ∧ n.id = id := by
  rw [Node.children, ← Edges.map_id_heads p.id p.path, List.mem_map] at hid
  obtain ⟨n, hn, rfl⟩ := hid
  exact ⟨n, hn, mem_places_iff.mpr (Or.inr ⟨p, hp, hn⟩), rfl⟩

theorem mem_children_of_mem_heads (hn : n ∈ p.below.heads p.id p.path) : n.id ∈ p.children := by
  rw [Node.children, ← Edges.map_id_heads p.id p.path]
  exact List.mem_map_of_mem hn

/-- A node has only one parent. -/
theorem Regular.parent_unique (ht : t.Regular) (hn : n ∈ t.places) (hparent : n.parent = some p.id)
    {q : Node} (hq : q ∈ t.places) (hchild : n.id ∈ q.children) : q.id = p.id := by
  obtain ⟨m, hm, hplace, hid⟩ := exists_of_mem_children hq hchild
  have hsame : m = n := List.inj_on_of_nodup_map ht.nodup_ids hplace hn hid
  have hother : m.parent = some q.id := Edges.parent_of_mem_heads hm
  rw [hsame, hparent] at hother
  exact (Option.some.inj hother).symm

theorem Regular.attached (ht : t.Regular) (hn : n ∈ t.places) (hroot : n.id ≠ root) :
    ∃ byte p, p ∈ t.places ∧ n.byte = some byte ∧ n.parent = some p.id ∧ p.id < n.id ∧
      p.children.count n.id = 1 := by
  rcases mem_places_iff.mp hn with rfl | ⟨p, hp, hhead⟩
  · exact absurd rfl hroot
  obtain ⟨byte, hbyte⟩ := Edges.byte_of_mem_heads hhead
  have hchild := mem_children_of_mem_heads hhead
  refine ⟨byte, p, hp, hbyte, Edges.parent_of_mem_heads hhead, ?_, ?_⟩
  · exact (ht.below hp).lt_of_mem_ids hchild
  · exact List.count_eq_one_of_mem (ht.nodup_children hp) hchild

/-- The bytes of children are those of the edges to them. -/
theorem Regular.map_byte_children (ht : t.Regular) (hp : p ∈ t.places) :
    (p.children.map fun child => (t.node? child).bind Node.byte) = p.below.bytes.map some := by
  rw [Node.children, ← Edges.map_id_heads p.id p.path, List.map_map,
    ← Edges.map_byte_heads p.id p.path]
  apply List.map_congr_left
  intro n hn
  have hplace : n ∈ t.places := mem_places_iff.mpr (Or.inr ⟨p, hp, hn⟩)
  have hfound : t.node? n.id = some n := ht.node?_eq_some.mpr ⟨hplace, rfl⟩
  simp only [Function.comp_apply, hfound, Option.bind_some]

theorem Regular.nodes_perm (ht : t.Regular) : t.nodes.Perm t.places := by
  have hfound : ∀ n ∈ t.places, (t.node? ∘ Node.id) n = some n := by
    intro n hn
    exact ht.node?_eq_some.mpr ⟨hn, rfl⟩
  have hsplit : (t.places.map Node.id).filterMap t.node? = t.places := by
    rw [List.filterMap_map, List.filterMap_congr hfound, List.filterMap_some]
  rw [nodes, ← hsplit, map_id_places]
  exact (ht.numbers_perm.filterMap t.node?).symm

/-- The nodes of a regular trie make an arena. -/
theorem Regular.arena (ht : t.Regular) : t.Arena where
  numbered := fun id => ht.exists_node?_iff
  root_bare := ⟨t.rootNode, rfl, rfl, rfl, rfl⟩
  attached := by
    intro id n hn hroot
    obtain ⟨hplace, rfl⟩ := ht.node?_eq_some.mp hn
    obtain ⟨byte, p, hp, hbyte, hparent, hlt, hcount⟩ := ht.attached hplace hroot
    refine ⟨byte, p.id, p, hbyte, hparent, hlt, ht.node?_eq_some.mpr ⟨hp, rfl⟩, hcount, ?_⟩
    intro other q hq hchild
    obtain ⟨hother, rfl⟩ := ht.node?_eq_some.mp hq
    exact ht.parent_unique hplace hparent hother hchild
  linked := by
    intro id n hn child hchild
    obtain ⟨hplace, rfl⟩ := ht.node?_eq_some.mp hn
    obtain ⟨c, hhead, hc, hid⟩ := exists_of_mem_children hplace hchild
    exact ⟨c, ht.node?_eq_some.mpr ⟨hc, hid⟩, Edges.parent_of_mem_heads hhead⟩
  apart := by
    intro id n hn
    obtain ⟨hplace, rfl⟩ := ht.node?_eq_some.mp hn
    rw [ht.map_byte_children hplace]
    exact (ht.below hplace).nodup_bytes.map (Option.some_injective _)
  fruitful := by
    intro id n hn hroot hnone
    obtain ⟨hplace, rfl⟩ := ht.node?_eq_some.mp hn
    rcases List.mem_cons.mp hplace with rfl | hinner
    · exact absurd rfl hroot
    rcases ht.productive.of_mem_places hinner with hterminal | hbelow
    · exact hterminal
    · cases hedges : n.below with
      | nil => exact absurd hedges hbelow
      | cons id byte terminal below rest =>
        rw [Node.children, hedges] at hnone
        cases hnone
  keyCount_eq := by
    rw [ht.keyCount_eq, ht.nodes_perm.countP_eq, places, List.countP_cons, Edges.countP_places]
    rfl

theorem Regular.size_eq (ht : t.Regular) : t.size = 1 + t.edges.paths.length := by
  have hlength := ht.numbers_perm.length_eq
  rw [List.length_cons, List.length_range] at hlength
  rw [Edges.length_paths]
  omega

end Places

/-- After any insertions into an empty trie its nodes make an arena, and besides the root there is
one node for each beginning of an inserted key. -/
theorem arena_insertEach (keys : List (String × MethodId)) :
    (Trie.empty.insertEach keys).Arena ∧
      (Trie.empty.insertEach keys).size =
        1 + {q : List UInt8 | q ≠ [] ∧ ∃ entry ∈ keys, q <+: Text.bytes entry.1}.ncard := by
  have ht := (Reachable.empty.insertEach keys).regular
  refine ⟨ht.arena, ?_⟩
  have hpaths : {q : List UInt8 | q ≠ [] ∧ ∃ entry ∈ keys, q <+: Text.bytes entry.1} =
      ((Trie.empty.insertEach keys).edges.paths.toFinset : Set (List UInt8)) := by
    ext q
    simp only [Set.mem_ofPred_eq, List.coe_toFinset, mem_paths_insertEach]
    simp [Trie.empty, Edges.paths]
  rw [ht.size_eq, hpaths, Set.ncard_coe_finset,
    List.toFinset_card_of_nodup ht.edges_regular.nodup_paths]

end HookDispatch.Trie
