import HookDispatch.Proofs.Trie.Growth
import HookDispatch.Trie.Node

/-!
The nodes of an edge group in their places. The nodes of the group itself come first under their
parent; every other node is, in the same way, in the group below a node. Looking for a number is
looking through this list, so what holds of a node is read off where it stands in it.
-/
namespace HookDispatch

namespace Edges

def bytes : Edges → List UInt8
  | nil => []
  | cons _ byte _ _ rest => byte :: rest.bytes

def heads (parent : NodeId) (path : List UInt8) : Edges → List Node
  | nil => []
  | cons id byte terminal below rest =>
    ⟨id, some parent, path ++ [byte], terminal, below, rest⟩ :: rest.heads parent path

/-- The nodes of the group and below it, each before those below it. -/
def places (parent : NodeId) (path : List UInt8) : Edges → List Node
  | nil => []
  | cons id byte terminal below rest =>
    ⟨id, some parent, path ++ [byte], terminal, below, rest⟩ ::
      (below.places id (path ++ [byte]) ++ rest.places parent path)

section Places
variable {parent : NodeId} {path : List UInt8} {edges : Edges} {n p : Node}

theorem map_id_heads (parent : NodeId) (path : List UInt8) (edges : Edges) :
    (edges.heads parent path).map Node.id = edges.ids := by
  induction edges with
  | nil => rfl
  | cons id byte terminal below rest ihBelow ihRest => simp only [heads, ids, List.map_cons, ihRest]

theorem map_byte_heads (parent : NodeId) (path : List UInt8) (edges : Edges) :
    (edges.heads parent path).map Node.byte = edges.bytes.map some := by
  induction edges with
  | nil => rfl
  | cons id byte terminal below rest ihBelow ihRest =>
    simp only [heads, bytes, List.map_cons, ihRest, Node.byte, List.getLast?_append,
      List.getLast?_singleton, Option.some_or]

theorem parent_of_mem_heads (h : n ∈ edges.heads parent path) : n.parent = some parent := by
  induction edges with
  | nil => cases h
  | cons id byte terminal below rest ihBelow ihRest =>
    rcases List.mem_cons.mp h with rfl | hrest
    · rfl
    · exact ihRest hrest

theorem byte_of_mem_heads (h : n ∈ edges.heads parent path) : ∃ byte, n.byte = some byte := by
  have hbyte : n.byte ∈ (edges.heads parent path).map Node.byte := List.mem_map_of_mem h
  rw [map_byte_heads, List.mem_map] at hbyte
  obtain ⟨byte, -, heq⟩ := hbyte
  exact ⟨byte, heq.symm⟩

theorem mem_places_of_mem_heads (h : n ∈ edges.heads parent path) :
    n ∈ edges.places parent path := by
  induction edges with
  | nil => cases h
  | cons id byte terminal below rest ihBelow ihRest =>
    rw [places, List.mem_cons, List.mem_append]
    rcases List.mem_cons.mp h with rfl | hrest
    · exact Or.inl rfl
    · exact Or.inr (Or.inr (ihRest hrest))

/-- What is below a node of the group is below the group. -/
theorem mem_places_below (hp : p ∈ edges.places parent path) (h : n ∈ p.below.places p.id p.path) :
    n ∈ edges.places parent path := by
  induction edges generalizing parent path with
  | nil => cases hp
  | cons id byte terminal below rest ihBelow ihRest =>
    rw [places, List.mem_cons, List.mem_append] at hp ⊢
    rcases hp with rfl | hbelow | hrest
    · exact Or.inr (Or.inl h)
    · exact Or.inr (Or.inl (ihBelow hbelow))
    · exact Or.inr (Or.inr (ihRest hrest))

/-- A node is in the group itself, or in the group below another node. -/
theorem mem_places_iff : n ∈ edges.places parent path ↔
    n ∈ edges.heads parent path ∨
      ∃ p ∈ edges.places parent path, n ∈ p.below.heads p.id p.path := by
  constructor
  · intro h
    induction edges generalizing parent path with
    | nil => cases h
    | cons id byte terminal below rest ihBelow ihRest =>
      simp only [places, heads, List.mem_cons, List.mem_append] at h ⊢
      rcases h with rfl | hbelow | hrest
      · exact Or.inl (Or.inl rfl)
      · rcases ihBelow hbelow with hhead | ⟨p, hp, hn⟩
        · exact Or.inr ⟨_, Or.inl rfl, hhead⟩
        · exact Or.inr ⟨p, Or.inr (Or.inl hp), hn⟩
      · rcases ihRest hrest with hhead | ⟨p, hp, hn⟩
        · exact Or.inl (Or.inr hhead)
        · exact Or.inr ⟨p, Or.inr (Or.inr hp), hn⟩
  · rintro (hhead | ⟨p, hp, hn⟩)
    · exact mem_places_of_mem_heads hhead
    · exact mem_places_below hp (mem_places_of_mem_heads hn)

theorem map_id_places (parent : NodeId) (path : List UInt8) (edges : Edges) :
    (edges.places parent path).map Node.id = edges.numbers := by
  induction edges generalizing parent path with
  | nil => rfl
  | cons id byte terminal below rest ihBelow ihRest =>
    simp only [places, numbers, List.map_cons, List.map_append, ihBelow, ihRest]

theorem locate_eq_find? (id parent : NodeId) (path : List UInt8) (edges : Edges) :
    edges.locate id parent path = (edges.places parent path).find? (·.id == id) := by
  induction edges generalizing parent path with
  | nil => rfl
  | cons here byte terminal below rest ihBelow ihRest =>
    rw [locate, places, List.find?_cons, List.find?_append, ← ihBelow, ← ihRest]
    by_cases h : here = id
    · simp [h]
    · simp only [if_neg h, beq_eq_false_iff_ne.mpr h]
      cases below.locate id here (path ++ [byte]) <;> rfl

theorem countP_places (parent : NodeId) (path : List UInt8) (edges : Edges) :
    (edges.places parent path).countP (·.terminal.isSome) = edges.terminals.length := by
  induction edges generalizing parent path with
  | nil => rfl
  | cons id byte terminal below rest ihBelow ihRest =>
    simp only [places, terminals, List.countP_cons, List.countP_append, ihBelow, ihRest,
      List.length_append, List.length_map]
    cases terminal with
    | none =>
      simp only [Option.isSome_none, Bool.false_eq_true, if_false, Option.toList_none,
        List.length_nil]
      omega
    | some hook =>
      simp only [Option.isSome_some, if_true, Option.toList_some, List.length_singleton]
      omega

/-- A node of a productive group has a hook, or edges below it. -/
theorem Productive.of_mem_places (h : edges.Productive) (hn : n ∈ edges.places parent path) :
    n.terminal.isSome ∨ n.below ≠ nil := by
  induction edges generalizing parent path with
  | nil => cases hn
  | cons id byte terminal below rest ihBelow ihRest =>
    obtain ⟨hnode, hbelow, hrest⟩ := h
    rw [places, List.mem_cons, List.mem_append] at hn
    rcases hn with rfl | hn | hn
    · exact hnode
    · exact ihBelow hbelow hn
    · exact ihRest hrest hn

theorem ids_sublist_numbers (edges : Edges) : edges.ids.Sublist edges.numbers := by
  induction edges with
  | nil => exact List.Sublist.refl []
  | cons id byte terminal below rest ihBelow ihRest =>
    exact (ihRest.trans (List.sublist_append_right _ _)).cons_cons id

theorem numbers_sublist_of_mem_places (h : p ∈ edges.places parent path) :
    p.below.numbers.Sublist edges.numbers := by
  induction edges generalizing parent path with
  | nil => cases h
  | cons id byte terminal below rest ihBelow ihRest =>
    rw [places, List.mem_cons, List.mem_append] at h
    have hbelow : below.numbers.Sublist (cons id byte terminal below rest).numbers :=
      (List.sublist_append_left _ _).trans (List.sublist_cons_self _ _)
    have hrest : rest.numbers.Sublist (cons id byte terminal below rest).numbers :=
      (List.sublist_append_right _ _).trans (List.sublist_cons_self _ _)
    rcases h with rfl | h | h
    · exact hbelow
    · exact (ihBelow h).trans hbelow
    · exact (ihRest h).trans hrest

end Places

end Edges

namespace Trie

variable {t : Trie} {n p : Node}

def places (t : Trie) : List Node := t.rootNode :: t.edges.places root []

theorem map_id_places (t : Trie) : t.places.map Node.id = root :: t.edges.numbers := by
  rw [places, List.map_cons, Edges.map_id_places]
  rfl

theorem node?_eq_find? (t : Trie) (id : NodeId) : t.node? id = t.places.find? (·.id == id) := by
  rw [node?, places, List.find?_cons, Edges.locate_eq_find?]
  by_cases h : id = root
  · subst h
    rfl
  · have hroot : (t.rootNode.id == id) = false := beq_eq_false_iff_ne.mpr (Ne.symm h)
    rw [if_neg h, hroot]

/-- Every node but the root is in the group below a node. -/
theorem mem_places_iff :
    n ∈ t.places ↔ n = t.rootNode ∨ ∃ p ∈ t.places, n ∈ p.below.heads p.id p.path := by
  rw [places, List.mem_cons, Edges.mem_places_iff]
  simp only [List.mem_cons]
  constructor
  · rintro (hroot | hhead | ⟨p, hp, hn⟩)
    · exact Or.inl hroot
    · exact Or.inr ⟨t.rootNode, Or.inl rfl, hhead⟩
    · exact Or.inr ⟨p, Or.inr hp, hn⟩
  · rintro (hroot | ⟨p, rfl | hp, hn⟩)
    · exact Or.inl hroot
    · exact Or.inr (Or.inl hn)
    · exact Or.inr (Or.inr ⟨p, hp, hn⟩)

end Trie

end HookDispatch
