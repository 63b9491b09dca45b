import HookDispatch.Proofs.SoleTerminal
import HookDispatch.Proofs.Trie.Stored

/-!
A store does what its trie does. Inserting keys one after the other keeps the nodes of the trie in
the store, each under its number, as long as numbers have 32 bits; and then the store finds the same
nodes and hooks, and the same keys, depths, siblings and ends of single paths, though it has to
follow links where the trie has its nodes in their places.
-/
namespace HookDispatch

namespace Trie

variable {t : Trie}

/-- Entering a key inserts it, or changes nothing. -/
theorem enter_cases (t : Trie) (key : String) (hook : MethodId) :
    (t.enter key hook).2 = t ∨ t.insert key hook = .ok (t.enter key hook).2 := by
  rw [enter]
  cases t.insert key hook with
  | error e => exact Or.inl rfl
  | ok grown => exact Or.inr rfl

theorem Regular.enter (ht : t.Regular) (key : String) (hook : MethodId) :
    (t.enter key hook).2.Regular := by
  rcases enter_cases t key hook with hsame | hinsert
  · exact hsame.symm ▸ ht
  · exact ht.insert hinsert

theorem size_le_enter (t : Trie) (key : String) (hook : MethodId) :
    t.size ≤ (t.enter key hook).2.size := by
  rcases enter_cases t key hook with hsame | hinsert
  · rw [hsame]
  · obtain ⟨-, -, hsize⟩ := insert_eq_ok hinsert
    rw [hsize]
    exact Nat.le_add_right ..

theorem size_le_insertEach (t : Trie) (keys : List (String × MethodId)) :
    t.size ≤ (t.insertEach keys).size := by
  induction keys generalizing t with
  | nil => exact Nat.le_refl t.size
  | cons entry keys ih =>
    rw [insertEach_enter]
    exact Nat.le_trans (size_le_enter t entry.1 entry.2) (ih _)

theorem firstOp?_mark_single (t : Trie) (id : NodeId) (l : Label) (here : NodeId) :
    (t.mark [(id, l)]).firstOp? here = if id = here then some l else t.firstOp? here := by
  by_cases h : id = here
  · simp [mark, firstOp?, h]
  · simp [mark, firstOp?, h]

end Trie

def Node.stored (n : Node) (op : Option Label) : StoredNode where
  byte := n.byte
  terminal := n.terminal
  children := n.children.map .ofNat
  parent := n.parent.map .ofNat
  firstOp := op

namespace NodeStore

structure Stores (s : NodeStore) (t : Trie) : Prop where
  size_eq : s.nodes.size = t.size
  root_eq : s.nodes[Trie.root]? = some (t.rootNode.stored (t.firstOp? Trie.root))
  represents : s.Represents t.firstOp? Trie.root t.edges
  keyCount_eq : s.keyCount = t.keyCount
  unmarked : ∀ id, t.size ≤ id → t.firstOp? id = none

/-- Inserts keys one after the other; a key that is refused changes nothing. -/
def insertEach (s : NodeStore) (keys : List (String × MethodId)) : NodeStore :=
  keys.foldl (fun s entry => (s.insert entry.1 entry.2).2) s

variable {s : NodeStore} {t : Trie} {n : Node} {key : String} {hook : MethodId} {id : NodeId}

section Growing

theorem stores_empty : NodeStore.empty.Stores Trie.empty where
  size_eq := rfl
  root_eq := rfl
  represents := trivial
  keyCount_eq := rfl
  unmarked := fun _ _ => rfl

theorem Stores.stands (h : s.Stores t) (ht : t.Regular) :
    s.Stands t.firstOp? Trie.root t.edges where
  represents := h.represents
  nodup := ht.numbers_perm.nodup_iff.mpr List.nodup_range
  lt := by
    intro i hi
    rw [h.size_eq]
    exact List.mem_range.mp (ht.numbers_perm.mem_iff.mp hi)

/-- A key is inserted into the store as into the trie. -/
theorem Stores.insert (h : s.Stores t) (ht : t.Regular)
    (hsize : (t.enter key hook).2.size ≤ UInt32.size) :
    (s.insert key hook).1 = (t.enter key hook).1.map .ofNat ∧
      (s.insert key hook).2.Stores (t.enter key hook).2 := by
  by_cases hkey : key.isEmpty = true
  · rw [Trie.enter, Trie.insert, if_pos hkey, NodeStore.insert, if_pos hkey]
    exact ⟨rfl, h⟩
  · obtain ⟨b, path, hpath⟩ : ∃ b path, Text.bytes key = b :: path :=
      List.exists_cons_of_ne_nil fun hnil =>
        hkey (String.isEmpty_iff.mpr (Text.bytes_eq_nil_iff.mp hnil))
    rw [Trie.enter, Trie.insert, if_neg hkey, hpath] at hsize ⊢
    obtain ⟨grown, hinsert, hsize', hkeys, hinserted⟩ :=
      inserted_group hook h.root_eq (List.nil_append _).symm rfl (h.stands ht)
        (by rw [h.size_eq]; exact hsize) (by rw [h.size_eq]; exact h.unmarked)
    rw [h.size_eq] at hinsert hsize' hinserted
    rw [NodeStore.insert, if_neg hkey, hpath, show NodeIndex.root = .ofNat Trie.root from rfl,
      hinsert]
    refine ⟨rfl, hsize', hinserted.here_eq, hinserted.represents, ?_, fun id hid => ?_⟩
    · rw [hkeys, h.keyCount_eq, show t.rootNode.below = t.edges from rfl, ← hpath, ← Trie.get?_eq]
      change _ = if (t.get? key).isNone then t.keyCount + 1 else t.keyCount
      split <;> rfl
    · exact h.unmarked id (Nat.le_trans (Nat.le_add_right ..) hid)

/-- A mark on a node changes what is stored for that node, and nothing else. -/
theorem Represents.setFirstOp {parent : NodeId} {edges : Edges}
    (h : s.Represents t.firstOp? parent edges) (hid : id < UInt32.size) (l : Label) :
    (s.setFirstOp (.ofNat id) l).Represents (t.mark [(id, l)]).firstOp? parent edges := by
  induction edges generalizing parent with
  | nil => trivial
  | cons here byte terminal below rest ihBelow ihRest =>
    obtain ⟨hhere, hbelow, hrest⟩ := h
    refine ⟨?_, ihBelow hbelow, ihRest hrest⟩
    rw [NodeStore.setFirstOp, getElem?_update, NodeIndex.toNat_ofNat hid, hhere,
      Trie.firstOp?_mark_single]
    split <;> rfl

/-- Marking a node is recorded in the store as in the trie. -/
theorem Stores.setFirstOp (h : s.Stores t) (hid : id < t.size) (hsize : t.size ≤ UInt32.size)
    (l : Label) : (s.setFirstOp (.ofNat id) l).Stores (t.mark [(id, l)]) where
  size_eq := Array.size_modify.trans h.size_eq
  root_eq := by
    rw [NodeStore.setFirstOp, getElem?_update,
      NodeIndex.toNat_ofNat (Nat.lt_of_lt_of_le hid hsize), h.root_eq, Trie.firstOp?_mark_single]
    split <;> rfl
  represents := h.represents.setFirstOp (Nat.lt_of_lt_of_le hid hsize) l
  keyCount_eq := h.keyCount_eq
  unmarked := by
    intro here hhere
    rw [Trie.firstOp?_mark_single, if_neg (Nat.ne_of_lt (Nat.lt_of_lt_of_le hid hhere))]
    exact h.unmarked here hhere

/-- Keys are inserted into the store as into the trie, as long as there are numbers for nodes. -/
theorem Stores.insertEach (h : s.Stores t) (ht : t.Regular) {keys : List (String × MethodId)}
    (hsize : (t.insertEach keys).size ≤ UInt32.size) :
    (s.insertEach keys).Stores (t.insertEach keys) := by
  induction keys generalizing s t with
  | nil => exact h
  | cons entry keys ih =>
    rw [Trie.insertEach_enter] at hsize ⊢
    have hentered := (h.insert ht (Nat.le_trans (Trie.size_le_insertEach _ keys) hsize)).2
    exact ih hentered (ht.enter entry.1 entry.2) hsize

end Growing

section Telling

/-- Every node is stored under its number. -/
theorem Represents.node_eq {ops : NodeId → Option Label} {parent : NodeId} {edges : Edges}
    (h : s.Represents ops parent edges) (path : List UInt8) (hn : n ∈ edges.places parent path) :
    s.nodes[n.id]? = some (n.stored (ops n.id)) := by
  induction edges generalizing parent path with
  | nil => cases hn
  | cons id byte terminal below rest ihBelow ihRest =>
    obtain ⟨hid, hbelow, hrest⟩ := h
    rw [Edges.places, List.mem_cons, List.mem_append] at hn
    rcases hn with rfl | hn | hn
    · rw [hid, Node.stored, Node.byte, List.getLast?_concat]
      rfl
    · exact ihBelow hbelow _ hn
    · exact ihRest hrest _ hn

theorem Stores.node?_eq (h : s.Stores t) (ht : t.Regular) (hsize : t.size ≤ UInt32.size)
    (hn : n ∈ t.places) : s.node? (.ofNat n.id) = some (n.stored (t.firstOp? n.id)) := by
  have hid : n.id < t.size := ht.exists_node?_iff.mp ⟨n, ht.node?_eq_some.mpr ⟨hn, rfl⟩⟩
  rw [node?, NodeIndex.toNat_ofNat (Nat.lt_of_lt_of_le hid hsize)]
  rcases List.mem_cons.mp hn with rfl | hinner
  · exact h.root_eq
  · exact h.represents.node_eq [] hinner

/-- A path leads through the store as through the group. -/
theorem Represents.follow_eq {ops : NodeId → Option Label} {parent : NodeId} {edges : Edges}
    (h : s.Represents ops parent edges) (hlt : ∀ i ∈ edges.numbers, i < UInt32.size) (b : UInt8)
    (path : List UInt8) :
    ((edges.child? b).map NodeIndex.ofNat).bind (s.follow · path) =
      (edges.find? (b :: path)).map .ofNat := by
  induction edges generalizing parent b path with
  | nil => rfl
  | cons id byte terminal below rest ihBelow ihRest =>
    have hbelowLt : ∀ i ∈ below.numbers, i < UInt32.size := fun i hi =>
      hlt i (List.mem_cons_of_mem id (List.mem_append_left _ hi))
    obtain ⟨hid, hbelow, hrest⟩ := h
    by_cases hb : byte = b
    · subst hb
      rw [Edges.child?, if_pos rfl, Option.map_some, Option.bind_some]
      cases path with
      | nil => rw [Edges.find?_cons_end, follow, Option.map_some]
      | cons c path =>
        rw [Edges.find?_cons_below (List.cons_ne_nil c path), follow,
          child?_eq hid (hlt id List.mem_cons_self), pick_ids hbelow hbelowLt]
        exact ihBelow hbelow hbelowLt c path
    · rw [Edges.child?, if_neg hb, Edges.find?_cons_rest hb]
      exact ihRest hrest
        (fun i hi => hlt i (List.mem_cons_of_mem id (List.mem_append_right _ hi))) b path

theorem Stores.find?_eq (h : s.Stores t) (ht : t.Regular) (hsize : t.size ≤ UInt32.size)
    (key : String) : s.find? key = (t.find? key).map .ofNat := by
  by_cases hkey : key = ""
  · subst hkey
    rfl
  · obtain ⟨b, path, hpath⟩ : ∃ b path, Text.bytes key = b :: path :=
      List.exists_cons_of_ne_nil fun hnil => hkey (Text.bytes_eq_nil_iff.mp hnil)
    have hlt : ∀ i ∈ t.edges.numbers, i < UInt32.size := fun i hi =>
      Nat.lt_of_lt_of_le (ht.numbers_lt i hi) hsize
    rw [find?, Trie.find?_eq t hkey, hpath, show NodeIndex.root = .ofNat Trie.root from rfl, follow,
      child?_eq h.root_eq (by decide), ← h.represents.follow_eq hlt]
    exact congrArg (Option.bind · _) (pick_ids h.represents hlt b)

theorem Stores.get?_eq (h : s.Stores t) (ht : t.Regular) (hsize : t.size ≤ UInt32.size)
    (key : String) : s.get? key = t.get? key := by
  rw [get?, h.find?_eq ht hsize, Trie.get?]
  cases hfind : t.find? key with
  | none =>
    rw [Trie.find?, Option.map_eq_none_iff] at hfind
    rw [hfind]
    rfl
  | some id =>
    obtain ⟨n, hnode, hpath⟩ := ht.find?_eq_some_iff.mp hfind
    obtain ⟨hn, rfl⟩ := ht.node?_eq_some.mp hnode
    rw [Option.map_some, Option.bind_some, h.node?_eq ht hsize hn, Option.bind_some, Node.stored]
    rcases List.mem_cons.mp hn with rfl | hinner
    · rw [Text.bytes_eq_nil_iff.mp hpath.symm]
      rfl
    · obtain ⟨b, q, hq, -, hseek, -⟩ := ht.edges_regular.seek_of_mem_places hinner
      rw [Trie.seek, ← hpath, hq]
      exact (congrArg (Option.bind · Prod.snd) hseek).symm

section Siblings

/-- A node stands among the children of its parent, before its later siblings. -/
theorem exists_ids_eq {parent : NodeId} {path : List UInt8} {edges : Edges}
    (hn : n ∈ edges.heads parent path) : ∃ before, edges.ids = before ++ n.id :: n.later.ids := by
  induction edges with
  | nil => cases hn
  | cons id byte terminal below rest ihBelow ihRest =>
    rcases List.mem_cons.mp hn with rfl | hn
    · exact ⟨[], rfl⟩
    · obtain ⟨before, hids⟩ := ihRest hn
      exact ⟨id :: before, by rw [Edges.ids, hids]; rfl⟩

theorem idxOf?_append_cons {before after : List NodeIndex} {i : NodeIndex} (h : i ∉ before) :
    (before ++ i :: after).idxOf? i = some before.length := by
  induction before with
  | nil => exact List.idxOf?_cons.trans (if_pos (beq_self_eq_true i))
  | cons j before ih =>
    obtain ⟨hne, hrest⟩ := not_or.mp (List.mem_cons.not.mp h)
    rw [List.cons_append, List.idxOf?_cons, if_neg (by simpa using Ne.symm hne), ih hrest]
    rfl

theorem Stores.siblings?_eq (h : s.Stores t) (ht : t.Regular) (hsize : t.size ≤ UInt32.size)
    (hn : n ∈ t.places) :
    (n.later = .nil ∧ s.siblings? (.ofNat n.id) = none) ∨
      ∃ before, .ofNat n.id ∉ before ∧ s.siblings? (.ofNat n.id) =
        some (before ++ .ofNat n.id :: n.later.ids.map .ofNat) := by
  rw [siblings?, h.node?_eq ht hsize hn, Option.bind_some, Node.stored]
  rcases Trie.mem_places_iff.mp hn with rfl | ⟨p, hp, hhead⟩
  · exact Or.inl ⟨rfl, rfl⟩
  · obtain ⟨before, hids⟩ := exists_ids_eq hhead
    have hnodup : p.children.Nodup := ht.nodup_children hp
    have hlt : ∀ id ∈ p.children, id < UInt32.size := by
      intro id hid
      obtain ⟨m, -, hm, rfl⟩ := Trie.exists_of_mem_children hp hid
      exact Nat.lt_of_lt_of_le
        (ht.exists_node?_iff.mp ⟨m, ht.node?_eq_some.mpr ⟨hm, rfl⟩⟩) hsize
    rw [Node.children, hids] at hnodup hlt
    refine Or.inr ⟨before.map .ofNat, ?_, ?_⟩
    · intro hmem
      obtain ⟨id, hid, heq⟩ := List.mem_map.mp hmem
      have hsame := congrArg NodeIndex.toNat heq
      rw [NodeIndex.toNat_ofNat (hlt id (List.mem_append_left _ hid)),
        NodeIndex.toNat_ofNat (hlt n.id (by simp))] at hsame
      subst hsame
      exact (List.nodup_append.mp hnodup).2.2 _ hid _ List.mem_cons_self rfl
    · rw [Edges.parent_of_mem_heads hhead, Option.map_some, Option.bind_some,
        h.node?_eq ht hsize hp, Option.map_some, Node.stored, Node.children, hids, List.map_append,
        List.map_cons]

theorem Stores.nextSibling_eq (h : s.Stores t) (ht : t.Regular) (hsize : t.size ≤ UInt32.size)
    (hn : n ∈ t.places) : s.nextSibling (.ofNat n.id) = n.nextSibling.map .ofNat := by
  rw [nextSibling, Node.nextSibling]
  obtain ⟨hlater, hnone⟩ | ⟨before, hbefore, hsome⟩ := h.siblings?_eq ht hsize hn
  · rw [hnone, hlater]
    rfl
  · rw [hsome, Option.bind_some, idxOf?_append_cons hbefore, Option.bind_some,
      List.getElem?_append_right (Nat.le_succ _), Nat.succ_sub (Nat.le_refl _), Nat.sub_self,
      List.getElem?_cons_succ]
    cases n.later <;> rfl

theorem Stores.remainingSiblings_eq (h : s.Stores t) (ht : t.Regular)
    (hsize : t.size ≤ UInt32.size) (hn : n ∈ t.places) :
    s.remainingSiblings (.ofNat n.id) = n.remainingSiblings := by
  rw [remainingSiblings, Node.remainingSiblings]
  obtain ⟨hlater, hnone⟩ | ⟨before, hbefore, hsome⟩ := h.siblings?_eq ht hsize hn
  · rw [hnone, hlater]
    rfl
  · rw [hsome, Option.bind_some, idxOf?_append_cons hbefore, Option.map_some, Option.getD_some,
      List.length_append, List.length_cons, List.length_map]
    omega

end Siblings

theorem depth_of_root {id : NodeIndex} (h : (s.node? id).bind StoredNode.parent = none) :
    s.depth id = 0 := by
  rw [depth]
  split
  · rfl
  · rename_i hp
    rw [h] at hp
    cases hp

theorem depth_of_parent {id p : NodeIndex}
    (h : (s.node? id).bind StoredNode.parent = some p) : s.depth id = s.depth p + 1 := by
  rw [depth]
  split
  · rename_i hp
    rw [h] at hp
    cases hp
  · rename_i hp
    rw [h] at hp
    cases hp
    rfl

theorem spell_of_root {id : NodeIndex} (h : (s.node? id).bind StoredNode.byte = none)
    (after : List UInt8) : s.spell id after = after := by
  rw [spell, h]

theorem spell_of_parent {id p : NodeIndex} {b : UInt8}
    (hb : (s.node? id).bind StoredNode.byte = some b)
    (h : (s.node? id).bind StoredNode.parent = some p) (after : List UInt8) :
    s.spell id after = s.spell p (b :: after) := by
  rw [spell, hb]
  simp only
  split
  · rename_i hp
    rw [h] at hp
    cases hp
  · rename_i hp
    rw [h] at hp
    cases hp
    rfl

/-- Going up from a node takes as many steps as the node is deep, and passes the bytes of its path
from the last one to the first. -/
theorem Stores.climb_eq (h : s.Stores t) (ht : t.Regular) (hsize : t.size ≤ UInt32.size)
    (hn : n ∈ t.places) : s.depth (.ofNat n.id) = n.depth ∧
      ∀ after, s.spell (.ofNat n.id) after = n.path ++ after := by
  induction hlength : n.path.length generalizing n with
  | zero =>
    have hnode := h.node?_eq ht hsize hn
    rcases Trie.mem_places_iff.mp hn with rfl | ⟨p, -, hhead⟩
    · refine ⟨depth_of_root ?_, spell_of_root ?_⟩
      · rw [hnode]
        rfl
      · rw [hnode]
        rfl
    · obtain ⟨byte, hpath⟩ := Edges.path_of_mem_heads hhead
      rw [hpath, List.length_append] at hlength
      cases hlength
  | succ k ih =>
    have hnode := h.node?_eq ht hsize hn
    rcases Trie.mem_places_iff.mp hn with rfl | ⟨p, hp, hhead⟩
    · cases hlength
    · obtain ⟨byte, hpath⟩ := Edges.path_of_mem_heads hhead
      have hshorter : p.path.length = k := by
        rw [hpath, List.length_append] at hlength
        exact Nat.succ.inj hlength
      obtain ⟨hdepth, hspell⟩ := ih hp hshorter
      have hparent : (s.node? (.ofNat n.id)).bind StoredNode.parent = some (.ofNat p.id) := by
        rw [hnode, Option.bind_some, Node.stored, Edges.parent_of_mem_heads hhead, Option.map_some]
      have hbyte : (s.node? (.ofNat n.id)).bind StoredNode.byte = some byte := by
        rw [hnode, Option.bind_some, Node.stored, Node.byte, hpath, List.getLast?_concat]
      refine ⟨?_, fun after => ?_⟩
      · rw [depth_of_parent hparent, hdepth, Node.depth, Node.depth, hpath, List.length_append,
          List.length_singleton]
      · rw [spell_of_parent hbyte hparent, hspell, hpath, List.append_assoc,
          List.singleton_append]

/-- A search has one answer at most. -/
theorem Collapses.unique {id : NodeIndex} {steps : Nat} {a b : Option NodeIndex}
    (h : s.Collapses id steps a) (h' : s.Collapses id steps b) : a = b := by
  induction h with
  | hooked hn hhook =>
    cases h' with
    | hooked hn' _ =>
      cases hn.symm.trans hn'
      rfl
    | down hn' hbare _ _ | stuck hn' hbare _ =>
      cases hn.symm.trans hn'
      simp [hbare] at hhook
  | down hn hbare honly _ ih =>
    cases h' with
    | hooked hn' hhook =>
      cases hn.symm.trans hn'
      simp [hbare] at hhook
    | down hn' _ honly' h' =>
      cases hn.symm.trans hn'
      cases honly.symm.trans honly'
      exact ih h'
    | stuck hn' _ hchildren =>
      cases hn.symm.trans hn'
      exact absurd (by rw [honly]; rfl) hchildren
  | stuck hn hbare hchildren =>
    cases h' with
    | hooked hn' hhook =>
      cases hn.symm.trans hn'
      simp [hbare] at hhook
    | down hn' _ honly _ =>
      cases hn.symm.trans hn'
      exact absurd (by rw [honly]; rfl) hchildren
    | stuck => rfl

/-- The search in the store follows the search in the trie step by step. -/
theorem Stores.collapses (h : s.Stores t) (ht : t.Regular) (hsize : t.size ≤ UInt32.size)
    {steps : Nat} {answer : Option NodeId} (hsearch : t.Descends id steps answer) :
    s.Collapses (.ofNat id) steps (answer.map .ofNat) := by
  induction hsearch with
  | @hooked id steps n hn hhook =>
    obtain ⟨hplace, rfl⟩ := ht.node?_eq_some.mp hn
    have hanswer : (if (n.stored (t.firstOp? n.id)).children = [] ∧ 0 < steps then
          some (NodeIndex.ofNat n.id) else none) =
        (if n.children = [] ∧ 0 < steps then some n.id else none).map .ofNat := by
      simp only [Node.stored, List.map_eq_nil_iff]
      split <;> rfl
    rw [← hanswer]
    exact .hooked (h.node?_eq ht hsize hplace) hhook
  | @down id only steps n answer hn hbare honly _ ih =>
    obtain ⟨hplace, rfl⟩ := ht.node?_eq_some.mp hn
    refine .down (h.node?_eq ht hsize hplace) hbare ?_ ih
    rw [Node.stored, honly]
    rfl
  | @stuck id steps n hn hbare hchildren =>
    obtain ⟨hplace, rfl⟩ := ht.node?_eq_some.mp hn
    refine .stuck (h.node?_eq ht hsize hplace) hbare ?_
    rwa [Node.stored, List.length_map]

theorem Stores.collapses_iff (h : s.Stores t) (ht : t.Regular) (hsize : t.size ≤ UInt32.size)
    (hn : n ∈ t.places) (answer : Option NodeIndex) :
    s.Collapses (.ofNat n.id) 0 answer ↔ answer = n.collapseTarget.map .ofNat := by
  have hfound := h.collapses ht hsize ((ht.descends_iff_eq hn).mpr (Eq.refl (n.searched 0)))
  rw [Node.searched_zero] at hfound
  constructor
  · exact fun hsearch => hsearch.unique hfound
  · rintro rfl
    exact hfound

end Telling

structure Tells (s : NodeStore) (t : Trie) (n : Node) : Prop where
  node?_eq : s.node? (.ofNat n.id) = some (n.stored (t.firstOp? n.id))
  key_eq : s.key (.ofNat n.id) = n.key
  depth_eq : s.depth (.ofNat n.id) = n.depth
  nextSibling_eq : s.nextSibling (.ofNat n.id) = n.nextSibling.map .ofNat
  remainingSiblings_eq : s.remainingSiblings (.ofNat n.id) = n.remainingSiblings
  collapses_iff : ∀ answer, s.Collapses (.ofNat n.id) 0 answer ↔
    answer = n.collapseTarget.map .ofNat

/-- A store with the nodes of a trie leads from keys to nodes and hooks as the trie does, and from
nodes to their keys, depths and siblings. Indices have 32 bits, so there are no more nodes. -/
theorem Stores.tells (h : s.Stores t) (ht : t.Regular) (hsize : t.size ≤ UInt32.size) :
    (∀ key, s.find? key = (t.find? key).map .ofNat ∧ s.get? key = t.get? key) ∧
      ∀ id n, t.node? id = some n → s.Tells t n := by
  refine ⟨fun key => ⟨h.find?_eq ht hsize key, h.get?_eq ht hsize key⟩, fun id n hn => ?_⟩
  obtain ⟨hplace, -⟩ := ht.node?_eq_some.mp hn
  obtain ⟨hdepth, hspell⟩ := h.climb_eq ht hsize hplace
  refine ⟨h.node?_eq ht hsize hplace, ?_, hdepth, h.nextSibling_eq ht hsize hplace,
    h.remainingSiblings_eq ht hsize hplace, h.collapses_iff ht hsize hplace⟩
  rw [key, hspell, List.append_nil, Node.key]

/-- After any insertions into an empty store it has the nodes of the trie with the same
insertions. -/
theorem stores_insertEach (keys : List (String × MethodId))
    (hsize : (Trie.empty.insertEach keys).size ≤ UInt32.size) :
    (empty.insertEach keys).Stores (Trie.empty.insertEach keys) :=
  stores_empty.insertEach Trie.regular_empty hsize

end NodeStore

end HookDispatch
