import HookDispatch.Proofs.FirstWins
import HookDispatch.Proofs.Text.RoundTrip
import HookDispatch.Proofs.Trie.SoleLeaf

/-!
Finding one's way in a trie. A text leads down to a node, and the bytes on the way back up spell the
text again. A node in the middle of a character has no text of its own, but a node with a hook is
never one of these. Going from parent to parent ends at the root, and going from sibling to sibling
passes the children of a node in order.
-/
namespace HookDispatch

def Text.IsUtf8 (bs : List UInt8) : Prop := (ByteArray.mk bs.toArray).IsValidUTF8

theorem Text.isUtf8_iff {bs : List UInt8} : IsUtf8 bs ↔ ∃ s, bytes s = bs := by
  constructor
  · intro h
    exact ⟨⟨_, h⟩, rfl⟩
  · rintro ⟨s, rfl⟩
    exact s.isValidUTF8

theorem Text.bytes_showBytes {bs : List UInt8} (h : IsUtf8 bs) : bytes (showBytes bs) = bs := by
  obtain ⟨s, rfl⟩ := isUtf8_iff.mp h
  rw [showBytes_bytes]

/-- Going on from `a` as long as there is a next one passes the members of the list. -/
inductive Walk {α : Type} (next : α → Option α) : α → List α → Prop
  | stop {a : α} (h : next a = none) : Walk next a [a]
  | step {a b : α} {passed : List α} (h : next a = some b) (hrest : Walk next b passed) :
      Walk next a (a :: passed)

/-- There is only one way to go on. -/
theorem Walk.unique {α : Type} {next : α → Option α} {a : α} {passed passed' : List α}
    (h : Walk next a passed) (h' : Walk next a passed') : passed' = passed := by
  induction h generalizing passed' with
  | stop hnone =>
    cases h' with
    | stop => rfl
    | step hsome => simp [hnone] at hsome
  | step hsome _ ih =>
    cases h' with
    | stop hnone => simp [hnone] at hsome
    | step hsome' hrest =>
      obtain rfl := Option.some.inj (hsome.symm.trans hsome')
      rw [ih hrest]

theorem Walk.iff_eq {α : Type} {next : α → Option α} {a : α} {passed : List α}
    (h : Walk next a passed) (walked : List α) : Walk next a walked ↔ walked = passed := by
  constructor
  · exact h.unique
  · rintro rfl
    exact h

namespace Edges

variable {edges : Edges} {parent : NodeId} {path q : List UInt8} {n : Node} {node : NodeId}
  {leaf : Leaf} {next : NodeId → Option NodeId}

/-- The node that a path leads to has the bytes of the path on the way to it. -/
theorem exists_place_of_find? (parent : NodeId) (path : List UInt8)
    (h : edges.find? q = some node) :
    ∃ n ∈ edges.places parent path, n.id = node ∧ n.path = path ++ q := by
  induction edges generalizing parent path q with
  | nil => simp at h
  | cons id byte terminal below rest ihBelow ihRest =>
    cases q with
    | nil => simp at h
    | cons b q =>
      by_cases hb : byte = b
      · subst hb
        by_cases hq : q = []
        · subst hq
          rw [find?_cons_end] at h
          exact ⟨_, List.mem_cons_self, Option.some.inj h, rfl⟩
        · rw [find?_cons_below hq] at h
          obtain ⟨n, hn, hid, hpath⟩ := ihBelow id (path ++ [byte]) h
          refine ⟨n, List.mem_cons_of_mem _ (List.mem_append_left _ hn), hid, ?_⟩
          rw [hpath, List.append_assoc, List.singleton_append]
      · rw [find?_cons_rest hb] at h
        obtain ⟨n, hn, hid, hpath⟩ := ihRest parent path h
        exact ⟨n, List.mem_cons_of_mem _ (List.mem_append_right _ hn), hid, hpath⟩

/-- In a regular group the bytes on the way to a node lead to it, and longer ones lead on to the
nodes below it. -/
theorem Regular.seek_of_mem_places (h : edges.Regular parent)
    (hn : n ∈ edges.places parent path) :
    ∃ b q, n.path = path ++ b :: q ∧ b ∈ edges.bytes ∧
      edges.seek (b :: q) = some (n.id, n.terminal) ∧
      ∀ more, more ≠ [] → edges.seek (b :: q ++ more) = n.below.seek more := by
  induction edges generalizing parent path with
  | nil => cases hn
  | cons id byte terminal below rest ihBelow ihRest =>
    obtain ⟨-, hbyte, hbelow, hrest⟩ := h
    rw [places, List.mem_cons, List.mem_append] at hn
    rcases hn with rfl | hn | hn
    · refine ⟨byte, [], rfl, List.mem_cons_self, by simp [seek], fun more hmore => ?_⟩
      simp [seek, hmore]
    · obtain ⟨b, q, hpath, -, hend, hbeyond⟩ := ihBelow hbelow hn
      refine ⟨byte, b :: q, ?_, List.mem_cons_self, ?_, fun more hmore => ?_⟩
      · rw [hpath, List.append_assoc, List.singleton_append]
      · rw [seek, if_pos rfl, if_neg (List.cons_ne_nil b q)]
        exact hend
      · rw [List.cons_append, seek, if_pos rfl, if_neg (by simp)]
        exact hbeyond more hmore
    · obtain ⟨b, q, hpath, hb, hend, hbeyond⟩ := ihRest hrest hn
      -- Siblings have other bytes, so the first edge is passed.
      have hne : byte ≠ b := fun heq => hbyte (heq ▸ hb)
      refine ⟨b, q, hpath, List.mem_cons_of_mem byte hb, ?_, fun more hmore => ?_⟩
      · rw [seek, if_neg hne]
        exact hend
      · rw [List.cons_append, seek, if_neg hne]
        exact hbeyond more hmore

theorem Regular.find?_of_mem_places (h : edges.Regular parent)
    (hn : n ∈ edges.places parent path) :
    ∃ b q, n.path = path ++ b :: q ∧ edges.find? (b :: q) = some n.id := by
  obtain ⟨b, q, hpath, -, hend, -⟩ := h.seek_of_mem_places hn
  refine ⟨b, q, hpath, ?_⟩
  rw [find?, hend, Option.map_some]

theorem exists_terminal_of_mem_places {hook : MethodId} (hn : n ∈ edges.places parent path)
    (hterminal : n.terminal = some hook) :
    ∃ q, n.path = path ++ q ∧ (q, hook) ∈ edges.terminals := by
  induction edges generalizing parent path with
  | nil => cases hn
  | cons id byte terminal below rest ihBelow ihRest =>
    rw [places, List.mem_cons, List.mem_append] at hn
    rcases hn with rfl | hn | hn
    · exact ⟨[byte], rfl, mem_terminals_cons.mpr (Or.inl ⟨rfl, hterminal⟩)⟩
    · obtain ⟨q, hpath, hq⟩ := ihBelow hn
      refine ⟨byte :: q, ?_, mem_terminals_cons.mpr (Or.inr (Or.inl ⟨q, rfl, hq⟩))⟩
      rw [hpath, List.append_assoc, List.singleton_append]
    · obtain ⟨q, hpath, hq⟩ := ihRest hn
      exact ⟨q, hpath, mem_terminals_cons.mpr (Or.inr (Or.inr hq))⟩

/-- The end of a single path is a node with the hook and without edges. -/
theorem exists_place_of_soleLeaf (parent : NodeId) (path : List UInt8)
    (h : edges.soleLeaf = some leaf) :
    ∃ n ∈ edges.places parent path, n.id = leaf.id ∧ n.terminal = some leaf.hook ∧
      n.path = path ++ leaf.suffix ∧ n.below = nil := by
  induction edges generalizing parent path leaf with
  | nil => cases h
  | cons id byte terminal below rest ihBelow ihRest =>
    obtain ⟨rfl, ⟨hook, rfl, rfl, rfl⟩ | ⟨rfl, inner, hinner, rfl⟩⟩ := soleLeaf_cons h
    · exact ⟨_, List.mem_cons_self, rfl, rfl, rfl, rfl⟩
    · obtain ⟨n, hn, hid, hterminal, hpath, hend⟩ := ihBelow id (path ++ [byte]) hinner
      refine ⟨n, List.mem_cons_of_mem _ (List.mem_append_left _ hn), hid, hterminal, ?_, hend⟩
      rw [hpath, List.append_assoc, List.singleton_append]

theorem path_of_mem_heads (h : n ∈ edges.heads parent path) :
    ∃ byte, n.path = path ++ [byte] := by
  induction edges with
  | nil => cases h
  | cons id byte terminal below rest ihBelow ihRest =>
    rcases List.mem_cons.mp h with rfl | hrest
    · exact ⟨byte, rfl⟩
    · exact ihRest hrest

/-- Going from sibling to sibling passes a node and the siblings after it. -/
theorem walk_of_mem_heads (hnext : ∀ m ∈ edges.heads parent path, next m.id = m.nextSibling)
    (hn : n ∈ edges.heads parent path) : Walk next n.id (n.id :: n.later.ids) := by
  induction edges generalizing n with
  | nil => cases hn
  | cons id byte terminal below rest ihBelow ihRest =>
    have hrest : ∀ m ∈ rest.heads parent path, next m.id = m.nextSibling :=
      fun m hm => hnext m (List.mem_cons_of_mem _ hm)
    rcases List.mem_cons.mp hn with rfl | hn
    · have hfirst := hnext _ List.mem_cons_self
      cases rest with
      | nil => exact .stop hfirst
      | cons id' byte' terminal' below' rest' =>
        exact .step hfirst (ihRest hrest List.mem_cons_self)
    · exact ihRest hrest hn

end Edges

namespace Trie

def parent? (t : Trie) (id : NodeId) : Option NodeId := (t.node? id).bind Node.parent

def byte? (t : Trie) (id : NodeId) : Option UInt8 := (t.node? id).bind Node.byte

def nextSibling? (t : Trie) (id : NodeId) : Option NodeId := (t.node? id).bind Node.nextSibling

/-- Keys, depths, parents and siblings of the nodes of a trie fit together. -/
structure Coherent (t : Trie) : Prop where
  key_of_find : ∀ key id, t.find? key = some id →
    ∃ n, t.node? id = some n ∧ n.key = key ∧ n.depth = (Text.bytes key).length
  find_key : ∀ id n, t.node? id = some n → Text.IsUtf8 n.path →
    t.find? n.key = some id ∧ Text.bytes n.key = n.path
  spelled : ∀ id n, t.node? id = some n → n.terminal.isSome → Text.IsUtf8 n.path
  /-- The node whose key is compared at once has a text of its own. -/
  target_spelled : ∀ id n target, t.node? id = some n → n.collapseTarget = some target →
    ∃ m, t.node? target = some m ∧ m.terminal.isSome ∧ Text.IsUtf8 m.path
  /-- Going from parent to parent ends at the root, is as long as the node is deep, and passes the
  bytes of the path from the last one to the first. -/
  upward : ∀ id n, t.node? id = some n →
    ∃ passed, (∀ walked, Walk t.parent? id walked ↔ walked = passed) ∧
      passed.getLast? = some root ∧ passed.length = n.depth + 1 ∧
      passed.filterMap t.byte? = n.path.reverse
  /-- Going from the first child to the next ones passes each child once, in stored order. -/
  onward : ∀ id n first, t.node? id = some n → n.children.head? = some first →
    (∀ walked, Walk t.nextSibling? first walked ↔ walked = n.children) ∧ n.children.Nodup
  remaining : ∀ id n, t.node? id = some n →
    ∃ passed, (∀ walked, Walk t.nextSibling? id walked ↔ walked = passed) ∧
      passed.length = n.remainingSiblings + 1

variable {t : Trie} {n p m : Node} {key : String} {id : NodeId}

section Down

/-- A text leads to the node with its bytes. -/
theorem Regular.find?_eq_some_iff (ht : t.Regular) :
    t.find? key = some id ↔ ∃ n, t.node? id = some n ∧ n.path = Text.bytes key := by
  constructor
  · intro h
    by_cases hkey : key = ""
    · subst hkey
      obtain rfl := Option.some.inj h
      exact ⟨t.rootNode, rfl, rfl⟩
    · rw [find?_eq t hkey] at h
      obtain ⟨n, hn, hid, hpath⟩ := Edges.exists_place_of_find? root [] h
      exact ⟨n, ht.node?_eq_some.mpr ⟨List.mem_cons_of_mem _ hn, hid⟩, hpath⟩
  · rintro ⟨n, hn, hpath⟩
    obtain ⟨hplace, rfl⟩ := ht.node?_eq_some.mp hn
    rcases List.mem_cons.mp hplace with rfl | hinner
    · rw [Text.bytes_eq_nil_iff.mp hpath.symm]
      rfl
    · obtain ⟨b, q, hq, hfind⟩ := ht.edges_regular.find?_of_mem_places hinner
      have hbytes : Text.bytes key = b :: q := hpath.symm.trans hq
      have hkey : key ≠ "" := by
        intro hempty
        rw [Text.bytes_eq_nil_iff.mpr hempty] at hbytes
        cases hbytes
      rw [find?_eq t hkey, hbytes, hfind]

theorem Regular.isUtf8_path (ht : t.Regular) (hn : n ∈ t.places) (hhook : n.terminal.isSome) :
    Text.IsUtf8 n.path := by
  rcases List.mem_cons.mp hn with rfl | hinner
  · cases hhook
  · obtain ⟨hook, hterminal⟩ := Option.isSome_iff_exists.mp hhook
    obtain ⟨q, hpath, hq⟩ := Edges.exists_terminal_of_mem_places hinner hterminal
    rw [hpath]
    exact Text.isUtf8_iff.mpr (ht.spelled q hook hq)

/-- What is below a node is in the trie. -/
theorem mem_places_below (hp : p ∈ t.places) (h : n ∈ p.below.places p.id p.path) :
    n ∈ t.places := by
  rcases List.mem_cons.mp hp with rfl | hinner
  · exact List.mem_cons_of_mem _ h
  · exact List.mem_cons_of_mem _ (Edges.mem_places_below hinner h)

theorem exists_place_of_collapseTarget {target : NodeId} (hn : n ∈ t.places)
    (h : n.collapseTarget = some target) :
    ∃ m ∈ t.places, m.id = target ∧ m.terminal.isSome := by
  rw [Node.collapseTarget] at h
  split at h
  · cases h
  · obtain ⟨leaf, hleaf, rfl⟩ := Option.map_eq_some_iff.mp h
    obtain ⟨m, hm, hid, hterminal, -⟩ :=
      Edges.exists_place_of_soleLeaf n.id n.path hleaf
    exact ⟨m, mem_places_below hn hm, hid, Option.isSome_of_eq_some hterminal⟩

end Down

section Walks

/-- Going up from a node ends at the root and passes the bytes of its path. -/
theorem Regular.exists_walk_up (ht : t.Regular) (hn : n ∈ t.places) :
    ∃ passed, Walk t.parent? n.id passed ∧ passed.getLast? = some root ∧
      passed.length = n.depth + 1 ∧
      passed.filterMap t.byte? = n.path.reverse := by
  induction hlength : n.path.length generalizing n with
  | zero =>
    rcases mem_places_iff.mp hn with rfl | ⟨p, -, hhead⟩
    · exact ⟨[root], .stop rfl, rfl, rfl, rfl⟩
    · obtain ⟨byte, hpath⟩ := Edges.path_of_mem_heads hhead
      rw [hpath, List.length_append] at hlength
      cases hlength
  | succ k ih =>
    rcases mem_places_iff.mp hn with rfl | ⟨p, hp, hhead⟩
    · cases hlength
    · obtain ⟨byte, hpath⟩ := Edges.path_of_mem_heads hhead
      have hshorter : p.path.length = k := by
        rw [hpath, List.length_append] at hlength
        exact Nat.succ.inj hlength
      obtain ⟨passed, hwalk, hlast, hdepth, hbytes⟩ := ih hp hshorter
      have hfound : t.node? n.id = some n := ht.node?_eq_some.mpr ⟨hn, rfl⟩
      have hparent : t.parent? n.id = some p.id := by
        rw [parent?, hfound]
        exact Edges.parent_of_mem_heads hhead
      have hbyte : t.byte? n.id = some byte := by
        rw [byte?, hfound, Option.bind_some, Node.byte, hpath, List.getLast?_concat]
      refine ⟨n.id :: passed, .step hparent hwalk, ?_, ?_, ?_⟩
      · rw [List.getLast?_cons, hlast]
        rfl
      · rw [List.length_cons, hdepth, Node.depth, Node.depth, hpath, List.length_append,
          List.length_singleton]
      · rw [List.filterMap_cons_some hbyte, hbytes, hpath, List.reverse_append,
          List.reverse_singleton, List.singleton_append]

theorem Regular.nextSibling?_eq (ht : t.Regular) (hn : n ∈ t.places) :
    t.nextSibling? n.id = n.nextSibling := by
  rw [nextSibling?, ht.node?_eq_some.mpr ⟨hn, rfl⟩, Option.bind_some]

/-- Going from sibling to sibling passes the node and the siblings after it. -/
theorem Regular.walk_onward (ht : t.Regular) (hn : n ∈ t.places) :
    Walk t.nextSibling? n.id (n.id :: n.later.ids) := by
  rcases mem_places_iff.mp hn with rfl | ⟨p, hp, hhead⟩
  · exact .stop rfl
  · apply Edges.walk_of_mem_heads (fun m hm => ?_) hhead
    exact ht.nextSibling?_eq (mem_places_iff.mpr (Or.inr ⟨p, hp, hm⟩))

/-- Going on from the first child passes all children. -/
theorem Regular.walk_children (ht : t.Regular) (hp : p ∈ t.places) {first : NodeId}
    (hfirst : p.children.head? = some first) : Walk t.nextSibling? first p.children := by
  cases hedges : p.below with
  | nil =>
    rw [Node.children, hedges] at hfirst
    cases hfirst
  | cons id byte terminal below rest =>
    rw [Node.children, hedges] at hfirst ⊢
    obtain rfl := Option.some.inj hfirst
    have hhead : ⟨id, some p.id, p.path ++ [byte], terminal, below, rest⟩ ∈
        p.below.heads p.id p.path := by
      rw [hedges]
      exact List.mem_cons_self
    exact ht.walk_onward (mem_places_iff.mpr (Or.inr ⟨p, hp, hhead⟩))

end Walks

theorem Regular.coherent (ht : t.Regular) : t.Coherent where
  key_of_find := by
    intro key id h
    obtain ⟨n, hn, hpath⟩ := ht.find?_eq_some_iff.mp h
    refine ⟨n, hn, ?_, ?_⟩
    · rw [Node.key, hpath, Text.showBytes_bytes]
    · rw [Node.depth, hpath]
  find_key := by
    intro id n hn hpath
    have hbytes : Text.bytes n.key = n.path := Text.bytes_showBytes hpath
    exact ⟨ht.find?_eq_some_iff.mpr ⟨n, hn, hbytes.symm⟩, hbytes⟩
  spelled := by
    intro id n hn hhook
    exact ht.isUtf8_path (ht.node?_eq_some.mp hn).1 hhook
  target_spelled := by
    intro id n target hn htarget
    obtain ⟨m, hm, hid, hhook⟩ :=
      exists_place_of_collapseTarget (ht.node?_eq_some.mp hn).1 htarget
    exact ⟨m, ht.node?_eq_some.mpr ⟨hm, hid⟩, hhook, ht.isUtf8_path hm hhook⟩
  upward := by
    intro id n hn
    obtain ⟨hplace, rfl⟩ := ht.node?_eq_some.mp hn
    obtain ⟨passed, hwalk, hrest⟩ := ht.exists_walk_up hplace
    exact ⟨passed, hwalk.iff_eq, hrest⟩
  onward := by
    intro id n first hn hfirst
    obtain ⟨hplace, rfl⟩ := ht.node?_eq_some.mp hn
    exact ⟨(ht.walk_children hplace hfirst).iff_eq, ht.nodup_children hplace⟩
  remaining := by
    intro id n hn
    obtain ⟨hplace, rfl⟩ := ht.node?_eq_some.mp hn
    exact ⟨n.id :: n.later.ids, (ht.walk_onward hplace).iff_eq, rfl⟩

/-- After any insertions into an empty trie its nodes are found and left as their keys, depths,
parents and siblings tell. -/
theorem coherent_insertEach (keys : List (String × MethodId)) :
    (Trie.empty.insertEach keys).Coherent :=
  (Reachable.empty.insertEach keys).regular.coherent

end Trie

end HookDispatch
