import HookDispatch.Proofs.FirstWins
import HookDispatch.Trie.NodeStore

/-!
The nodes of a trie in a store. What is stored for an edge group is read off the group: every edge
has its node under its number, with the parent and the children by their indices. Inserting a path
changes the children of one node and the hook of another, adds new nodes at the end and leaves all
other nodes as they are.
-/
namespace HookDispatch.NodeStore

/-- The nodes of an edge group and below it are stored below a parent. Their first operations are
given by their numbers. -/
def Represents (s : NodeStore) (ops : NodeId → Option Label) (parent : NodeId) : Edges → Prop
  | .nil => True
  | .cons id byte terminal below rest =>
    s.nodes[id]? = some
        { byte := some byte, terminal, children := below.ids.map .ofNat,
          parent := some (.ofNat parent), firstOp := ops id } ∧
      Represents s ops id below ∧ Represents s ops parent rest

variable {s s' : NodeStore} {ops : NodeId → Option Label} {parent here : NodeId} {edges : Edges}
  {path : List UInt8} {b : UInt8} {hook : MethodId} {n : StoredNode} {before : List NodeIndex}

/-- Only the nodes of the group count. -/
theorem Represents.congr (h : s.Represents ops parent edges)
    (hsame : ∀ i ∈ edges.numbers, s'.nodes[i]? = s.nodes[i]?) :
    s'.Represents ops parent edges := by
  induction edges generalizing parent with
  | nil => trivial
  | cons id byte terminal below rest ihBelow ihRest =>
    obtain ⟨hid, hbelow, hrest⟩ := h
    refine ⟨(hsame id List.mem_cons_self).trans hid, ?_, ?_⟩
    · exact ihBelow hbelow fun i hi =>
        hsame i (List.mem_cons_of_mem id (List.mem_append_left _ hi))
    · exact ihRest hrest fun i hi =>
        hsame i (List.mem_cons_of_mem id (List.mem_append_right _ hi))

theorem getElem?_update (id : NodeIndex) (f : StoredNode → StoredNode)
    (h : ∀ n, (f n).parent = n.parent) (i : Nat) :
    (s.update id f h).nodes[i]? = if id.toNat = i then s.nodes[i]?.map f else s.nodes[i]? :=
  Array.getElem?_modify

theorem getElem?_push (n : StoredNode) (h : ∀ p, n.parent = some p → p.toNat < s.nodes.size)
    (i : Nat) : (s.push n h).nodes[i]? = if i = s.nodes.size then some n else s.nodes[i]? :=
  Array.getElem?_push

section Growing

/-- A new child comes after the others, and its node comes after all nodes. -/
theorem pushChild_eq (hhere : s.nodes[here]? = some n) (hsize : s.nodes.size < UInt32.size)
    (b : UInt8) :
    ∃ grown, s.pushChild (.ofNat here) b = (.ofNat s.nodes.size, grown) ∧
      grown.nodes.size = s.nodes.size + 1 ∧ grown.keyCount = s.keyCount ∧
      grown.nodes[s.nodes.size]? = some { byte := some b, parent := some (.ofNat here) } ∧
      grown.nodes[here]? = some { n with children := n.children ++ [.ofNat s.nodes.size] } ∧
      ∀ i < s.nodes.size, i ≠ here → grown.nodes[i]? = s.nodes[i]? := by
  have hlt : here < s.nodes.size := (Array.getElem?_eq_some_iff.mp hhere).1
  have hindex : (NodeIndex.ofNat here).toNat = here :=
    NodeIndex.toNat_ofNat (Nat.lt_trans hlt hsize)
  rw [pushChild, dif_pos (by rwa [hindex])]
  refine ⟨_, rfl, ?_, rfl, ?_, ?_, ?_⟩
  · rw [update, Array.size_modify]
    exact Array.size_push _
  · simp [getElem?_update, getElem?_push, hindex, Nat.ne_of_lt hlt]
  · simp [getElem?_update, getElem?_push, hindex, Nat.ne_of_lt hlt, hhere]
  · intro i hi hne
    simp [getElem?_update, getElem?_push, hindex, Nat.ne_of_lt hi, Ne.symm hne]

/-- Hooking a node changes its hook if it had none, and nothing else. -/
theorem settle_eq (hhere : s.nodes[here]? = some n) (hlt : here < UInt32.size)
    (hook : MethodId) :
    (s.settle (.ofNat here) hook).nodes.size = s.nodes.size ∧
      (s.settle (.ofNat here) hook).keyCount =
        s.keyCount + (if n.terminal.isNone then 1 else 0) ∧
      (s.settle (.ofNat here) hook).nodes[here]? =
        some { n with terminal := n.terminal.or (some hook) } ∧
      ∀ i ≠ here, (s.settle (.ofNat here) hook).nodes[i]? = s.nodes[i]? := by
  have hindex : (NodeIndex.ofNat here).toNat = here := NodeIndex.toNat_ofNat hlt
  have hnode : s.node? (.ofNat here) = some n := by rw [node?, hindex, hhere]
  cases hterminal : n.terminal with
  | some old =>
    have hkept : s.settle (.ofNat here) hook = s := by
      rw [settle, hnode, Option.any_some, hterminal]
      rfl
    rw [hkept]
    refine ⟨rfl, rfl, ?_, fun _ _ => rfl⟩
    rw [hhere, Option.some_or, ← hterminal]
  | none =>
    have hhooked : s.settle (.ofNat here) hook =
        { s.update (.ofNat here) (fun n => { n with terminal := some hook }) fun _ => rfl with
          keyCount := s.keyCount + 1 } := by
      rw [settle, hnode, Option.any_some, hterminal]
      rfl
    rw [hhooked]
    refine ⟨Array.size_modify, rfl, ?_, fun i hi => ?_⟩
    · rw [getElem?_update, hindex, if_pos rfl, hhere]
      rfl
    · rw [getElem?_update, hindex, if_neg (Ne.symm hi)]

end Growing

section Picking

/-- The child with a byte is the one that the group has for it. -/
theorem pick_ids (h : s.Represents ops parent edges)
    (hlt : ∀ i ∈ edges.numbers, i < UInt32.size) (b : UInt8) :
    s.pick b (edges.ids.map .ofNat) = (edges.child? b).map .ofNat := by
  induction edges with
  | nil => rfl
  | cons id byte terminal below rest ihBelow ihRest =>
    obtain ⟨hid, -, hrest⟩ := h
    have hindex : (NodeIndex.ofNat id).toNat = id :=
      NodeIndex.toNat_ofNat (hlt id List.mem_cons_self)
    have hbyte : (s.node? (.ofNat id)).any (·.byte == some b) = decide (byte = b) := by
      rw [node?, hindex, hid, Option.any_some]
      exact Option.some_beq_some.trans (beq_eq_decide ..)
    rw [pick, Edges.ids, List.map_cons, List.find?_cons, hbyte, Edges.child?]
    by_cases hb : byte = b
    · rw [if_pos hb, decide_eq_true hb]
      rfl
    · rw [if_neg hb, decide_eq_false hb]
      exact ihRest hrest fun i hi => hlt i (List.mem_cons_of_mem id (List.mem_append_right _ hi))

theorem pick_append (s : NodeStore) (b : UInt8) (before after : List NodeIndex) :
    s.pick b (before ++ after) = (s.pick b before).or (s.pick b after) :=
  List.find?_append

end Picking

/-- An edge group is stored below a node, each of its nodes in a place of its own. -/
structure Stands (s : NodeStore) (ops : NodeId → Option Label) (here : NodeId) (edges : Edges) :
    Prop where
  represents : s.Represents ops here edges
  nodup : (here :: edges.numbers).Nodup
  lt : ∀ i ∈ here :: edges.numbers, i < s.nodes.size

/-- A path was inserted below `here`, whose children are some others and then those of a group. -/
structure Inserted (s s' : NodeStore) (ops : NodeId → Option Label) (here : NodeId) (n : StoredNode)
    (before : List NodeIndex) (edges edges' : Edges) : Prop where
  here_eq : s'.nodes[here]? = some { n with children := before ++ edges'.ids.map .ofNat }
  represents : s'.Represents ops here edges'
  kept : ∀ i < s.nodes.size, i ∉ here :: edges.numbers → s'.nodes[i]? = s.nodes[i]?

section Stands
variable {id : NodeId} {byte : UInt8} {terminal : Option MethodId} {below rest edges' : Edges}

theorem Stands.inner (h : s.Stands ops here (.cons id byte terminal below rest)) :
    s.Stands ops id below where
  represents := h.represents.2.1
  nodup := ((List.sublist_append_left below.numbers rest.numbers).cons_cons id).nodup
    (List.nodup_cons.mp h.nodup).2
  lt := by
    intro i hi
    refine h.lt i (List.mem_cons_of_mem here ?_)
    exact ((List.sublist_append_left below.numbers rest.numbers).cons_cons id).subset hi

theorem Stands.later (h : s.Stands ops here (.cons id byte terminal below rest)) :
    s.Stands ops here rest where
  represents := h.represents.2.2
  nodup := (((List.sublist_append_right below.numbers rest.numbers).cons id).cons_cons here).nodup
    h.nodup
  lt := fun i hi => h.lt i
    ((((List.sublist_append_right below.numbers rest.numbers).cons id).cons_cons here).subset hi)

/-- The nodes in and below one edge are apart from the parent and from the other edges. -/
theorem Stands.apart (h : s.Stands ops here (.cons id byte terminal below rest)) {i : Nat}
    (hi : i ∈ id :: below.numbers) : i ∉ here :: rest.numbers := by
  have hnodup := h.nodup
  rw [Edges.numbers, ← List.cons_append, List.nodup_cons, List.nodup_append] at hnodup
  obtain ⟨hhere, -, -, hapart⟩ := hnodup
  rintro (_ | ⟨_, hrest⟩)
  · exact hhere (List.mem_append_left _ hi)
  · exact hapart i hi i hrest rfl

theorem Inserted.of_below (h : s.Stands ops here (.cons id byte terminal below rest))
    (hhere : s.nodes[here]? = some n)
    (hchildren : n.children = before ++ .ofNat id :: rest.ids.map .ofNat)
    (hinserted : Inserted s s' ops id
      { byte := some byte, terminal, children := below.ids.map .ofNat,
        parent := some (.ofNat here), firstOp := ops id } [] below edges') :
    Inserted s s' ops here n before (.cons id byte terminal below rest)
      (.cons id byte terminal edges' rest) := by
  have hother : ∀ i ∈ here :: rest.numbers, s'.nodes[i]? = s.nodes[i]? := fun i hi =>
    hinserted.kept i (h.later.lt i hi) fun hmem => h.apart hmem hi
  refine ⟨?_, ⟨hinserted.here_eq, hinserted.represents, ?_⟩, fun i hi hmem => ?_⟩
  · rw [hother here List.mem_cons_self, hhere, Edges.ids, List.map_cons, ← hchildren]
  · exact h.represents.2.2.congr fun i hi => hother i (List.mem_cons_of_mem here hi)
  · refine hinserted.kept i hi fun hbelow => hmem (List.mem_cons_of_mem here ?_)
    exact List.mem_append_left rest.numbers hbelow

theorem Inserted.of_rest (h : s.Stands ops here (.cons id byte terminal below rest))
    (hinserted : Inserted s s' ops here n (before ++ [.ofNat id]) rest edges') :
    Inserted s s' ops here n before (.cons id byte terminal below rest)
      (.cons id byte terminal below edges') := by
  have hother : ∀ i ∈ id :: below.numbers, s'.nodes[i]? = s.nodes[i]? := fun i hi =>
    hinserted.kept i (h.inner.lt i hi) (h.apart hi)
  refine ⟨?_, ⟨?_, ?_, hinserted.represents⟩, fun i hi hmem => hinserted.kept i hi ?_⟩
  · rw [hinserted.here_eq, List.append_assoc]
    rfl
  · rw [hother id List.mem_cons_self]
    exact h.represents.1
  · exact h.represents.2.1.congr fun i hi => hother i (List.mem_cons_of_mem id hi)
  · intro hrest
    exact hmem (((List.sublist_append_right below.numbers rest.numbers).cons id).cons_cons here
      |>.subset hrest)

/-- A path ends at the node of an edge. -/
theorem inserted_settle (h : s.Stands ops here (.cons id byte terminal below rest))
    (hhere : s.nodes[here]? = some n)
    (hchildren : n.children = before ++ .ofNat id :: rest.ids.map .ofNat)
    (hlt : id < UInt32.size) (hook : MethodId) :
    Inserted s (s.settle (.ofNat id) hook) ops here n before (.cons id byte terminal below rest)
      (.cons id byte (terminal.or (some hook)) below rest) := by
  obtain ⟨-, -, hend, hother⟩ := settle_eq h.represents.1 hlt hook
  have hid : ∀ i ∈ below.numbers, i ≠ id := by
    rintro i hi rfl
    exact (List.nodup_cons.mp h.inner.nodup).1 hi
  have hapart : ∀ i ∈ here :: rest.numbers, i ≠ id := by
    rintro i hi rfl
    exact h.apart List.mem_cons_self hi
  refine ⟨?_, ⟨hend, ?_, ?_⟩, fun i hi hmem => hother i ?_⟩
  · rw [hother here (hapart here List.mem_cons_self), hhere, Edges.ids, List.map_cons, ← hchildren]
  · exact h.represents.2.1.congr fun i hi => hother i (hid i hi)
  · exact h.represents.2.2.congr fun i hi => hother i (hapart i (List.mem_cons_of_mem here hi))
  · rintro rfl
    exact hmem (List.mem_cons_of_mem here List.mem_cons_self)

end Stands

section Inserting

theorem child?_eq (hhere : s.nodes[here]? = some n) (hlt : here < UInt32.size) (b : UInt8) :
    s.child? (.ofNat here) b = s.pick b n.children := by
  rw [child?, node?, NodeIndex.toNat_ofNat hlt, hhere, Option.bind_some]

variable (hook) in
/-- Where there is no child with the first byte, the whole path is new. -/
theorem inserted_chain (hhere : s.nodes[here]? = some n) (hpick : s.pick b n.children = none)
    (hsize : s.nodes.size + (b :: path).length ≤ UInt32.size)
    (hops : ∀ i, s.nodes.size ≤ i → ops i = none) :
    ∃ s', insertFrom hook s (.ofNat here) (b :: path) =
        (.ofNat (s.nodes.size + path.length), s') ∧
      s'.nodes.size = s.nodes.size + (b :: path).length ∧ s'.keyCount = s.keyCount + 1 ∧
      Inserted s s' ops here n n.children .nil (Edges.chain s.nodes.size hook (b :: path)) := by
  induction path generalizing s here n b with
  | nil =>
    rw [List.length_singleton] at hsize
    have hlt : s.nodes.size < UInt32.size := hsize
    have hbefore : here < s.nodes.size := (Array.getElem?_eq_some_iff.mp hhere).1
    obtain ⟨grown, hpush, hgrown, hkeys, hnew, hhere', hkept⟩ := pushChild_eq hhere hlt b
    obtain ⟨hsettled, hkeys', hend, hother⟩ := settle_eq hnew hlt hook
    rw [insertFrom, child?_eq hhere (Nat.lt_trans hbefore hlt) b, hpick]
    simp only [hpush, insertFrom]
    refine ⟨_, rfl, hsettled.trans hgrown, hkeys'.trans (by rw [hkeys]; rfl), ?_, ?_, ?_⟩
    · exact (hother here (Nat.ne_of_lt hbefore)).trans hhere'
    · rw [Edges.chain, if_pos rfl, Represents, hend, hops _ (Nat.le_refl _)]
      exact ⟨rfl, trivial, trivial⟩
    · intro i hi hmem
      exact (hother i (Nat.ne_of_lt hi)).trans (hkept i hi (List.ne_of_not_mem_cons hmem))
  | cons c path ih =>
    rw [List.length_cons] at hsize
    have hlt : s.nodes.size < UInt32.size := by omega
    have hbefore : here < s.nodes.size := (Array.getElem?_eq_some_iff.mp hhere).1
    obtain ⟨grown, hpush, hgrown, hkeys, hnew, hhere', hkept⟩ := pushChild_eq hhere hlt b
    obtain ⟨s', hinsert, hsize', hkeys', hinserted⟩ := ih (b := c) hnew rfl (by omega) fun i hi =>
      hops i (by omega)
    rw [hgrown] at hinsert hsize' hinserted
    rw [insertFrom, child?_eq hhere (Nat.lt_trans hbefore hlt) b, hpick]
    simp only [hpush, hinsert]
    refine ⟨s', ?_, ?_, by rw [hkeys', hkeys], ?_, ?_, ?_⟩
    · rw [List.length_cons, Nat.add_assoc, Nat.add_comm 1]
    · rw [hsize', List.length_cons (a := b), Nat.add_assoc, Nat.add_comm 1]
    · have hstored : here < grown.nodes.size := hgrown ▸ Nat.lt_succ_of_lt hbefore
      have hother : here ∉ [s.nodes.size] := by simp [Nat.ne_of_lt hbefore]
      exact (hinserted.kept here hstored hother).trans hhere'
    · rw [Edges.chain, if_neg (List.cons_ne_nil c path), Represents, hinserted.here_eq,
        hops _ (Nat.le_refl _)]
      exact ⟨rfl, hinserted.represents, trivial⟩
    · intro i hi hmem
      have hother : i ∉ [s.nodes.size] := by simp [Nat.ne_of_lt hi]
      exact (hinserted.kept i (by omega) hother).trans (hkept i hi (List.ne_of_not_mem_cons hmem))

variable (hook) in
/-- A path is inserted below a node as it is inserted into the group of the node. The induction is
on the group, so some children may stand before it; none of them has the first byte of the path. -/
theorem inserted_group (hhere : s.nodes[here]? = some n)
    (hchildren : n.children = before ++ edges.ids.map .ofNat) (hpick : s.pick b before = none)
    (h : s.Stands ops here edges)
    (hsize : s.nodes.size + edges.missing (b :: path) ≤ UInt32.size)
    (hops : ∀ i, s.nodes.size ≤ i → ops i = none) :
    ∃ s', insertFrom hook s (.ofNat here) (b :: path) =
        (.ofNat (edges.landing s.nodes.size here (b :: path)), s') ∧
      s'.nodes.size = s.nodes.size + edges.missing (b :: path) ∧
      s'.keyCount = s.keyCount + (if (edges.get? (b :: path)).isNone then 1 else 0) ∧
      Inserted s s' ops here n before edges (edges.insert s.nodes.size hook (b :: path)) := by
  induction edges generalizing here n before b path with
  | nil =>
    rw [Edges.ids, List.map_nil, List.append_nil] at hchildren
    obtain ⟨s', hinsert, hsize', hkeys, hinserted⟩ :=
      inserted_chain hook hhere (by rw [hchildren, hpick]) hsize hops
    rw [hchildren] at hinserted
    refine ⟨s', hinsert, hsize', ?_, hinserted⟩
    rw [hkeys, Edges.get?_nil]
    rfl
  | cons id byte terminal below rest ihBelow ihRest =>
    have hbound : ∀ i ∈ here :: (Edges.cons id byte terminal below rest).numbers,
        i < UInt32.size := fun i hi =>
      Nat.lt_of_lt_of_le (h.lt i hi) (Nat.le_of_add_right_le hsize)
    have hpickGroup := pick_ids h.represents fun i hi => hbound i (List.mem_cons_of_mem here hi)
    by_cases hb : byte = b
    · subst hb
      have hchild : s.child? (.ofNat here) byte = some (.ofNat id) := by
        rw [child?_eq hhere (hbound here List.mem_cons_self), hchildren, pick_append, hpick,
          hpickGroup, Edges.child?, if_pos rfl]
        rfl
      rw [Edges.missing, if_pos rfl] at hsize ⊢
      rw [insertFrom, hchild, Edges.landing, if_pos rfl, Edges.insert, if_pos rfl]
      cases path with
      | nil =>
        have hid := hbound id (List.mem_cons_of_mem here List.mem_cons_self)
        obtain ⟨hsize', hkeys, -, -⟩ := settle_eq h.represents.1 hid hook
        rw [Edges.get?_cons_end, Edges.insert_nil_path, Edges.missing_nil_path, if_pos rfl]
        have hlanding : below.landing s.nodes.size id [] = id := by cases below <;> rfl
        refine ⟨_, ?_, hsize', hkeys, inserted_settle h hhere hchildren hid hook⟩
        rw [hlanding]
        rfl
      | cons c path =>
        rw [Edges.get?_cons_below (List.cons_ne_nil c path), if_neg (List.cons_ne_nil c path)]
        obtain ⟨s', hinsert, hsize', hkeys, hinserted⟩ :=
          ihBelow h.represents.1 (List.nil_append _).symm rfl h.inner hsize
        exact ⟨s', hinsert, hsize', hkeys, hinserted.of_below h hhere hchildren⟩
    · have hsub : (Edges.cons id byte terminal below .nil).numbers.Sublist
          (here :: (Edges.cons id byte terminal below rest).numbers) :=
        (((List.nil_sublist rest.numbers).append_left below.numbers).cons_cons id).cons here
      have hpick' : s.pick b (before ++ [.ofNat id]) = none := by
        have hfirst : s.Represents ops here (.cons id byte terminal below .nil) :=
          ⟨h.represents.1, h.represents.2.1, trivial⟩
        have hnone := pick_ids hfirst (fun i hi => hbound i (hsub.subset hi)) b
        rw [Edges.child?, if_neg hb] at hnone
        rw [pick_append, hpick]
        exact hnone
      rw [Edges.missing, if_neg hb] at hsize ⊢
      rw [Edges.landing, if_neg hb, Edges.insert, if_neg hb, Edges.get?_cons_rest hb]
      obtain ⟨s', hinsert, hsize', hkeys, hinserted⟩ :=
        ihRest hhere (by rw [hchildren, List.append_assoc]; rfl) hpick' h.later hsize
      exact ⟨s', hinsert, hsize', hkeys, hinserted.of_rest h⟩

end Inserting

end HookDispatch.NodeStore
