import HookDispatch.Proofs.NodeArena
import HookDispatch.Proofs.Program.Layout
import HookDispatch.Proofs.Specimen

/-!
Compiling a trie again and again. A compilation marks the nodes that it enters, and where a later
one does not come the marks stay. None of them is ever read: a branch goes to a node only if the
same pass enters that node. So a trie that was used in any way is compiled like one that has its
keys and no marks.
-/
namespace HookDispatch

/-- An entered node has the mark of this pass, whatever marks there were. -/
theorem Trie.firstOp?_mark_of_entry (t u : Trie) {items : List Item} {id : NodeId}
    (h : .entry id ∈ items) :
    (t.mark (entryMarks items)).firstOp? id = (u.mark (entryMarks items)).firstOp? id := by
  obtain ⟨i, hi⟩ := List.mem_iff_getElem?.mp h
  have hmem : (id, Label.ofNat i) ∈ (entryMarks items).reverse :=
    List.mem_reverse.mpr (mem_entryMarks.mpr ⟨i, hi, rfl⟩)
  have hsome : ((entryMarks items).reverse.find? (·.1 == id)).isSome := by
    rw [List.find?_isSome]
    exact ⟨_, hmem, beq_self_eq_true id⟩
  obtain ⟨entry, hentry⟩ := Option.isSome_iff_exists.mp hsome
  rw [firstOp?_mark_eq, firstOp?_mark_eq, hentry]
  rfl

/-- Patching reads the destinations of the queued branches only. -/
theorem PendingJump.patchAll_congr {f g : NodeId → Option Label} {epilogue : Label}
    {queue : List PendingJump} (h : ∀ jump ∈ queue, jump.destination f epilogue =
      jump.destination g epilogue) (ops : Array Operation) :
    patchAll f epilogue queue ops = patchAll g epilogue queue ops := by
  induction queue generalizing ops with
  | nil => rfl
  | cons jump queue ih =>
    have hpatch : jump.patch f epilogue ops = jump.patch g epilogue ops := by
      rw [patch, patch, h jump List.mem_cons_self]
    rw [patchAll, patchAll, hpatch]
    split
    · rfl
    · exact ih (fun later hmem => h later (List.mem_cons_of_mem jump hmem)) _

theorem mem_pendingJumps {items : List Item} {jump : PendingJump} (h : jump ∈ pendingJumps items) :
    ∃ c, .jump c jump.target ∈ items := by
  rw [pendingJumps, List.mem_filterMap] at h
  obtain ⟨⟨item, i⟩, hmem, heq⟩ := h
  have hitem := List.mem_of_getElem? (List.mem_zipIdx_iff_getElem?.mp hmem)
  cases item with
  | plain op => cases heq
  | entry id => cases heq
  | jump c target =>
    cases heq
    exact ⟨c, hitem⟩

namespace Trie

/-- Marks of earlier passes are not read when wired items are linked. -/
theorem link_mark_congr (t u : Trie) (r : Registry) (typeName : String) {items : List Item}
    (h : Wired items) :
    (t.mark (entryMarks items)).link r typeName items =
      (u.mark (entryMarks items)).link r typeName items := by
  have hsame : ∀ jump ∈ pendingJumps items, ∀ epilogue,
      jump.destination (t.mark (entryMarks items)).firstOp? epilogue =
        jump.destination (u.mark (entryMarks items)).firstOp? epilogue := by
    rintro ⟨op, target⟩ hjump epilogue
    obtain ⟨c, hmem⟩ := mem_pendingJumps hjump
    cases target with
    | epilogue => rfl
    | node id =>
      -- The node is entered after the branch, so this pass marks it.
      obtain ⟨i, hi⟩ := List.mem_iff_getElem?.mp hmem
      obtain ⟨j, -, hj⟩ := h.exists_entry hi
      rw [PendingJump.destination, PendingJump.destination]
      simp only [firstOp?_mark_of_entry t u (List.mem_of_getElem? hj)]
  rw [link, link, resolveJumps, resolveJumps,
    PendingJump.patchAll_congr fun jump hjump => hsame jump hjump _]

def unmarked (t : Trie) : Trie := { t with marks := [] }

/-- A trie is compiled as if it had no marks. -/
theorem compile_unmarked (t : Trie) (r : Registry) (collapse : Bool) (typeName : String) :
    (t.unmarked.compile r collapse typeName).2 = (t.compile r collapse typeName).2 := by
  have hemit : t.unmarked.emit r collapse = t.emit r collapse := rfl
  rw [compile, compile, hemit]
  cases hfault : (t.emit r collapse).fault? with
  | some e => rfl
  | none =>
    obtain ⟨group, hemitted, hitems⟩ := items_emit hfault
    simp only [hitems]
    exact link_mark_congr _ _ r typeName (wired_methodItems hemitted)

theorem unmarked_compile (t : Trie) (r : Registry) (collapse : Bool) (typeName : String) :
    (t.compile r collapse typeName).1.unmarked = t.unmarked := by
  rw [compile]
  split <;> rfl

theorem insert_unmarked (t : Trie) (key : String) (hook : MethodId) :
    t.unmarked.insert key hook = (t.insert key hook).map unmarked := by
  rw [insert, insert]
  split <;> rfl

/-- Inserting a key keeps all marks. -/
theorem firstOp?_enter (t : Trie) (key : String) (hook : MethodId) (id : NodeId) :
    (t.enter key hook).2.firstOp? id = t.firstOp? id := by
  rw [enter]
  cases hinsert : t.insert key hook with
  | error e => rfl
  | ok grown =>
    rw [insert] at hinsert
    split at hinsert
    · cases hinsert
    · cases hinsert
      rfl

inductive Use where
  | insert (key : String) (hook : MethodId)
  | compile (r : Registry) (collapse : Bool) (typeName : String)

def use (t : Trie) : Use → Trie
  | .insert key hook => (t.enter key hook).2
  | .compile r collapse typeName => (t.compile r collapse typeName).1

def ofUses (uses : List Use) : Trie := uses.foldl use .empty

def inserted (t : Trie) : List Use → List (String × MethodId)
  | [] => []
  | .insert key hook :: uses =>
    match t.insert key hook with
    | .error _ => t.inserted uses
    | .ok grown => (key, hook) :: grown.inserted uses
  | .compile r collapse typeName :: uses => (t.compile r collapse typeName).1.inserted uses

/-- Without marks a used trie is the trie of the keys that were not refused. -/
theorem insertAll_inserted (t : Trie) (uses : List Use) :
    t.unmarked.insertAll (t.inserted uses) = .ok (uses.foldl use t).unmarked := by
  induction uses generalizing t with
  | nil => rfl
  | cons first uses ih =>
    rw [List.foldl_cons]
    cases first with
    | compile r collapse typeName =>
      rw [inserted, use, ← ih, unmarked_compile]
    | insert key hook =>
      rw [inserted, use, enter]
      cases hinsert : t.insert key hook with
      | error e => exact ih t
      | ok grown =>
        rw [insertAll, insert_unmarked, hinsert]
        exact ih grown

theorem Reachable.foldl_use {t : Trie} (ht : t.Reachable) (uses : List Use) :
    (uses.foldl use t).Reachable := by
  induction uses generalizing t with
  | nil => exact ht
  | cons first uses ih =>
    rw [List.foldl_cons]
    apply ih
    cases first with
    | compile r collapse typeName => exact ht.compile r collapse typeName
    | insert key hook =>
      rw [use, enter]
      cases hinsert : t.insert key hook with
      | error e => exact ht
      | ok grown => exact ht.insert hinsert

end Trie

/-- The entered nodes are among the given ones, and each is entered to test its own byte. -/
def TestsOf (nodes : List Node) (items : List Item) : Prop :=
  ∀ id, .entry id ∈ items → ∃ n ∈ nodes, n.id = id ∧
    ∃ byte, n.byte = some byte ∧ [.entry id, .plain (.compareByte byte)] <:+: items

namespace TestsOf

variable {nodes nodes' : List Node} {items items' : List Item}

theorem append (h : TestsOf nodes items) (h' : TestsOf nodes' items') :
    TestsOf (nodes ++ nodes') (items ++ items') := by
  intro id hentry
  rcases List.mem_append.mp hentry with hentry | hentry
  · obtain ⟨n, hn, hid, byte, hbyte, htest⟩ := h id hentry
    exact ⟨n, List.mem_append_left _ hn, hid, byte, hbyte,
      htest.trans (List.prefix_append _ _).isInfix⟩
  · obtain ⟨n, hn, hid, byte, hbyte, htest⟩ := h' id hentry
    exact ⟨n, List.mem_append_right _ hn, hid, byte, hbyte,
      htest.trans (List.suffix_append _ _).isInfix⟩

theorem of_no_entry (h : ∀ item ∈ items, item.node? = none) : TestsOf [] items := by
  intro id hentry
  cases h _ hentry

theorem callItems (m : Method) (hook : MethodId) : TestsOf [] (m.callItems hook) := by
  apply of_no_entry
  intro item hitem
  obtain ⟨op, -, rfl⟩ := mem_callItems hitem
  rfl

theorem testItems {n : Node} {byte : UInt8} (hbyte : n.byte = some byte) (rest : Edges) :
    TestsOf [n] (Edges.testItems n.id byte rest) := by
  intro id hentry
  have hid : id = n.id := by simpa [Edges.testItems] using hentry
  subst hid
  exact ⟨n, List.mem_singleton_self n, rfl, byte, hbyte, (List.prefix_append _ _).isInfix⟩

end TestsOf

namespace Edges

variable {r : Registry} {collapse : Bool} {path : List UInt8} {edges : Edges} {items : List Item}

/-- The tests of an edge are those of its node, of the nodes below it and of its siblings. -/
theorem testsOf_cons {id parent : NodeId} {byte : UInt8} {terminal : Option MethodId}
    {below rest : Edges} {nodes : List Node} {tail : List Item}
    (hnodes : nodes ⊆ below.places id (path ++ [byte])) (htail : TestsOf nodes tail)
    (hrest : TestsOf (rest.places parent path) items) :
    TestsOf ((cons id byte terminal below rest).places parent path)
      (testItems id byte rest ++ tail ++ items) := by
  have hbyte : (⟨id, some parent, path ++ [byte], terminal, below, rest⟩ : Node).byte =
      some byte := List.getLast?_concat
  intro id' hentry
  obtain ⟨n, hn, htest⟩ := (((TestsOf.testItems hbyte rest).append htail).append hrest) id' hentry
  refine ⟨n, ?_, htest⟩
  rw [places]
  rcases List.mem_append.mp hn with hn | hn
  · rcases List.mem_append.mp hn with hn | hn
    · rw [List.mem_singleton.mp hn]
      exact List.mem_cons_self
    · exact List.mem_cons_of_mem _ (List.mem_append_left _ (hnodes hn))
  · exact List.mem_cons_of_mem _ (List.mem_append_right _ hn)

theorem Emitted.testsOf (h : Emitted r collapse path edges items) (parent : NodeId) :
    TestsOf (edges.places parent path) items := by
  have hplain : ∀ op c target, TestsOf [] [.plain op, .jump c target] := by
    intro op c target
    apply TestsOf.of_no_entry
    simp [Item.node?]
  induction h generalizing parent with
  | nil => exact TestsOf.of_no_entry (by simp)
  | collapsed _ _ _ _ ih =>
    exact testsOf_cons (List.nil_subset _) ((hplain _ _ _).append (.callItems _ _)) (ih parent)
  | leaf _ _ ih =>
    exact testsOf_cons (List.nil_subset _) ((hplain _ _ _).append (.callItems _ _)) (ih parent)
  | inner _ _ _ _ ihBelow ihRest =>
    exact testsOf_cons (List.Subset.refl _)
      (((hplain _ _ _).append (.callItems _ _)).append (ihBelow _)) (ihRest parent)
  | passing _ _ _ _ ihBelow ihRest =>
    exact testsOf_cons (List.Subset.refl _) ((hplain _ _ _).append (ihBelow _)) (ihRest parent)

end Edges

namespace Trie

theorem testsOf_methodItems {t : Trie} {r : Registry} {collapse : Bool} {group : List Item}
    (h : t.edges.Emitted r collapse [] group) : TestsOf t.places (t.methodItems group) := by
  have hopening : TestsOf [t.rootNode] t.opening := by
    intro id hentry
    rw [opening] at hentry
    split at hentry <;> simp at hentry
  have hend : TestsOf [] (rejection.map .plain) :=
    TestsOf.of_no_entry (by simp [rejection, Item.node?])
  have hall := (hopening.append (h.testsOf root)).append hend
  rwa [List.append_nil] at hall

/-- A node is marked with the place where its own byte is tested. -/
def MarkedAtTest (t : Trie) (p : Program) (id : NodeId) : Prop :=
  ∃ l n byte, t.firstOp? id = some l ∧ t.node? id = some n ∧ n.byte = some byte ∧
    p.operations[l.toNat]? = some .loadByte ∧
    p.operations[l.toNat + 1]? = some (.compareByte byte)

theorem node?_compile (t : Trie) (r : Registry) (collapse : Bool) (typeName : String) :
    (t.compile r collapse typeName).1.node? = t.node? := by
  rw [compile]
  split <;> rfl

/-- A successful compilation marks each node that it enters with the place of its test. -/
theorem Reachable.markedAtTest {t : Trie} (ht : t.Reachable) {r : Registry} {collapse : Bool}
    {typeName : String} {p : Program} (hp : (t.compile r collapse typeName).2.value = .ok p)
    {id : NodeId} (hentry : .entry id ∈ (t.emit r collapse).items) :
    (t.compile r collapse typeName).1.MarkedAtTest p id := by
  obtain ⟨L, hitems, hmarks⟩ := exists_marked_layout ht.sound hp
  rw [hitems] at hentry
  obtain ⟨n, hn, hid, byte, hbyte, pre, suf, htest⟩ := testsOf_methodItems L.emitted id hentry
  have hload : (t.methodItems L.group)[pre.length]? = some (.entry id) := by
    simp [← htest]
  have hcompare : (t.methodItems L.group)[pre.length + 1]? = some (.plain (.compareByte byte)) := by
    simp [← htest]
  have hnode : (t.compile r collapse typeName).1.node? id = some n := by
    rw [node?_compile]
    exact ht.regular.node?_eq_some.mpr ⟨hn, hid⟩
  refine ⟨L.place (.node id), n, byte, hmarks id hentry, hnode, hbyte, ?_, ?_⟩
  · rw [L.entries _ _ hload]
    exact L.operation_at hload
  · rw [L.entries _ _ hload]
    exact L.operation_at hcompare

/-- A trie that was used in any way is compiled like a new one with the keys that were not refused.
Inserting keeps all marks, and a compilation that succeeds leaves every node that it enters marked
with the place where the byte of that node is tested. -/
theorem compile_used (uses : List Use) :
    ∃ fresh, Trie.empty.insertAll (Trie.empty.inserted uses) = .ok fresh ∧
      (∀ key hook id, ((ofUses uses).enter key hook).2.firstOp? id = (ofUses uses).firstOp? id) ∧
      ∀ r collapse typeName,
        ((ofUses uses).compile r collapse typeName).2 = (fresh.compile r collapse typeName).2 ∧
        ∀ p, ((ofUses uses).compile r collapse typeName).2.value = .ok p →
          ∀ id, .entry id ∈ ((ofUses uses).emit r collapse).items →
            ((ofUses uses).compile r collapse typeName).1.MarkedAtTest p id := by
  refine ⟨(ofUses uses).unmarked, insertAll_inserted Trie.empty uses, ?_, ?_⟩
  · exact (ofUses uses).firstOp?_enter
  · intro r collapse typeName
    refine ⟨(compile_unmarked _ r collapse typeName).symm, ?_⟩
    intro p hp id hentry
    exact (Reachable.empty.foldl_use uses).markedAtTest hp hentry

/-- Nodes 4 to 7 have marks from the first compilation only, which went past the third node. -/
theorem compile_used_specimen :
    let uses := [.insert "a" ⟨0⟩, .insert "ab(i32)" ⟨1⟩, .compile Specimen.registry false "T",
      .insert "" ⟨0⟩, .insert "ab" ⟨1⟩]
    let t := ofUses uses
    ∃ p, (t.compile Specimen.registry true "T").2.value = .ok p ∧
      (t.compile Specimen.registry true "T").1.MarkedAtTest p 3 ∧
      (t.compile Specimen.registry true "T").1.firstOp? 4 = t.firstOp? 4 ∧
      (t.firstOp? 4).isSome := by
  intro uses t
  obtain ⟨fresh, hfresh, -, hcompile⟩ := compile_used uses
  have htrie : Trie.empty.insertAll (Trie.empty.inserted uses) = .ok Specimen.trie := rfl
  obtain rfl : fresh = Specimen.trie := Except.ok.inj (hfresh.symm.trans htrie)
  obtain ⟨hsame, hmarked⟩ := hcompile Specimen.registry true "T"
  obtain ⟨p, -, hp, -⟩ := Specimen.exists_dispatcher true
  have hvalue : (t.compile Specimen.registry true "T").2.value = .ok p := by
    rw [hsame, hp]
  exact ⟨p, hvalue, hmarked p hvalue 3 (by decide), by decide, by decide⟩

end Trie

end HookDispatch
