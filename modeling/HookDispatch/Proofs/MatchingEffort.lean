import HookDispatch.Proofs.Cursor
import HookDispatch.Proofs.Dispatch
import Mathlib.Data.Finset.Max

/-!
What a run spends on a name. The comparison of a byte is charged to the node whose test it is. Such
a node is a child of a node on the longest path of the trie that begins the name, and no test is
made twice. The comparison of a whole name is the last look at it, so it adds only one.
-/
namespace HookDispatch

theorem Operation.looks_of_comparesName {op : Operation} (h : op.comparesName = true) :
    op.looks = true := by
  cases op <;> first | rfl | cases h

theorem Operation.looks_of_comparesByte {op : Operation} (h : op.comparesByte = true) :
    op.looks = true := by
  cases op <;> first | rfl | cases h

namespace Trie

/-- The longest beginning of a name that is a path of the trie. -/
structure Longest (t : Trie) (name q : List UInt8) : Prop where
  begins : q <+: name
  path : ∃ n ∈ t.nodes, n.path = q
  longest : ∀ n ∈ t.nodes, n.path <+: name → n.path.length ≤ q.length

/-- The children of the nodes along a path, those of the root included. -/
def childrenAlong (t : Trie) (q : List UInt8) : List NodeId :=
  (t.nodes.filter (·.path.isPrefixOf q)).flatMap Node.children

variable {t : Trie} {name q : List UInt8}

/-- The root begins every name, so one of the paths that do is the longest. -/
theorem Regular.exists_longest (ht : t.Regular) (name : List UInt8) : ∃ q, t.Longest name q := by
  have hmem : ∀ n, n ∈ (t.nodes.filter (·.path.isPrefixOf name)).toFinset ↔
      n ∈ t.nodes ∧ n.path <+: name := by
    intro n
    rw [List.mem_toFinset, List.mem_filter, List.isPrefixOf_iff_prefix]
  have hroot : t.rootNode ∈ t.nodes := ht.nodes_perm.mem_iff.mpr List.mem_cons_self
  obtain ⟨n, hn, hmax⟩ := Finset.exists_max_image _ (·.path.length)
    ⟨t.rootNode, (hmem _).mpr ⟨hroot, List.nil_prefix⟩⟩
  obtain ⟨hnode, hbegins⟩ := (hmem n).mp hn
  exact ⟨n.path, hbegins, ⟨n, hnode, rfl⟩, fun m hm hpath => hmax m ((hmem m).mpr ⟨hm, hpath⟩)⟩

/-- A node whose path begins the name is on the longest path that does. -/
theorem Longest.prefix_of_mem (hq : t.Longest name q) {n : Node} (hn : n ∈ t.nodes)
    (hpath : n.path <+: name) : n.path <+: q :=
  List.prefix_of_prefix_length_le hpath hq.begins (hq.longest n hn hpath)

theorem mem_childrenAlong {id : NodeId} {n : Node} (hn : n ∈ t.nodes) (hpath : n.path <+: q)
    (hid : id ∈ n.children) : id ∈ t.childrenAlong q := by
  rw [childrenAlong, List.mem_flatMap]
  exact ⟨n, List.mem_filter.mpr ⟨hn, List.isPrefixOf_iff_prefix.mpr hpath⟩, hid⟩

example : Specimen.trie.childrenAlong [97, 98] = [1, 2, 3] := by decide

end Trie

namespace Edges

/-- Every edge of a group leads to a hook. -/
theorem exists_get?_of_mem_bytes {edges : Edges} {parent : NodeId} {b : UInt8}
    (hproductive : edges.Productive) (hregular : edges.Regular parent) (hb : b ∈ edges.bytes) :
    ∃ tail hook, edges.get? (b :: tail) = some hook := by
  induction edges generalizing parent b with
  | nil => cases hb
  | cons id byte terminal below rest ihBelow ihRest =>
    obtain ⟨hnode, hbelow, hrest⟩ := hproductive
    obtain ⟨-, hfresh, hregularBelow, hregularRest⟩ := hregular
    rcases List.mem_cons.mp hb with rfl | hb
    · cases terminal with
      | some hook => exact ⟨[], hook, get?_cons_end⟩
      | none =>
        cases below with
        | nil => simp at hnode
        | cons next c terminal' below' rest' =>
          obtain ⟨tail, hook, hget⟩ := ihBelow hbelow hregularBelow List.mem_cons_self
          exact ⟨c :: tail, hook, (get?_cons_below (List.cons_ne_nil c tail)).trans hget⟩
    · obtain ⟨tail, hook, hget⟩ := ihRest hrest hregularRest hb
      have hne : byte ≠ b := fun heq => hfresh (heq ▸ hb)
      exact ⟨tail, hook, (get?_cons_rest hne).trans hget⟩

/-- A byte that no edge of a group has is compared with each of them, and nothing else is. -/
theorem effort_of_not_mem {b : UInt8} {edges : Edges} (hb : b ∉ edges.bytes) (collapse : Bool)
    (length depth : Nat) (tail : List UInt8) (st : Stats) :
    (edges.effort collapse length depth (b :: tail) st).compares =
        st.compares + edges.ids.length ∧
      (edges ≠ nil → (edges.effort collapse length depth (b :: tail) st).inspected =
        max st.inspected (depth + 1)) := by
  induction edges generalizing st with
  | nil => exact ⟨rfl, fun hsome => absurd rfl hsome⟩
  | cons id byte terminal below rest ihBelow ihRest =>
    rw [bytes, List.mem_cons, not_or] at hb
    obtain ⟨hcompares, hinspected⟩ := ihRest hb.2 (st.tested depth)
    rw [effort, if_neg (Ne.symm hb.1)]
    constructor
    · rw [hcompares]
      change st.compares + 1 + rest.ids.length = st.compares + (rest.ids.length + 1)
      omega
    · intro
      by_cases hrest : rest = nil
      · rw [hrest, effort_nil]
        rfl
      · rw [hinspected hrest]
        exact Nat.max_eq_left (Nat.le_max_right _ _)

end Edges

/-- Every byte of an edge of the root begins a key. -/
theorem Trie.Regular.exists_key_of_mem_bytes {t : Trie} (ht : t.Regular) {b : UInt8}
    (hb : b ∈ t.edges.bytes) :
    ∃ key hook, t.get? key = some hook ∧ (Text.bytes key).head? = some b := by
  obtain ⟨tail, hook, hget⟩ :=
    Edges.exists_get?_of_mem_bytes ht.productive ht.edges_regular hb
  obtain ⟨key, hkey⟩ := ht.spelled _ hook (Edges.mem_terminals_of_get? hget)
  refine ⟨key, hook, ?_, ?_⟩
  · rw [Trie.get?_eq, hkey, hget]
  · rw [hkey, List.head?_cons]

namespace Run

variable {σ : Type} {t : Trie} {r : Registry} {collapse : Bool} {p : Program}
  {invokers : Array (Invoker σ)} {name q : List UInt8} {s : Run σ}

section Faces
variable {L : Layout t r collapse p} {above : Node} {before : List Node} {edges : Edges} {pos : Nat}

theorem Faces.prefix_longest (h : Faces name L above before edges pos s) (ht : t.Regular)
    (hq : t.Longest name q) : above ∈ t.nodes ∧ above.path <+: q := by
  have habove : above ∈ t.nodes := ht.nodes_perm.mem_iff.mpr h.above_mem
  exact ⟨habove, hq.prefix_of_mem habove h.spelled⟩

/-- The node that is tested is a child of a node on the longest path. -/
theorem Faces.mem_childrenAlong {id : NodeId} {byte : UInt8} {terminal : Option MethodId}
    {below rest : Edges}
    (h : Faces name L above before (.cons id byte terminal below rest) pos s) (ht : t.Regular)
    (hq : t.Longest name q) : id ∈ t.childrenAlong q := by
  obtain ⟨habove, hpath⟩ := h.prefix_longest ht hq
  refine Trie.mem_childrenAlong habove hpath ?_
  have hhead : ⟨id, some above.id, above.path ++ [byte], terminal, below, rest⟩ ∈
      above.below.heads above.id above.path := by
    rw [h.heads_eq]
    exact List.mem_append_right before List.mem_cons_self
  exact Trie.mem_children_of_mem_heads hhead

/-- A test looks at most one byte behind the longest path. -/
theorem Faces.position_lt_longest (h : Faces name L above before edges pos s) (ht : t.Regular)
    (hq : t.Longest name q) : s.position + 1 ≤ min name.length (q.length + 1) := by
  obtain ⟨-, hpath⟩ := h.prefix_longest ht hq
  have hinside := h.inside_name
  have hle := hpath.length_le
  rw [← h.position_eq] at hle
  omega

end Faces

section Whole
variable {L : Layout t r collapse p}

/-- A name that has been judged is not compared any more. -/
theorem Judged.countP_comparesName (h : Judged name L s) (hsize : p.size ≤ UInt32.size) (n : Nat) :
    (trace p.operations invokers name n s).countP (·.1.comparesName) = 0 := by
  rw [List.countP_eq_zero]
  intro e he hcompares
  obtain ⟨hjudged, hopen, hop⟩ := mem_trace_of_step (P := Judged name L)
    (fun _ h hopen => h.step hsize hopen) h he
  have hlooks := Operation.looks_of_comparesName hcompares
  rw [hjudged.not_looks hopen hop] at hlooks
  cases hlooks

/-- From any stage the whole name is compared at most once, as the comparison judges it. -/
theorem Stage.countP_comparesName_le (h : Stage name L s) (hsize : p.size ≤ UInt32.size) (n : Nat) :
    (trace p.operations invokers name n s).countP (·.1.comparesName) ≤ 1 := by
  induction n generalizing s with
  | zero => exact Nat.zero_le 1
  | succ n ih =>
    rw [trace]
    split
    · exact Nat.zero_le 1
    · rename_i hopen
      have hnone : s.outcome = none := by simpa using hopen
      split
      · exact Nat.zero_le 1
      · rename_i op hop
        have hstep : Stage name L (s.step p.operations invokers name) := h.step hsize hnone
        have hnext := ih hstep
        cases h.reads hnone hop with
        | whole hcollapse hlength hjudged =>
          -- This one counts, and from the next state on nothing does.
          rw [List.countP_cons, (hjudged invokers).countP_comparesName hsize n]
          exact Nat.le_refl 1
        | load | compare =>
          rw [List.countP_cons_of_neg Bool.false_ne_true]
          exact hnext
        | other hlooks =>
          rw [List.countP_cons_of_neg]
          · exact hnext
          · intro hcompares
            rw [Operation.looks_of_comparesName hcompares] at hlooks
            cases hlooks

end Whole

/-- Operations that do not scan compare nothing and inspect nothing. -/
theorem spent_straight {seg : List Operation} (hquiet : ∀ op ∈ seg, op.scans = false) (s : Run σ) :
    (straight invokers name seg s).stats.compares = s.stats.compares ∧
      (straight invokers name seg s).stats.inspected = s.stats.inspected := by
  induction seg generalizing s with
  | nil => exact ⟨rfl, rfl⟩
  | cons op seg ih =>
    rw [straight]
    split
    · exact ⟨rfl, rfl⟩
    · obtain ⟨-, -, hstats⟩ := exec_of_not_scans invokers name (hquiet op List.mem_cons_self) s.tick
      obtain ⟨hcompares, hinspected⟩ :=
        ih (fun op' hop => hquiet op' (List.mem_cons_of_mem op hop)) (exec invokers name s.tick op)
      rw [hcompares, hinspected, hstats]
      exact ⟨rfl, rfl⟩

end Run

namespace Layout

variable {σ : Type} {t : Trie} {r : Registry} {collapse : Bool} {p : Program}
  {invokers : Array (Invoker σ)} {name q : List UInt8} {s : Run σ} {n : Nat}

/-- The comparisons of bytes are charged to different nodes, all next to the longest path. -/
theorem countP_comparesByte_le (L : Layout t r collapse p) (hsize : p.size ≤ UInt32.size)
    (ht : t.Regular) (hq : t.Longest name q) (hpc : s.pc = 0) (hposition : s.position = 0)
    (honce : ((Run.trace p.operations invokers name n s).map fun e => e.2.pc).Pairwise (· < ·)) :
    (Run.trace p.operations invokers name n s).countP (·.1.comparesByte) ≤
      (t.childrenAlong q).length := by
  have hnodup : (((Run.trace p.operations invokers name n s).filter (·.1.comparesByte)).map
      fun e => e.2.pc).Nodup :=
    (List.filter_sublist.map _).nodup (honce.imp Nat.ne_of_lt)
  -- A comparison stands behind the first operation of its node, so its place gives the node.
  have hsubset : ((Run.trace p.operations invokers name n s).filter (·.1.comparesByte)).map
      (fun e => e.2.pc) ⊆ (t.childrenAlong q).map fun id => (L.place (.node id)).toNat + 1 := by
    intro pc hmem
    obtain ⟨⟨op, s'⟩, he, rfl⟩ := List.mem_map.mp hmem
    obtain ⟨he, hcompares⟩ := List.mem_filter.mp he
    obtain ⟨-, hreads⟩ := L.stage_trace hsize hpc hposition he
    cases hreads with
    | compare hfaces hbehind =>
      rw [hbehind, ← hfaces.place_first rfl]
      exact List.mem_map_of_mem (hfaces.mem_childrenAlong ht hq)
    | load | whole => cases hcompares
    | other hlooks =>
      rw [Operation.looks_of_comparesByte hcompares] at hlooks
      cases hlooks
  have hlength := (hnodup.subperm hsubset).length_le
  rwa [List.length_map, List.length_map, ← List.countP_eq_length_filter] at hlength

/-- Without the shortcut no whole name is compared. -/
theorem collapse_of_comparesName (L : Layout t r collapse p) (hsize : p.size ≤ UInt32.size)
    (hpc : s.pc = 0) (hposition : s.position = 0) {e : Operation × Run σ}
    (he : e ∈ Run.trace p.operations invokers name n s) (hwhole : e.1.comparesName = true) :
    collapse = true := by
  obtain ⟨op, s'⟩ := e
  obtain ⟨-, hreads⟩ := L.stage_trace hsize hpc hposition he
  cases hreads with
  | whole hcollapse => exact hcollapse
  | load | compare => cases hwhole
  | other hlooks =>
    rw [Operation.looks_of_comparesName hwhole] at hlooks
    cases hlooks

/-- What is inspected behind the longest path is inspected by a comparison of the whole name. -/
theorem exists_whole_of_lt_inspected (L : Layout t r collapse p) (hsize : p.size ≤ UInt32.size)
    (ht : t.Regular) (hq : t.Longest name q) (hpc : s.pc = 0) (hposition : s.position = 0)
    (hfresh : s.stats.inspected = 0) (hlt : min name.length (q.length + 1) <
      (Run.go p.operations invokers name n s).stats.inspected) :
    ∃ key s', (.compareName key, s') ∈ Run.trace p.operations invokers name n s ∧
      key.utf8ByteSize = name.length := by
  by_contra hnone
  refine absurd (L.inspected_go_le hsize hpc hposition (hfresh ▸ Nat.zero_le _) ?_ ?_)
    (Nat.not_le.mpr hlt)
  · intro e he above before edges pos hfaces
    exact hfaces.position_lt_longest ht hq
  · rintro ⟨⟨op, s'⟩, he, key, rfl, hlength⟩
    exact absurd ⟨key, s', he, hlength⟩ hnone

end Layout

namespace Dispatcher

variable {σ : Type} {t : Trie} {r : Registry} {collapse : Bool} {d : Dispatcher σ}

variable (L : Layout t r collapse d.program) (ht : t.Regular) (hsize : d.program.size ≤ UInt32.size)
  (target : σ) (supply : Supply) (text : Option String) (result : Option Object)
  (args : Array Object)
include L ht hsize

/-- What a run compares and inspects is what the tests of its name do. -/
theorem spent_call :
    (d.call target supply text result args).stats.compares =
        (t.effort collapse (Text.bytes (text.getD "")) {}).compares ∧
      (d.call target supply text result args).stats.inspected =
        (t.effort collapse (Text.bytes (text.getD "")) {}).inspected := by
  obtain ⟨tests, s, body, -, -, hstats, hanswers, -, hcall, -⟩ :=
    d.answered L ht.toSound target supply text result args fun _ => hsize
  rw [hcall, ← hstats]
  exact Run.spent_straight hanswers.not_scans s

theorem rejects_call (hnone : t.get? (text.getD "") = none) :
    Run.Rejects (d.call target supply text result args) (d.trace target supply text result args)
      target supply args := by
  obtain ⟨tests, s, body, hidle, heffects, -, hanswers, -, hcall, htrace⟩ :=
    d.answered L ht.toSound target supply text result args fun _ => hsize
  rw [hcall, htrace]
  rw [hnone] at hanswers
  cases hanswers with
  | reject => exact Run.rejects_of_idle hidle heffects rfl rfl

/-- A name whose first byte no edge of the root has is rejected after that byte. -/
theorem spent_call_of_not_mem (hsome : t.edges ≠ .nil) {b : UInt8} {tail : List UInt8}
    (hname : Text.bytes (text.getD "") = b :: tail) (hb : b ∉ t.edges.bytes) :
    (d.call target supply text result args).stats.compares = t.rootNode.children.length ∧
      (d.call target supply text result args).stats.inspected = 1 := by
  obtain ⟨hcompares, hinspected⟩ := spent_call L ht hsize target supply text result args
  rw [hcompares, hinspected, hname, Trie.effort, if_neg (List.cons_ne_nil b tail)]
  obtain ⟨hcompared, hseen⟩ := Edges.effort_of_not_mem hb collapse (b :: tail).length 0 tail
    { steps := 0 + if t.edges.first?.isNone then 3 else 4 }
  rw [hcompared, hseen hsome]
  exact ⟨Nat.zero_add _, rfl⟩

/-- A name that shares its first byte with no key is rejected after that byte, which is compared
with each edge of the root. -/
theorem rejects_apart (hname : Text.bytes (text.getD "") ≠ [])
    (hkey : ∃ key hook, t.get? key = some hook)
    (hapart : ∀ key hook, t.get? key = some hook →
      (Text.bytes key).head? ≠ (Text.bytes (text.getD "")).head?) :
    Run.Rejects (d.call target supply text result args) (d.trace target supply text result args)
        target supply args ∧
      (d.call target supply text result args).stats.inspected = 1 ∧
      (d.call target supply text result args).stats.compares = t.rootNode.children.length := by
  obtain ⟨b, tail, hcons⟩ := List.exists_cons_of_ne_nil hname
  have hmiss : t.get? (text.getD "") = none := by
    cases hfound : t.get? (text.getD "") with
    | none => rfl
    | some hook => exact absurd rfl (hapart _ hook hfound)
  have hb : b ∉ t.edges.bytes := by
    intro hmem
    obtain ⟨key, hook, hget, hhead⟩ := ht.exists_key_of_mem_bytes hmem
    exact hapart key hook hget (by rw [hhead, hcons, List.head?_cons])
  have hsome : t.edges ≠ .nil := by
    intro hnil
    obtain ⟨key, hook, hget⟩ := hkey
    rw [Trie.get?_eq, hnil, Edges.get?_nil] at hget
    cases hget
  obtain ⟨hcompares, hinspected⟩ :=
    spent_call_of_not_mem L ht hsize target supply text result args hsome hcons hb
  exact ⟨rejects_call L ht hsize target supply text result args hmiss, hinspected, hcompares⟩

end Dispatcher

/-- What a run spends on a name, measured by the longest path of the trie that begins the name.
Without the shortcut it inspects at most one byte more than the path, and compares no more often
than there are children along the path. With the shortcut the whole name may be compared once, and
only if that is with a key of its own length is more inspected. A name that shares its first byte
with no key is rejected after that byte was compared with each edge of the root. -/
theorem matching_effort {t : Trie} {r : Registry} {collapse : Bool} {typeName : String}
    {σ : Type} {d : Dispatcher σ} (ht : t.Reachable)
    (hp : (t.compile r collapse typeName).2.value = .ok d.program)
    (hsize : d.program.size ≤ UInt32.size) (target : σ) (supply : Supply) (text : Option String)
    (result : Option Object) (args : Array Object) {name : List UInt8} {s : Run σ}
    {done : List (Operation × Run σ)} (hname : name = Text.bytes (text.getD ""))
    (hs : s = d.call target supply text result args)
    (hdone : done = d.trace target supply text result args) :
    ∃ q, t.Longest name q ∧
      (collapse = false →
        s.stats.inspected ≤ min name.length (q.length + 1) ∧
          s.stats.compares ≤ (t.childrenAlong q).length) ∧
      done.countP (·.1.comparesName) ≤ 1 ∧
      s.stats.compares ≤ (t.childrenAlong q).length + 1 ∧
      (min name.length (q.length + 1) < s.stats.inspected →
        ∃ key s', (.compareName key, s') ∈ done ∧ key.utf8ByteSize = name.length) ∧
      (name ≠ [] → (∃ key hook, t.get? key = some hook) →
        (∀ key hook, t.get? key = some hook → (Text.bytes key).head? ≠ name.head?) →
        s.Rejects done target supply args ∧ s.stats.inspected = 1 ∧
          s.stats.compares = t.rootNode.children.length) := by
  obtain ⟨L⟩ := Trie.exists_layout ht.sound hp
  obtain ⟨q, hq⟩ := ht.regular.exists_longest name
  have hpositive : 0 < d.program.operations.size := Nat.lt_of_lt_of_le (by omega) L.five_le_size
  have hwhole : done.countP (·.1.comparesName) ≤ 1 := by
    rw [hdone]
    exact Run.Stage.countP_comparesName_le (L := L) (.starting rfl rfl) hsize _
  have hbytes : done.countP (·.1.comparesByte) ≤ (t.childrenAlong q).length := by
    subst hname hdone
    exact L.countP_comparesByte_le hsize ht.regular hq rfl rfl
      ((L.upward hsize).ascends rfl rfl hpositive).once
  have hcompares : s.stats.compares =
      done.countP (·.1.comparesByte) + done.countP (·.1.comparesName) := by
    rw [← Run.countP_compares, hs, hdone]
    exact (Run.compares_go _ _).trans (Nat.zero_add _)
  have hseen : min name.length (q.length + 1) < s.stats.inspected →
      ∃ key s', (.compareName key, s') ∈ done ∧ key.utf8ByteSize = name.length := by
    subst hname hs hdone
    exact L.exists_whole_of_lt_inspected hsize ht.regular hq rfl rfl rfl
  refine ⟨q, hq, ?_, hwhole, by omega, hseen, ?_⟩
  · intro hoff
    have hnone : ∀ e ∈ done, ¬e.1.comparesName = true := by
      intro e he hcompared
      rw [hdone] at he
      rw [L.collapse_of_comparesName hsize rfl rfl he hcompared] at hoff
      cases hoff
    have hzero := List.countP_eq_zero.mpr hnone
    refine ⟨?_, by omega⟩
    -- To see more than that takes a comparison of the whole name, and there is none.
    by_contra hmore
    obtain ⟨key, s', he, -⟩ := hseen (Nat.not_le.mp hmore)
    exact hnone _ he rfl
  · subst hname hs hdone
    exact Dispatcher.rejects_apart L ht.regular hsize target supply text result args

/-- A name that begins with another byte than the hooks is rejected after one comparison, also if it
ends with the key of one. -/
theorem matching_effort_specimen :
    ∃ (p : Program) (d : Dispatcher Nat),
      (Specimen.trie.compile Specimen.registry true "T").2.value = .ok p ∧ d.program = p ∧
      (d.call 0 0 (some "bab(i32)") none #[]).stats.inspected = 1 ∧
      (d.call 0 0 (some "bab(i32)") none #[]).stats.compares = 1 := by
  obtain ⟨p, d, hp, hd⟩ := Specimen.exists_dispatcher true
  obtain ⟨rfl, -⟩ := Dispatcher.ofProgram_eq_ok hd
  have hsize : d.program.size ≤ UInt32.size := by
    rw [Trie.size_of_compile hp]
    decide
  have hapart : ∀ key hook, Specimen.trie.get? key = some hook →
      (Text.bytes key).head? ≠ (Text.bytes "bab(i32)").head? := by
    intro key hook hget hhead
    obtain ⟨tail, htail⟩ := List.head?_eq_some_iff.mp (hhead.trans (show _ = some 98 by decide))
    rw [Trie.get?_eq, htail, Specimen.trie, Edges.get?_cons_rest (by decide),
      Edges.get?_nil] at hget
    cases hget
  obtain ⟨q, -, -, -, -, -, hmiss⟩ := matching_effort
    (Trie.reachable_ofRegistry Specimen.trie_eq) hp hsize 0 0 (some "bab(i32)") none #[] rfl rfl rfl
  obtain ⟨-, hinspected, hcompares⟩ := hmiss (by decide) ⟨"a", ⟨0⟩, by decide⟩ hapart
  exact ⟨d.program, d, hp, rfl, hinspected, hcompares⟩

end HookDispatch
