import HookDispatch.Proofs.LoopFree
import HookDispatch.Proofs.Program.Sites

/-!
The stages of a run. At each operation of a compiled program it is known how far the name has been
followed: before a byte is tested, the bytes before it spell the path of the node above, and there
is a byte to test; after a whole name was compared, or the name is known to be a key or none, only
operations follow that do not look at it. Every step goes from a stage to a stage.
-/
namespace HookDispatch

def Operation.looks : Operation → Bool
  | .loadByte | .compareByte _ | .compareName _ => true
  | _ => false

theorem Operation.not_looks_of_not_scans {op : Operation} (h : op.scans = false) :
    op.looks = false := by
  cases op <;> first | rfl | cases h

/-- The operations that answer a name do not scan it. -/
theorem Registry.Answers.not_scans {r : Registry} {found : Option MethodId} {body : List Operation}
    (h : r.Answers found body) : ∀ op ∈ body, op.scans = false := by
  intro op hop
  cases h with
  | call hcalls =>
    rcases Method.mem_callSequence hop with hmarshals | rfl | rfl
    · cases op <;> first | rfl | cases hmarshals
    · rfl
    · rfl
  | reject =>
    simp only [rejection, List.mem_cons, List.not_mem_nil, or_false] at hop
    rcases hop with rfl | rfl <;> rfl

theorem Registry.Answers.quiet {r : Registry} {found : Option MethodId} {body : List Operation}
    (h : r.Answers found body) :
    ∃ seg, body = seg ++ [.ret] ∧ ∀ op ∈ seg, op.scans = false := by
  obtain ⟨seg, rfl, -⟩ := h.ends_once
  exact ⟨seg, rfl, fun op hop => h.not_scans op (List.mem_append_left _ hop)⟩

namespace Run

variable {σ : Type} {t : Trie} {r : Registry} {collapse : Bool} {p : Program}
  {invokers : Array (Invoker σ)} {name : List UInt8} {s : Run σ}

variable (invokers name) in
/-- Operations that do not scan leave the cursor and the counters alone. -/
theorem exec_of_not_scans {op : Operation} (h : op.scans = false) (s : Run σ) :
    (exec invokers name s op).position = s.position ∧ (exec invokers name s op).pc = s.pc ∧
      (exec invokers name s op).stats = s.stats := by
  cases op with
  | branch | initCursor | loadByte | compareByte | compareName | advance => cases h
  | _ =>
    simp only [exec, fillTemp, callHook, storeArg, fail]
    repeat' split
    all_goals simp only [and_self]

section Stage
variable (L : Layout t r collapse p) (name)

/-- The test of the first of the edges is next: their group is reached, the name goes on, and the
earlier siblings have other bytes. -/
structure Faces (above : Node) (before : List Node) (edges : Edges) (pos : Nat) (s : Run σ) : Prop
    extends L.Site above before edges pos where
  length_eq : s.length = name.length
  position_eq : s.position = above.path.length
  spelled : above.path <+: name
  inside_name : s.position < name.length
  passed : ∀ n ∈ before, n.byte ≠ name[s.position]?

/-- The name has been judged: nothing looks at it any more. -/
inductive Judged (s : Run σ) : Prop
  | ended (hended : s.outcome.isSome) (hposition : s.position ≤ name.length)
  | answering {seg : List Operation} (hholds : Holds p.operations s.pc (seg ++ [.ret]))
    (hquiet : ∀ op ∈ seg, op.scans = false) (hposition : s.position ≤ name.length)
  | deciding {seg : List Operation}
    (hbranch : (t.methodItems L.group)[s.pc]? = some (.jump .different .epilogue))
    (hholds : Holds p.operations (s.pc + 1) (seg ++ [.ret]))
    (hquiet : ∀ op ∈ seg, op.scans = false) (hposition : s.position ≤ name.length)

/-- How far a run has come. -/
inductive Stage (s : Run σ) : Prop
  | starting (hpc : s.pc = 0) (hposition : s.position = 0)
  | cleared (hpc : s.pc = 1) (hposition : s.position = 0)
  | named (hpc : s.pc = 2) (hposition : s.position = 0) (hname : name ≠ [])
  | begun (hpc : s.pc = 3) (hposition : s.position = 0) (hname : name ≠ [])
    (hlength : s.length = name.length) (hsome : t.edges.first?.isNone = false)
  | entering {above : Node} {before : List Node} {id : NodeId} {byte : UInt8}
    {terminal : Option MethodId} {below rest : Edges}
    (hfaces : Faces name L above before (.cons id byte terminal below rest) s.pc s)
  | loaded {above : Node} {before : List Node} {id : NodeId} {byte : UInt8}
    {terminal : Option MethodId} {below rest : Edges} {pos : Nat}
    (hfaces : Faces name L above before (.cons id byte terminal below rest) pos s)
    (hpc : s.pc = pos + 1) (hloaded : s.loaded = name[s.position]?)
  | compared {above : Node} {before : List Node} {id : NodeId} {byte : UInt8}
    {terminal : Option MethodId} {below rest : Edges} {pos : Nat}
    (hfaces : Faces name L above before (.cons id byte terminal below rest) pos s)
    (hpc : s.pc = pos + 2) (hflag : s.flag = (name[s.position]? == some byte))
  | agreed {n : Node} (hinside : L.Inside n s.pc) (hlength : s.length = name.length)
    (hposition : s.position + 1 = n.path.length) (hspelled : n.path <+: name)
  | atHook {n : Node} {hook : MethodId} {key : Signature} {m : Method} {next : Nat}
    (hcalls : r.Calls hook key m)
    (hstands : Stands (t.methodItems L.group) s.pc
      (.jump .remaining (.orEpilogue n.below.first?) :: m.callItems hook))
    (hbelow : L.Site n [] n.below next) (hlength : s.length = name.length)
    (hposition : s.position = n.path.length) (hspelled : n.path <+: name)
  | passing {n : Node} (hstands : Stands (t.methodItems L.group) s.pc [.jump .exhausted .epilogue])
    (hbelow : L.Site n [] n.below (s.pc + 1)) (hsome : n.below ≠ .nil)
    (hlength : s.length = name.length) (hposition : s.position = n.path.length)
    (hspelled : n.path <+: name)
  | judged (hjudged : Judged name L s)

end Stage

section Step
variable {L : Layout t r collapse p} {item : Item} {c : Condition} {target : JumpTarget}

theorem step_item (L : Layout t r collapse p) (h : (t.methodItems L.group)[s.pc]? = some item) :
    s.step p.operations invokers name = exec invokers name s.tick (item.patched L.place) :=
  step_eq (L.operation_at h)

theorem step_taken (L : Layout t r collapse p)
    (h : (t.methodItems L.group)[s.pc]? = some (.jump c target)) (hholds : s.holds name c = true) :
    s.step p.operations invokers name = { s.tick with pc := (L.place target).toNat } := by
  rw [step_item L h]
  exact if_pos hholds

theorem step_passed (L : Layout t r collapse p)
    (h : (t.methodItems L.group)[s.pc]? = some (.jump c target)) (hholds : s.holds name c = false) :
    s.step p.operations invokers name = s.tick := by
  rw [step_item L h]
  exact if_neg (by rw [Bool.not_eq_true]; exact hholds)

/-- At the operations that answer a name, it has been judged. -/
theorem judged_of_answers {found : Option MethodId} {body : List Operation}
    (hanswers : r.Answers found body) (hholds : Holds p.operations s.pc body)
    (hposition : s.position ≤ name.length) : Judged name L s := by
  obtain ⟨seg, rfl, hquiet⟩ := hanswers.quiet
  exact .answering hholds hquiet hposition

theorem judged_reject (hsize : p.size ≤ UInt32.size) (hpc : s.pc = (L.place .epilogue).toNat)
    (hposition : s.position ≤ name.length) : Judged name L s := by
  refine judged_of_answers .reject ?_ hposition
  rw [hpc, L.toNat_epilogue hsize]
  exact L.holds_rejection

theorem judged_call {hook : MethodId} {key : Signature} {m : Method} (hcalls : r.Calls hook key m)
    (hstands : Stands (t.methodItems L.group) s.pc (m.callItems hook))
    (hposition : s.position ≤ name.length) : Judged name L s :=
  judged_of_answers (.call hcalls) (holds_of_laid (L.laid_of_stands hstands)) hposition

theorem Judged.step (h : Judged name L s) (hsize : p.size ≤ UInt32.size)
    (hopen : s.outcome = none) : Judged name L (s.step p.operations invokers name) := by
  cases h with
  | ended hended =>
    rw [hopen] at hended
    cases hended
  | @answering seg hholds hquiet hposition =>
    cases seg with
    | nil =>
      rw [step_eq hholds.1]
      exact .ended rfl hposition
    | cons op seg =>
      obtain ⟨hkeep, hpc, -⟩ :=
        exec_of_not_scans invokers name (hquiet op List.mem_cons_self) s.tick
      rw [step_eq hholds.1]
      refine .answering ?_ (fun op' hop => hquiet op' (List.mem_cons_of_mem op hop)) ?_
      · rw [hpc]
        exact hholds.2
      · rw [hkeep]
        exact hposition
  | deciding hbranch hholds hquiet hposition =>
    cases hholds' : s.holds name .different with
    | true =>
      rw [step_taken L hbranch hholds']
      exact judged_reject hsize rfl hposition
    | false =>
      rw [step_passed L hbranch hholds']
      exact .answering hholds hquiet hposition

section Test
variable {above n : Node} {before : List Node} {id : NodeId} {byte : UInt8}
  {terminal : Option MethodId} {below rest edges : Edges} {pos : Nat}

/-- The byte that is tested is there. -/
theorem Faces.exists_byte (h : Faces name L above before edges pos s) :
    ∃ b, name[s.position]? = some b :=
  ⟨_, List.getElem?_eq_getElem h.inside_name⟩

theorem Faces.of_cursor {s' : Run σ} (h : Faces name L above before edges pos s)
    (hlength : s'.length = s.length) (hposition : s'.position = s.position) :
    Faces name L above before edges pos s' where
  toSite := h.toSite
  length_eq := hlength.trans h.length_eq
  position_eq := hposition.trans h.position_eq
  spelled := h.spelled
  inside_name := hposition ▸ h.inside_name
  passed := hposition ▸ h.passed

/-- Where a group is reached, its first test follows. -/
theorem Faces.stage (h : Faces name L above before edges s.pc s) (hsome : edges ≠ .nil) :
    Stage name L s := by
  cases edges with
  | nil => exact absurd rfl hsome
  | cons id byte terminal below rest => exact .entering h

/-- A byte that does not agree is tested against the next sibling, or the name is rejected. -/
theorem Faces.mismatch (h : Faces name L above before (.cons id byte terminal below rest) pos s)
    (hsize : p.size ≤ UInt32.size) (hmiss : name[s.position]? ≠ some byte) :
    Stage name L { s.tick with pc := (L.place (.orEpilogue rest.first?)).toNat } := by
  cases rest with
  | nil => exact .judged (judged_reject hsize rfl (Nat.le_of_lt h.inside_name))
  | cons next b terminal' below' rest' =>
    obtain ⟨pos', hsite⟩ := h.later
    obtain rfl : (L.place (.node next)).toNat = pos' := hsite.place_first rfl
    refine .entering ⟨hsite, h.length_eq, h.position_eq, h.spelled, h.inside_name, ?_⟩
    intro x hx
    rcases List.mem_append.mp hx with hearlier | hlast
    · exact h.passed x hearlier
    · rw [List.mem_singleton.mp hlast, Node.byte, List.getLast?_concat]
      exact hmiss.symm

/-- A byte that agrees leads to the node of its edge. -/
theorem Faces.agreed (h : Faces name L above before (.cons id byte terminal below rest) pos s)
    (hpc : s.pc = pos + 3) (hbyte : name[s.position]? = some byte) : Stage name L s := by
  refine .agreed (hpc ▸ h.inside) h.length_eq ?_ ?_
  · rw [h.position_eq]
    simp
  · obtain ⟨tail, rfl⟩ := h.spelled
    rw [h.position_eq, List.getElem?_append_right (Nat.le_refl _), Nat.sub_self] at hbyte
    cases tail with
    | nil => cases hbyte
    | cons b tail =>
      cases hbyte
      exact ⟨tail, by simp⟩

/-- Below a node whose path is spelled, the next byte is tested if there is one. -/
theorem stage_below (hbelow : L.Site n [] n.below s.pc) (hsome : n.below ≠ .nil)
    (hlength : s.length = name.length) (hposition : s.position = n.path.length)
    (hspelled : n.path <+: name) (hmore : s.position < s.length) : Stage name L s := by
  have hfaces : Faces name L n [] n.below s.pc s :=
    ⟨hbelow, hlength, hposition, hspelled, hlength ▸ hmore, fun _ h => absurd h List.not_mem_nil⟩
  exact hfaces.stage hsome

/-- After a comparison of the whole name nothing looks at it any more. -/
theorem judged_whole {hook : MethodId} {key : Signature} {m : Method} {text : String}
    (hcalls : r.Calls hook key m) (hposition : s.position ≤ name.length)
    (hstands : Stands (t.methodItems L.group) s.pc
      ([.plain (.compareName text), .jump .different .epilogue] ++ m.callItems hook)) :
    Judged name L (s.step p.operations invokers name) := by
  obtain ⟨seg, hseg, hquiet⟩ := (Registry.Answers.call hcalls).quiet
  obtain ⟨hcompare, hbranch, hcall⟩ := hstands
  have hholds := holds_of_laid (L.laid_of_stands hcall)
  rw [hseg] at hholds
  rw [step_item L hcompare]
  exact .deciding hbranch hholds hquiet hposition

/-- The node of an agreed byte is left as its code says. -/
theorem step_agreed (hinside : L.Inside n s.pc) (hlength : s.length = name.length)
    (hposition : s.position + 1 = n.path.length) (hspelled : n.path <+: name) :
    Stage name L (s.step p.operations invokers name) := by
  cases hinside with
  | whole hcollapse hcalls hstands =>
    have hle := hspelled.length_le
    exact .judged (judged_whole hcalls (by omega) hstands)
  | terminal hcalls hstands hbelow =>
    rw [step_item L hstands.1]
    exact .atHook hcalls hstands.2 hbelow hlength hposition hspelled
  | passing hstands hbelow hsome =>
    rw [step_item L hstands.1]
    exact .passing hstands.2 hbelow hsome hlength hposition hspelled

end Test

variable {n : Node}

/-- A hook is called if the name ends at it. -/
theorem step_atHook {hook : MethodId} {key : Signature} {m : Method} {next : Nat}
    (hsize : p.size ≤ UInt32.size) (hcalls : r.Calls hook key m)
    (hstands : Stands (t.methodItems L.group) s.pc
      (.jump .remaining (.orEpilogue n.below.first?) :: m.callItems hook))
    (hbelow : L.Site n [] n.below next) (hlength : s.length = name.length)
    (hposition : s.position = n.path.length) (hspelled : n.path <+: name) :
    Stage name L (s.step p.operations invokers name) := by
  have hle : s.position ≤ name.length := hposition ▸ hspelled.length_le
  cases hholds : s.holds name .remaining with
  | false =>
    rw [step_passed L hstands.1 hholds]
    exact .judged (judged_call hcalls hstands.2 hle)
  | true =>
    rw [step_taken L hstands.1 hholds]
    cases hfirst : n.below.first? with
    | none => exact .judged (judged_reject hsize rfl hle)
    | some first =>
      obtain rfl : (L.place (.node first)).toNat = next := hbelow.place_first hfirst
      refine stage_below hbelow ?_ hlength hposition hspelled (of_decide_eq_true hholds)
      intro hnil
      rw [hnil] at hfirst
      cases hfirst

section Opening

/-- The first items of a method. -/
theorem opening_at (L : Layout t r collapse p) :
    (t.methodItems L.group)[0]? = some (.plain .clearResult) ∧
      (t.methodItems L.group)[1]? = some (.jump .nameEmpty .epilogue) ∧
      (t.methodItems L.group)[2]? = some (.plain .initCursor) ∧
      (t.edges.first?.isNone = false →
        (t.methodItems L.group)[3]? = some (.jump .exhausted .epilogue)) := by
  rw [Trie.methodItems, Trie.opening]
  refine ⟨rfl, rfl, rfl, fun hsome => ?_⟩
  rw [hsome]
  rfl

/-- With a name the cursor is put before it; without edges there is nothing to test. -/
theorem step_named (L : Layout t r collapse p) (hpc : s.pc = 2) (hname : name ≠ []) :
    Stage name L (s.step p.operations invokers name) := by
  obtain ⟨-, -, hinit, -⟩ := opening_at L
  have hitem : (t.methodItems L.group)[s.pc]? = some (.plain .initCursor) := hpc.symm ▸ hinit
  rw [step_item L hitem]
  cases hfirst : t.edges.first? with
  | none =>
    have hgroup : L.group = [] := by
      rw [← List.head?_eq_none_iff, L.emitted.head?, hfirst]
      rfl
    have hend : p.size - 2 = 3 := by
      rw [L.size_eq, Trie.methodItems, hgroup, Trie.opening, hfirst]
      rfl
    refine .judged (judged_of_answers .reject ?_ (Nat.zero_le _))
    change Holds p.operations (s.pc + 1) rejection
    rw [hpc, show 2 + 1 = p.size - 2 from hend.symm]
    exact L.holds_rejection
  | some first => exact .begun (congrArg (· + 1) hpc) rfl hname rfl (by rw [hfirst]; rfl)

/-- The first byte of a name is tested against the edges of the root. -/
theorem step_begun (L : Layout t r collapse p) (hpc : s.pc = 3) (hposition : s.position = 0)
    (hname : name ≠ []) (hlength : s.length = name.length)
    (hsome : t.edges.first?.isNone = false) :
    Stage name L (s.step p.operations invokers name) := by
  have hroot := L.site_root
  rw [Trie.opening, hsome] at hroot
  obtain ⟨-, -, -, hguard⟩ := opening_at L
  have hitem : (t.methodItems L.group)[s.pc]? = some (.jump .exhausted .epilogue) :=
    hpc.symm ▸ hguard hsome
  have hmore : s.position < s.length := by
    rw [hposition, hlength]
    exact List.length_pos_iff.mpr hname
  rw [step_passed L hitem (decide_eq_false (Nat.not_le.mpr hmore))]
  refine stage_below (n := t.rootNode) ?_ ?_ hlength hposition List.nil_prefix hmore
  · change L.Site t.rootNode [] t.edges (s.pc + 1)
    rw [hpc]
    exact hroot
  · intro hnil
    rw [show t.edges = .nil from hnil] at hsome
    cases hsome

end Opening

/-- Every step goes from a stage to a stage. -/
theorem Stage.step (h : Stage name L s) (hsize : p.size ≤ UInt32.size) (hopen : s.outcome = none) :
    Stage name L (s.step p.operations invokers name) := by
  cases h with
  | starting hpc hposition =>
    obtain ⟨hclear, -⟩ := opening_at L
    have hitem : (t.methodItems L.group)[s.pc]? = some (.plain .clearResult) := hpc.symm ▸ hclear
    rw [step_item L hitem]
    exact .cleared (congrArg (· + 1) hpc) hposition
  | cleared hpc hposition =>
    obtain ⟨-, hempty, -⟩ := opening_at L
    have hitem : (t.methodItems L.group)[s.pc]? = some (.jump .nameEmpty .epilogue) :=
      hpc.symm ▸ hempty
    cases hholds : s.holds name .nameEmpty with
    | true =>
      rw [step_taken L hitem hholds]
      refine .judged (judged_reject hsize rfl ?_)
      exact hposition ▸ Nat.zero_le _
    | false =>
      rw [step_passed L hitem hholds]
      exact .named (congrArg (· + 1) hpc) hposition (List.isEmpty_eq_false_iff.mp hholds)
  | named hpc hposition hname => exact step_named L hpc hname
  | begun hpc hposition hname hlength hsome => exact step_begun L hpc hposition hname hlength hsome
  | entering hfaces =>
    rw [step_item L hfaces.stands_test.1]
    exact .loaded (hfaces.of_cursor rfl rfl) rfl rfl
  | @loaded _ _ _ byte _ _ _ _ hfaces hpc hloaded =>
    have hitem : (t.methodItems L.group)[s.pc]? = some (.plain (.compareByte byte)) :=
      hpc.symm ▸ hfaces.stands_test.2.1
    rw [step_item L hitem]
    exact .compared (hfaces.of_cursor rfl rfl) (congrArg (· + 1) hpc)
      (congrArg (· == some byte) hloaded)
  | @compared _ _ _ byte _ _ rest _ hfaces hpc hflag =>
    have hitem : (t.methodItems L.group)[s.pc]? =
        some (.jump .different (.orEpilogue rest.first?)) := hpc.symm ▸ hfaces.stands_test.2.2.1
    cases hagrees : name[s.position]? == some byte with
    | false =>
      rw [step_taken L hitem (by rw [holds, hflag, hagrees]; rfl)]
      exact hfaces.mismatch hsize (beq_eq_false_iff_ne.mp hagrees)
    | true =>
      rw [step_passed L hitem (by rw [holds, hflag, hagrees]; rfl)]
      exact Faces.agreed (hfaces.of_cursor rfl rfl) (congrArg (· + 1) hpc) (beq_iff_eq.mp hagrees)
  | agreed hinside hlength hposition hspelled =>
    exact step_agreed hinside hlength hposition hspelled
  | atHook hcalls hstands hbelow hlength hposition hspelled =>
    exact step_atHook hsize hcalls hstands hbelow hlength hposition hspelled
  | passing hstands hbelow hsome hlength hposition hspelled =>
    cases hholds : s.holds name .exhausted with
    | true =>
      rw [step_taken L hstands.1 hholds]
      exact .judged (judged_reject hsize rfl (hposition ▸ hspelled.length_le))
    | false =>
      rw [step_passed L hstands.1 hholds]
      exact stage_below hbelow hsome hlength hposition hspelled
        (Nat.not_le.mp (of_decide_eq_false hholds))
  | judged hjudged => exact .judged (hjudged.step hsize hopen)

section Look
variable {op : Operation}

variable (name L s) in
/-- What is known where the name is looked at. -/
inductive Reads : Operation → Prop
  | load {above : Node} {before : List Node} {id : NodeId} {byte : UInt8}
    {terminal : Option MethodId} {below rest : Edges}
    (hfaces : Faces name L above before (.cons id byte terminal below rest) s.pc s) :
    Reads .loadByte
  | compare {above : Node} {before : List Node} {id : NodeId} {byte : UInt8}
    {terminal : Option MethodId} {below rest : Edges} {pos : Nat}
    (hfaces : Faces name L above before (.cons id byte terminal below rest) pos s)
    (hpc : s.pc = pos + 1) : Reads (.compareByte byte)
  | whole {key : String} (hcollapse : collapse = true) (hlength : s.length = name.length)
    (hjudged : ∀ invokers : Array (Invoker σ), Judged name L (s.step p.operations invokers name)) :
    Reads (.compareName key)
  | other {op : Operation} (hlooks : op.looks = false) : Reads op

theorem op_eq (L : Layout t r collapse p) (hitem : (t.methodItems L.group)[s.pc]? = some item)
    (hop : p.operations[s.pc]? = some op) : op = item.patched L.place :=
  Option.some.inj (hop.symm.trans (L.operation_at hitem))

/-- Nothing looks at a name that has been judged. -/
theorem Judged.not_looks (h : Judged name L s) (hopen : s.outcome = none)
    (hop : p.operations[s.pc]? = some op) : op.looks = false := by
  cases h with
  | ended hended =>
    rw [hopen] at hended
    cases hended
  | @answering seg hholds hquiet =>
    have hmem : op ∈ seg ++ [.ret] := by
      cases seg with
      | nil =>
        cases hop.symm.trans hholds.1
        exact List.mem_singleton_self _
      | cons first seg =>
        cases hop.symm.trans hholds.1
        exact List.mem_cons_self
    rcases List.mem_append.mp hmem with hseg | hret
    · exact Operation.not_looks_of_not_scans (hquiet op hseg)
    · rw [List.mem_singleton.mp hret]
      rfl
  | deciding hbranch =>
    rw [op_eq L hbranch hop]
    rfl

theorem reads_other (hitem : (t.methodItems L.group)[s.pc]? = some item)
    (hop : p.operations[s.pc]? = some op) (hlooks : (item.patched L.place).looks = false) :
    Reads name s L op :=
  .other (op_eq L hitem hop ▸ hlooks)

/-- The name is looked at in these stages only. -/
theorem Stage.reads (h : Stage name L s) (hopen : s.outcome = none)
    (hop : p.operations[s.pc]? = some op) : Reads name s L op := by
  obtain ⟨hclear, hempty, hinit, hguard⟩ := opening_at L
  cases h with
  | starting hpc hposition => exact reads_other (hpc.symm ▸ hclear) hop rfl
  | cleared hpc hposition => exact reads_other (hpc.symm ▸ hempty) hop rfl
  | named hpc hposition hname => exact reads_other (hpc.symm ▸ hinit) hop rfl
  | begun hpc hposition hname hlength hsome =>
    exact reads_other (hpc.symm ▸ hguard hsome) hop rfl
  | entering hfaces =>
    rw [op_eq L hfaces.stands_test.1 hop]
    exact .load hfaces
  | loaded hfaces hpc hloaded =>
    rw [op_eq L (hpc.symm ▸ hfaces.stands_test.2.1) hop]
    exact .compare hfaces hpc
  | compared hfaces hpc hflag => exact reads_other (hpc.symm ▸ hfaces.stands_test.2.2.1) hop rfl
  | agreed hinside hlength hposition hspelled =>
    cases hinside with
    | whole hcollapse hcalls hstands =>
      have hle := hspelled.length_le
      rw [op_eq L hstands.1 hop]
      exact .whole hcollapse hlength fun _ => judged_whole hcalls (by omega) hstands
    | terminal hcalls hstands hbelow => exact reads_other hstands.1 hop rfl
    | passing hstands hbelow hsome => exact reads_other hstands.1 hop rfl
  | atHook hcalls hstands hbelow hlength hposition hspelled =>
    exact reads_other hstands.1 hop rfl
  | passing hstands hbelow hsome hlength hposition hspelled =>
    exact reads_other hstands.1 hop rfl
  | judged hjudged => exact .other (hjudged.not_looks hopen hop)

end Look

end Step

end Run

end HookDispatch
