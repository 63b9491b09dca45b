import HookDispatch.Proofs.Program.Layout

/-!
Where the blocks of a program begin. In a compiled program every branch goes to the first operation
of a node or to the rejection, so a branch never enters a call from the side, and a call with all
its operations is in one block.
-/
namespace HookDispatch

namespace Program

def Starts (op : Operation) (i x : Nat) : Prop :=
  (∃ l, op.target = some l ∧ l.toNat = x) ∨ endsBlock op = true ∧ i + 1 = x

theorem size_markStarts (marks : Array Bool) (op : Operation) (i : Nat) :
    (markStarts marks op i).size = marks.size := by
  rw [markStarts]
  cases op.target <;> simp only <;> split <;> simp only [Array.size_setIfInBounds]

theorem getElem?_mark {marks : Array Bool} {x : Nat} (hx : x < marks.size) (y : Nat) :
    (marks.setIfInBounds y true)[x]? = some true ↔ marks[x]? = some true ∨ y = x := by
  by_cases hy : y = x
  · subst hy
    simp [hx]
  · simp [hy]

theorem getElem?_markStarts {marks : Array Bool} {x : Nat} (hx : x < marks.size) (op : Operation)
    (i : Nat) : (markStarts marks op i)[x]? = some true ↔
      marks[x]? = some true ∨ Starts op i x := by
  have hx' : ∀ y, x < (marks.setIfInBounds y true).size := by
    intro y
    rwa [Array.size_setIfInBounds]
  rw [markStarts, Starts]
  cases op.target with
  | none =>
    cases endsBlock op with
    | false => simp
    | true => simpa using getElem?_mark hx (i + 1)
  | some l =>
    cases endsBlock op with
    | false => simpa using getElem?_mark hx l.toNat
    | true =>
      have hboth := getElem?_mark (hx' l.toNat) (i + 1)
      rw [getElem?_mark hx, or_assoc] at hboth
      simpa using hboth

theorem getElem?_foldl_markStarts (entries : List (Operation × Nat)) {marks : Array Bool} {x : Nat}
    (hx : x < marks.size) :
    (entries.foldl (fun marks (op, i) => markStarts marks op i) marks)[x]? = some true ↔
      marks[x]? = some true ∨ ∃ entry ∈ entries, Starts entry.1 entry.2 x := by
  induction entries generalizing marks with
  | nil => simp
  | cons entry entries ih =>
    rw [List.foldl_cons, ih (by rwa [size_markStarts]), getElem?_markStarts hx, or_assoc,
      List.exists_mem_cons_iff]

/-- Blocks begin at the first operation, at targets of branches, and after ends of blocks. -/
theorem mem_leaders {ops : Array Operation} {x : Nat} :
    x ∈ leaders ops ↔
      x < ops.size ∧ (x = 0 ∨ ∃ i op, ops[i]? = some op ∧ Starts op i x) := by
  rw [leaders, List.mem_filter, List.mem_range]
  refine and_congr_right fun hx => ?_
  have hsize : x < (Array.replicate ops.size false).size := by
    rwa [Array.size_replicate]
  have hmark : (startMarks ops).getD x false = true ↔ (startMarks ops)[x]? = some true := by
    rw [Array.getD_eq_getD_getElem?]
    cases (startMarks ops)[x]? <;> simp
  rw [hmark, startMarks, getElem?_foldl_markStarts _ (by rwa [Array.size_setIfInBounds]),
    getElem?_mark hsize]
  refine or_congr ?_ ?_
  · simp [hx, eq_comm]
  · constructor
    · rintro ⟨⟨op, i⟩, hmem, hstarts⟩
      refine ⟨i, op, ?_, hstarts⟩
      rw [← Array.getElem?_toList]
      exact List.mem_zipIdx_iff_getElem?.mp hmem
    · rintro ⟨i, op, hop, hstarts⟩
      refine ⟨(op, i), List.mem_zipIdx_iff_getElem?.mpr ?_, hstarts⟩
      rw [Array.getElem?_toList]
      exact hop

theorem pairwise_blockLeaders (p : Program) : p.blockLeaders.Pairwise (· < ·) :=
  List.pairwise_lt_range.filter _

theorem lt_of_mem_blockLeaders {p : Program} {x : Nat} (h : x ∈ p.blockLeaders) : x < p.size :=
  (mem_leaders.mp h).1

/-- The target of a branch begins a block. -/
theorem target_mem_blockLeaders {p : Program} {i : Nat} {op : Operation} {l : Label}
    (hop : p.operations[i]? = some op) (htarget : op.target = some l) (hl : l.toNat < p.size) :
    l.toNat ∈ p.blockLeaders :=
  mem_leaders.mpr ⟨hl, Or.inr ⟨i, op, hop, Or.inl ⟨l, htarget, rfl⟩⟩⟩

/-- A block begins after the end of another one. -/
theorem succ_mem_blockLeaders {p : Program} {i : Nat} {op : Operation}
    (hop : p.operations[i]? = some op) (hends : endsBlock op = true) (hi : i + 1 < p.size) :
    i + 1 ∈ p.blockLeaders :=
  mem_leaders.mpr ⟨hi, Or.inr ⟨i, op, hop, Or.inr ⟨hends, rfl⟩⟩⟩

end Program

namespace Layout

variable {t : Trie} {r : Registry} {collapse : Bool} {p : Program}

/-- A branch goes to the first operation of a node or to the rejection. -/
theorem target_op (L : Layout t r collapse p) (hsize : p.size ≤ UInt32.size) {i : Nat}
    {op : Operation} {l : Label} (hop : p.operations[i]? = some op) (htarget : op.target = some l) :
    p.operations[l.toNat]? = some .loadByte ∨
      p.operations[l.toNat]? = some (.setHandled false) := by
  have hitem : ∃ item, (t.methodItems L.group)[i]? = some item ∧ item.patched L.place = op := by
    rw [L.operations, List.getElem?_toArray, List.getElem?_map] at hop
    exact Option.map_eq_some_iff.mp hop
  obtain ⟨item, hitem, rfl⟩ := hitem
  cases item with
  | plain op =>
    have hplain := Trie.target_plain_methodItems L.emitted (List.mem_of_getElem? hitem)
    cases hplain.symm.trans htarget
  | entry id => cases htarget
  | jump c target =>
    cases htarget
    cases target with
    | epilogue =>
      right
      rw [L.toNat_epilogue hsize]
      exact L.holds_rejection.1
    | node id =>
      left
      obtain ⟨j, -, hj⟩ := (Trie.wired_methodItems L.emitted).exists_entry hitem
      rw [L.entries j id hj, L.operations, List.getElem?_toArray, List.getElem?_map, hj]
      rfl

end Layout

namespace Registry.Answers

variable {r : Registry} {found : Option MethodId} {body : List Operation}

/-- After their first operation, the answers have no place that a branch goes to. -/
theorem not_entered (h : r.Answers found body) {i : Nat} {op : Operation}
    (hop : body[i + 1]? = some op) : op ≠ .loadByte ∧ op ≠ .setHandled false := by
  cases h with
  | call hcalls =>
    rcases Method.mem_callSequence (List.mem_of_getElem? hop) with hmarshals | rfl | rfl
    · constructor <;> rintro rfl <;> cases hmarshals
    · simp
    · simp
  | reject =>
    cases i with
    | zero =>
      cases hop
      simp
    | succ i => cases hop

end Registry.Answers

/-- No block begins in the middle of the operations that answer a name. -/
theorem Layout.not_mem_blockLeaders {t : Trie} {r : Registry} {collapse : Bool} {p : Program}
    (L : Layout t r collapse p) (hsize : p.size ≤ UInt32.size) {found : Option MethodId}
    {body : List Operation} (hanswers : r.Answers found body) {pos : Nat}
    (hholds : Holds p.operations pos body) {x : Nat} (hlo : pos < x) (hhi : x < pos + body.length) :
    x ∉ p.blockLeaders := by
  intro hx
  obtain ⟨k, rfl⟩ : ∃ k, x = pos + (k + 1) := ⟨x - pos - 1, by omega⟩
  obtain ⟨-, hzero | ⟨i, op, hop, hstarts⟩⟩ := Program.mem_leaders.mp hx
  · omega
  rcases hstarts with ⟨l, htarget, hl⟩ | ⟨hends, hi⟩
  · -- A branch comes to the place, but none of its goals stands there.
    have hinside : body[k + 1]? = some body[k + 1] := List.getElem?_eq_getElem (by omega)
    obtain ⟨hload, hreject⟩ := hanswers.not_entered hinside
    have hgoal := L.target_op hsize hop htarget
    rw [hl, hholds.getElem? hinside, Option.some.injEq, Option.some.injEq] at hgoal
    rcases hgoal with hgoal | hgoal
    · exact hload hgoal
    · exact hreject hgoal
  · -- The operation before it is none of those that end a block.
    obtain ⟨seg, rfl, hseg⟩ := hanswers.ends_once
    rw [List.length_append, List.length_singleton] at hhi
    have hbefore : (seg ++ [Operation.ret])[k]? = some seg[k] := by
      rw [List.getElem?_append_left (by omega), List.getElem?_eq_getElem]
    obtain rfl : i = pos + k := by omega
    obtain rfl : seg[k] = op := Option.some.inj ((hholds.getElem? hbefore).symm.trans hop)
    rw [hseg _ (List.getElem_mem (by omega))] at hends
    cases hends

end HookDispatch
