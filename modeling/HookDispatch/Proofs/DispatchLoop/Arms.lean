import HookDispatch.DispatchLoop.OfProgram
import HookDispatch.Proofs.Program.Leaders

/-!
The arms of a compiled loop. Every position where a block begins is the state of an arm, and its
statements are those of the operations from there up to where the next block begins.
-/
namespace HookDispatch

namespace Program

def slice (p : Program) (start next : Nat) : List Operation :=
  (p.operations.toList.drop start).take (next - start)

structure Reaches (p : Program) (pc next : Nat) : Prop where
  lt : pc < next
  le : next ≤ p.size
  least : ∀ x ∈ p.blockLeaders, pc < x → next ≤ x
  begins : next < p.size → next ∈ p.blockLeaders

variable {p : Program} {pc next : Nat}

theorem slice_self (p : Program) (pc : Nat) : p.slice pc pc = [] := by
  rw [slice, Nat.sub_self, List.take_zero]

theorem slice_cons {op : Operation} (hop : p.operations[pc]? = some op) (h : pc < next) :
    p.slice pc next = op :: p.slice (pc + 1) next := by
  obtain ⟨k, rfl⟩ : ∃ k, next = pc + 1 + k := ⟨next - (pc + 1), by omega⟩
  rw [← Array.getElem?_toList] at hop
  obtain ⟨hpc, rfl⟩ := List.getElem?_eq_some_iff.mp hop
  rw [slice, slice, List.drop_eq_getElem_cons hpc, show pc + 1 + k - pc = k + 1 by omega,
    Nat.add_sub_cancel_left, List.take_succ_cons]

theorem slice_of_holds {seg : List Operation} (h : Holds p.operations pc seg) :
    p.slice pc (pc + seg.length) = seg := by
  induction seg generalizing pc with
  | nil => exact p.slice_self pc
  | cons op seg ih =>
    rw [slice_cons h.1 (by rw [List.length_cons]; omega), List.length_cons,
      show pc + (seg.length + 1) = pc + 1 + seg.length by omega, ih h.2]

/-- The block of a leader reaches the next leader, or the end of the program. -/
theorem reaches_of_blockLeaders {pre rest : List Nat} {start : Nat}
    (h : p.blockLeaders = pre ++ start :: rest) : p.Reaches start (rest.head?.getD p.size) := by
  have hsorted := p.pairwise_blockLeaders
  rw [h, List.pairwise_append, List.pairwise_cons] at hsorted
  obtain ⟨-, ⟨hafter, hrest⟩, hbefore⟩ := hsorted
  have hlt : ∀ x ∈ p.blockLeaders, x < p.size := fun x hx => lt_of_mem_blockLeaders hx
  have hlater : ∀ x ∈ p.blockLeaders, start < x → x ∈ rest := by
    intro x hx hstart
    rw [h, List.mem_append, List.mem_cons] at hx
    rcases hx with hpre | rfl | hrest
    · have := hbefore x hpre start List.mem_cons_self
      omega
    · omega
    · exact hrest
  rw [h] at hlt
  cases rest with
  | nil =>
    refine ⟨hlt start (by simp), Nat.le_refl _, fun x hx hstart => ?_, fun hself => ?_⟩
    · cases hlater x hx hstart
    · exact absurd hself (Nat.lt_irrefl _)
  | cons next rest =>
    refine ⟨hafter next List.mem_cons_self, Nat.le_of_lt (hlt next (by simp)),
      fun x hx hstart => ?_, fun _ => by rw [h]; simp⟩
    rcases List.mem_cons.mp (hlater x hx hstart) with rfl | hx
    · exact Nat.le_refl _
    · exact Nat.le_of_lt ((List.pairwise_cons.mp hrest).1 x hx)

end Program

namespace DispatchLoop

def onward (next : Nat) (block : List Operation) : List Stmt :=
  if block.any Program.endsBlock then [] else [.goto next]

/-- Statements for the rest of the block that a position is in, while no operands wait. -/
def Lowered (p : Program) (ids : Identifiers) (pc : Nat) (stmts : List Stmt) : Prop :=
  ∃ next body, p.Reaches pc next ∧ lowerOperations p ids next {} (p.slice pc next) = .ok body ∧
    stmts = body ++ onward next (p.slice pc next)

variable {p : Program} {ids : Identifiers}

theorem lowerBlock_eq_ok {start next : Nat} {arm : Arm}
    (h : lowerBlock p ids start next = .ok arm) :
    arm.state = start ∧ ∃ body, lowerOperations p ids next {} (p.slice start next) = .ok body ∧
      arm.body = body ++ onward next (p.slice start next) := by
  rw [lowerBlock] at h
  cases hbody : lowerOperations p ids next {} (p.slice start next) with
  | error e =>
    rw [Program.slice] at hbody
    simp only [hbody] at h
    cases h
  | ok body =>
    rw [Program.slice] at hbody
    simp only [hbody] at h
    cases h
    exact ⟨rfl, body, rfl, rfl⟩

/-- The arms of blocks have their states, and each is lowered up to the next block. -/
theorem lowerBlocks_eq_ok {starts : List Nat} {arms : List Arm}
    (h : lowerBlocks p ids starts = .ok arms) :
    arms.map Arm.state = starts ∧ ∀ pre start rest, starts = pre ++ start :: rest →
      ∃ arm ∈ arms, lowerBlock p ids start (rest.head?.getD p.size) = .ok arm := by
  induction starts generalizing arms with
  | nil =>
    cases h
    exact ⟨rfl, fun pre start rest hstarts => by simp at hstarts⟩
  | cons first starts ih =>
    rw [lowerBlocks] at h
    split at h
    · cases h
    · rename_i arm harm
      cases htail : lowerBlocks p ids starts with
      | error e =>
        rw [htail] at h
        cases h
      | ok others =>
        rw [htail] at h
        cases h
        obtain ⟨hstates, harms⟩ := ih htail
        refine ⟨by rw [List.map_cons, hstates, (lowerBlock_eq_ok harm).1], ?_⟩
        intro pre start rest hstarts
        cases pre with
        | nil =>
          cases hstarts
          exact ⟨arm, List.mem_cons_self, harm⟩
        | cons x pre =>
          obtain ⟨-, rfl⟩ := List.cons.inj hstarts
          obtain ⟨arm', hmem, harm'⟩ := harms pre start rest rfl
          exact ⟨arm', List.mem_cons_of_mem arm hmem, harm'⟩

theorem ofProgram_eq_ok {loop : DispatchLoop} (h : ofProgram p ids = .ok loop) :
    lowerBlocks p ids p.blockLeaders = .ok loop.arms := by
  rw [ofProgram] at h
  cases harms : lowerBlocks p ids p.blockLeaders with
  | error e =>
    rw [harms] at h
    cases h
  | ok arms =>
    rw [harms] at h
    cases h
    rfl

/-- A loop has an arm for each block. -/
theorem length_arms {loop : DispatchLoop} (h : ofProgram p ids = .ok loop) :
    loop.arms.length = p.blockLeaders.length := by
  rw [← (lowerBlocks_eq_ok (ofProgram_eq_ok h)).1, List.length_map]

/-- Where a block begins, the loop has its statements. -/
theorem body?_of_mem {loop : DispatchLoop} (h : ofProgram p ids = .ok loop) {start : Nat}
    (hstart : start ∈ p.blockLeaders) :
    ∃ body, loop.body? start = some body ∧ Lowered p ids start body := by
  obtain ⟨hstates, harms⟩ := lowerBlocks_eq_ok (ofProgram_eq_ok h)
  obtain ⟨pre, rest, hsplit⟩ := List.append_of_mem hstart
  obtain ⟨arm, hmem, harm⟩ := harms pre start rest hsplit
  obtain ⟨rfl, body, hbody, heq⟩ := lowerBlock_eq_ok harm
  have hnodup : (loop.arms.map Arm.state).Nodup := by
    rw [hstates]
    exact p.pairwise_blockLeaders.imp Nat.ne_of_lt
  refine ⟨arm.body, ?_, _, body, Program.reaches_of_blockLeaders hsplit, hbody, heq⟩
  rw [body?, find?_of_nodup_map hnodup hmem]
  rfl

end DispatchLoop

end HookDispatch
