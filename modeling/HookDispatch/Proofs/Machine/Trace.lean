import HookDispatch.Machine.Dispatcher
import HookDispatch.Proofs.Program.Layout

/-!
What a run does, as a list of operations with the states before them. A part of a run in which
control only goes up is a climb; climbs are put together, and one that starts at the beginning is
never longer than the program, so a bounded run does all of it. Operations that are no branches are
done in a row.
-/
namespace HookDispatch

namespace Run

variable {σ : Type}

/-- The state in which an operation is done: control is past it, and it is counted. -/
def tick (s : Run σ) : Run σ :=
  { s with pc := s.pc + 1, stats := { s.stats with steps := s.stats.steps + 1 } }

@[simp]
theorem steps_tick (s : Run σ) : s.tick.stats.steps = s.stats.steps + 1 := rfl

def trace (ops : Array Operation) (invokers : Array (Invoker σ)) (name : List UInt8) :
    Nat → Run σ → List (Operation × Run σ)
  | 0, _ => []
  | n + 1, s =>
    if s.outcome.isSome then []
    else
      match ops[s.pc]? with
      | none => []
      | some op => (op, s) :: trace ops invokers name n (s.step ops invokers name)

def calls (done : List (Operation × Run σ)) : List (MethodId × Frame) :=
  done.filterMap fun
    | (.call hook, s) => some (hook, s.frame)
    | _ => none

/-- A part of a run in which control only goes up. -/
inductive Climb (ops : Array Operation) (invokers : Array (Invoker σ)) (name : List UInt8) :
    List (Operation × Run σ) → Run σ → Run σ → Prop
  | refl (s : Run σ) : Climb ops invokers name [] s s
  | step {op : Operation} {s s' : Run σ} {done : List (Operation × Run σ)}
      (hopen : s.outcome = none) (hop : ops[s.pc]? = some op)
      (hup : s.pc < (exec invokers name s.tick op).pc)
      (h : Climb ops invokers name done (exec invokers name s.tick op) s') :
      Climb ops invokers name ((op, s) :: done) s s'

section Climb
variable {ops : Array Operation} {invokers : Array (Invoker σ)} {name : List UInt8}
  {done done' : List (Operation × Run σ)} {s s' s'' : Run σ} {op : Operation}

theorem step_eq (hop : ops[s.pc]? = some op) :
    s.step ops invokers name = exec invokers name s.tick op := by
  rw [step, hop]
  rfl

theorem go_of_ended (h : s.outcome.isSome) (n : Nat) : go ops invokers name n s = s := by
  cases n with
  | zero => rfl
  | succ n => rw [go, if_pos h]

theorem trace_of_ended (h : s.outcome.isSome) (n : Nat) : trace ops invokers name n s = [] := by
  cases n with
  | zero => rfl
  | succ n => rw [trace, if_pos h]

theorem Climb.single (hopen : s.outcome = none) (hop : ops[s.pc]? = some op)
    (hup : s.pc < (exec invokers name s.tick op).pc) :
    Climb ops invokers name [(op, s)] s (exec invokers name s.tick op) :=
  .step hopen hop hup (.refl _)

theorem Climb.trans (h : Climb ops invokers name done s s')
    (h' : Climb ops invokers name done' s' s'') :
    Climb ops invokers name (done ++ done') s s'' := by
  induction h with
  | refl s => exact h'
  | step hopen hop hup _ ih => exact .step hopen hop hup (ih h')

theorem Climb.go_add (h : Climb ops invokers name done s s') (n : Nat) :
    go ops invokers name (done.length + n) s = go ops invokers name n s' := by
  induction h with
  | refl s => rw [List.length_nil, Nat.zero_add]
  | step hopen hop hup _ ih =>
    rw [List.length_cons, Nat.add_right_comm, go, hopen, step_eq hop]
    exact ih

theorem Climb.trace_add (h : Climb ops invokers name done s s') (n : Nat) :
    trace ops invokers name (done.length + n) s = done ++ trace ops invokers name n s' := by
  induction h with
  | refl s => rw [List.length_nil, Nat.zero_add, List.nil_append]
  | step hopen hop hup _ ih =>
    rw [List.length_cons, Nat.add_right_comm, trace, hopen]
    simp only [hop, step_eq hop, ih, List.cons_append]
    rfl

theorem Climb.pc_le (h : Climb ops invokers name done s s') : s.pc ≤ s'.pc := by
  induction h with
  | refl s => exact Nat.le_refl _
  | step hopen hop hup _ ih => exact Nat.le_trans (Nat.le_of_lt hup) ih

/-- Control passes every operation at most once. -/
theorem Climb.length_le (h : Climb ops invokers name done s s') :
    done = [] ∨ done.length + s.pc ≤ ops.size := by
  induction h with
  | refl s => exact Or.inl rfl
  | step hopen hop hup _ ih =>
    refine Or.inr ?_
    have hlt := (Array.getElem?_eq_some_iff.mp hop).1
    rw [List.length_cons]
    rcases ih with rfl | ih
    · rw [List.length_nil]
      omega
    · omega

/-- A climb from the first operation to the end of the run is the whole run. -/
theorem Climb.whole (h : Climb ops invokers name done s s') (hstart : s.pc = 0)
    (hend : s'.outcome.isSome) :
    go ops invokers name (ops.size + 1) s = s' ∧
      trace ops invokers name (ops.size + 1) s = done := by
  obtain ⟨n, hn⟩ : ∃ n, ops.size + 1 = done.length + n := by
    refine Nat.exists_eq_add_of_le ?_
    rcases h.length_le with rfl | hle
    · exact Nat.zero_le _
    · omega
  rw [hn, h.go_add, h.trace_add, go_of_ended hend, trace_of_ended hend, List.append_nil]
  exact ⟨rfl, rfl⟩

@[simp]
theorem steps_exec (s : Run σ) (op : Operation) :
    (exec invokers name s op).stats.steps = s.stats.steps := by
  cases op <;> simp only [exec, inspect, compareName, fillTemp, callHook, storeArg, fail]
  all_goals
    repeat' split
    all_goals rfl

/-- The steps of a climb are its operations. -/
theorem Climb.steps (h : Climb ops invokers name done s s') :
    s'.stats.steps = s.stats.steps + done.length := by
  induction h with
  | refl s => rfl
  | step hopen hop hup _ ih =>
    rw [ih, steps_exec, steps_tick, List.length_cons, Nat.add_assoc, Nat.add_comm 1]

end Climb

def straight (invokers : Array (Invoker σ)) (name : List UInt8) :
    List Operation → Run σ → Run σ
  | [], s => s
  | op :: seg, s =>
    if s.outcome.isSome then s else straight invokers name seg (exec invokers name s.tick op)

def along (invokers : Array (Invoker σ)) (name : List UInt8) :
    List Operation → Run σ → List (Operation × Run σ)
  | [], _ => []
  | op :: seg, s =>
    if s.outcome.isSome then []
    else (op, s) :: along invokers name seg (exec invokers name s.tick op)

section Straight
variable {ops : Array Operation} {invokers : Array (Invoker σ)} {name : List UInt8} {s : Run σ}

theorem straight_cons (h : s.outcome = none) (op : Operation) (seg : List Operation) :
    straight invokers name (op :: seg) s =
      straight invokers name seg (exec invokers name s.tick op) := by
  rw [straight, if_neg (by simp [h])]

theorem along_cons (h : s.outcome = none) (op : Operation) (seg : List Operation) :
    along invokers name (op :: seg) s =
      (op, s) :: along invokers name seg (exec invokers name s.tick op) := by
  rw [along, if_neg (by simp [h])]

theorem straight_of_ended (h : s.outcome.isSome) (seg : List Operation) :
    straight invokers name seg s = s := by
  cases seg with
  | nil => rfl
  | cons op seg => rw [straight, if_pos h]

theorem along_of_ended (h : s.outcome.isSome) (seg : List Operation) :
    along invokers name seg s = [] := by
  cases seg with
  | nil => rfl
  | cons op seg => rw [along, if_pos h]

theorem straight_append (a b : List Operation) (s : Run σ) :
    straight invokers name (a ++ b) s = straight invokers name b (straight invokers name a s) := by
  induction a generalizing s with
  | nil => rfl
  | cons op a ih =>
    rw [List.cons_append, straight, straight]
    split
    · rename_i hended
      rw [straight_of_ended hended]
    · exact ih _

theorem along_append (a b : List Operation) (s : Run σ) :
    along invokers name (a ++ b) s =
      along invokers name a s ++ along invokers name b (straight invokers name a s) := by
  induction a generalizing s with
  | nil => rfl
  | cons op a ih =>
    rw [List.cons_append, along, along, straight]
    split
    · rename_i hended
      rw [along_of_ended hended]
      rfl
    · rw [ih]
      rfl

theorem pc_exec {op : Operation} (h : op.target = none) (s : Run σ) :
    (exec invokers name s op).pc = s.pc := by
  cases op with
  | branch c l => cases h
  | _ =>
    simp only [exec, inspect, compareName, fillTemp, callHook, storeArg, fail]
    repeat' split
    all_goals rfl

/-- Operations without branches are climbed in a row. -/
theorem climb_straight {seg : List Operation} (hseg : ∀ op ∈ seg, op.target = none)
    (hops : Holds ops s.pc seg) :
    Climb ops invokers name (along invokers name seg s) s (straight invokers name seg s) := by
  induction seg generalizing s with
  | nil => exact .refl s
  | cons op seg ih =>
    rw [along, straight]
    split
    · exact .refl s
    · rename_i hopen
      have hpc : (exec invokers name s.tick op).pc = s.pc + 1 :=
        pc_exec (hseg op List.mem_cons_self) s.tick
      refine .step (by simpa using hopen) hops.1 (by omega) (ih ?_ ?_)
      · exact fun op' hmem => hseg op' (List.mem_cons_of_mem op hmem)
      · rw [hpc]
        exact hops.2

theorem map_along (seg : List Operation) (s : Run σ) :
    (along invokers name seg s).map Prod.fst <+: seg := by
  induction seg generalizing s with
  | nil => exact List.prefix_rfl
  | cons op seg ih =>
    rw [along]
    split
    · exact List.nil_prefix
    · exact List.cons_prefix_cons.mpr ⟨rfl, ih _⟩

end Straight

end Run

end HookDispatch
