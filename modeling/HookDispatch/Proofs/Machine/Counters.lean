import HookDispatch.Proofs.Machine.Effects

/-!
What is counted in a run. What every step keeps holds after any number of steps, and wherever an
operation is done. The comparisons are counted one by one, and of the name no more is inspected than
the operations that look at it reach.
-/
namespace HookDispatch

namespace Operation

def compares : Operation → Bool
  | .compareByte _ | .compareName _ => true
  | _ => false

def comparesByte : Operation → Bool
  | .compareByte _ => true
  | _ => false

def comparesName : Operation → Bool
  | .compareName _ => true
  | _ => false

end Operation

namespace Run

variable {σ : Type} {ops : Array Operation} {invokers : Array (Invoker σ)} {name : List UInt8}
  {s : Run σ}

section Kept
variable {P : Run σ → Prop}

/-- What every step keeps holds after any number of steps. -/
theorem go_of_step (hstep : ∀ s, P s → s.outcome = none → P (s.step ops invokers name)) (h : P s)
    (n : Nat) : P (go ops invokers name n s) := by
  induction n generalizing s with
  | zero => exact h
  | succ n ih =>
    rw [go]
    split
    · exact h
    · rename_i hopen
      exact ih (hstep s h (by simpa using hopen))

theorem mem_trace_of_step (hstep : ∀ s, P s → s.outcome = none → P (s.step ops invokers name))
    (h : P s) {n : Nat} {e : Operation × Run σ} (he : e ∈ trace ops invokers name n s) :
    P e.2 ∧ e.2.outcome = none ∧ ops[e.2.pc]? = some e.1 := by
  induction n generalizing s with
  | zero => cases he
  | succ n ih =>
    rw [trace] at he
    split at he
    · cases he
    · rename_i hopen
      have hnone : s.outcome = none := by simpa using hopen
      split at he
      · cases he
      · rename_i op hop
        rcases List.mem_cons.mp he with rfl | hrest
        · exact ⟨h, hnone, hop⟩
        · exact ih (hstep s h hnone) hrest

end Kept

/-- Either a byte is compared or the whole name. -/
theorem countP_compares (done : List (Operation × Run σ)) :
    done.countP (·.1.compares) =
      done.countP (·.1.comparesByte) + done.countP (·.1.comparesName) := by
  induction done with
  | nil => rfl
  | cons e done ih =>
    obtain ⟨op, s⟩ := e
    simp only [List.countP_cons, ih]
    cases op with
    | compareByte byte =>
      change _ + 1 = (_ + 1) + (_ + 0)
      omega
    | compareName key => rfl
    | _ => rfl

theorem compares_exec (op : Operation) (s : Run σ) :
    (exec invokers name s op).stats.compares =
      s.stats.compares + if op.compares then 1 else 0 := by
  cases op with
  | compareByte => rfl
  | compareName key =>
    simp only [exec, compareName]
    split <;> rfl
  | _ =>
    simp only [exec, fillTemp, callHook, storeArg, fail, Operation.compares,
      Bool.false_eq_true, if_false, Nat.add_zero]
    repeat' split
    all_goals rfl

/-- A run counts its comparisons. -/
theorem compares_go (n : Nat) (s : Run σ) :
    (go ops invokers name n s).stats.compares =
      s.stats.compares + (trace ops invokers name n s).countP (·.1.compares) := by
  induction n generalizing s with
  | zero => rfl
  | succ n ih =>
    rw [go, trace]
    split
    · rfl
    · cases hop : ops[s.pc]? with
      | none =>
        have hstep : s.step ops invokers name = { s with outcome := some (.ok false) } := by
          rw [step, hop]
        rw [hstep, go_of_ended rfl]
        rfl
      | some op =>
        rw [ih, step_eq hop, compares_exec]
        simp only [List.countP_cons]
        change s.stats.compares + _ + _ = _
        omega

/-- An operation inspects as much of the name as it looks at. -/
theorem inspected_exec_le {bound : Nat} {op : Operation} (h : s.stats.inspected ≤ bound)
    (hload : op = .loadByte → s.position + 1 ≤ bound)
    (hwhole : ∀ key, op = .compareName key → key.utf8ByteSize = name.length → s.length ≤ bound) :
    (exec invokers name s op).stats.inspected ≤ bound := by
  cases op with
  | loadByte => exact Nat.max_le.mpr ⟨h, hload rfl⟩
  | compareName key =>
    simp only [exec, compareName]
    split
    · rename_i hlength
      exact Nat.max_le.mpr ⟨h, hwhole key rfl hlength.symm⟩
    · exact h
  | _ =>
    simp only [exec, fillTemp, callHook, storeArg, fail]
    repeat' split
    all_goals exact h

/-- A run inspects no more of the name than its operations look at. -/
theorem inspected_go_le {bound n : Nat} (h : s.stats.inspected ≤ bound)
    (hload : ∀ e ∈ trace ops invokers name n s, e.1 = .loadByte → e.2.position + 1 ≤ bound)
    (hwhole : ∀ e ∈ trace ops invokers name n s, ∀ key, e.1 = .compareName key →
      key.utf8ByteSize = name.length → e.2.length ≤ bound) :
    (go ops invokers name n s).stats.inspected ≤ bound := by
  induction n generalizing s with
  | zero => exact h
  | succ n ih =>
    rw [trace] at hload hwhole
    rw [go]
    split
    · exact h
    · rename_i hopen
      simp only [if_neg hopen] at hload hwhole
      cases hop : ops[s.pc]? with
      | none =>
        rw [step, hop, go_of_ended rfl]
        exact h
      | some op =>
        simp only [hop, List.forall_mem_cons] at hload hwhole
        have hnext : (s.step ops invokers name).stats.inspected ≤ bound := by
          rw [step_eq hop]
          exact inspected_exec_le (s := s.tick) h hload.1 hwhole.1
        exact ih hnext hload.2 hwhole.2

end Run

end HookDispatch
