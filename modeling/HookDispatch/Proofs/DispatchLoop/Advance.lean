import HookDispatch.DispatchLoop.Run

/-!
What a run of a loop does: the states whose arms it enters, and the methods that it calls. A part of
a run goes from statements that are left to be done to other ones, through any number of arms; a
whole run is such a part that has ended, provided that it does not enter more arms than there are.
-/
namespace HookDispatch.DispatchLoop

namespace Run

variable {σ : Type}

def callee (s : Run σ) : Stmt → List (String × List Datum)
  | .call ident actuals _ => [(ident, actuals.map s.locals.datum)]
  | _ => []

def callees (scope : Scope σ) (name : List UInt8) (s : Run σ) :
    List Stmt → List (String × List Datum)
  | [] => []
  | stmt :: rest =>
    if s.outcome.isSome then []
    else s.callee stmt ++ (s.exec scope name stmt).callees scope name rest

def states (loop : DispatchLoop) (scope : Scope σ) (name : List UInt8) :
    Nat → Run σ → List Nat
  | 0, _ => []
  | n + 1, s =>
    if s.outcome.isSome then []
    else s.state :: states loop scope name n (s.step loop scope name)

def called (loop : DispatchLoop) (scope : Scope σ) (name : List UInt8) :
    Nat → Run σ → List (String × List Datum)
  | 0, _ => []
  | n + 1, s =>
    if s.outcome.isSome then []
    else
      { s with locals := {} }.callees scope name ((loop.body? s.state).getD []) ++
        called loop scope name n (s.step loop scope name)

/-- A part of a run, with the states that it enters and its method calls. On both ends are the
statements that are left of an arm. -/
inductive Advance (loop : DispatchLoop) (scope : Scope σ) (name : List UInt8) :
    List Nat → List (String × List Datum) → Run σ → List Stmt → Run σ → List Stmt → Prop
  | refl (s : Run σ) (stmts : List Stmt) : Advance loop scope name [] [] s stmts s stmts
  | exec {s s' : Run σ} {stmt : Stmt} {rest stmts : List Stmt} {entered : List Nat}
      {called : List (String × List Datum)} (hopen : s.outcome = none)
      (h : Advance loop scope name entered called (s.exec scope name stmt) rest s' stmts) :
      Advance loop scope name entered (s.callee stmt ++ called) s (stmt :: rest) s' stmts
  | enter {s s' : Run σ} {body stmts : List Stmt} {entered : List Nat}
      {called : List (String × List Datum)} (hopen : s.outcome = none)
      (hbody : loop.body? s.state = some body)
      (h : Advance loop scope name entered called { s with locals := {} } body s' stmts) :
      Advance loop scope name (s.state :: entered) called s [] s' stmts

section Advance
variable {loop : DispatchLoop} {scope : Scope σ} {name : List UInt8}
  {entered entered' : List Nat} {called called' : List (String × List Datum)}
  {s s' s'' : Run σ} {stmts stmts' stmts'' : List Stmt}

theorem execAll_of_ended (h : s.outcome.isSome) (stmts : List Stmt) :
    s.execAll scope name stmts = s := by
  cases stmts with
  | nil => rfl
  | cons stmt rest => rw [execAll, if_pos h]

theorem callees_of_ended (h : s.outcome.isSome) (stmts : List Stmt) :
    s.callees scope name stmts = [] := by
  cases stmts with
  | nil => rfl
  | cons stmt rest => rw [callees, if_pos h]

theorem Advance.trans (h : Advance loop scope name entered called s stmts s' stmts')
    (h' : Advance loop scope name entered' called' s' stmts' s'' stmts'') :
    Advance loop scope name (entered ++ entered') (called ++ called') s stmts s'' stmts'' := by
  induction h with
  | refl s stmts => exact h'
  | exec hopen _ ih =>
    rw [List.append_assoc]
    exact .exec hopen (ih h')
  | enter hopen hbody _ ih => exact .enter hopen hbody (ih h')

/-- One statement that calls nothing. -/
theorem Advance.single {stmt : Stmt} {rest : List Stmt} (hopen : s.outcome = none)
    (hquiet : s.callee stmt = []) :
    Advance loop scope name [] [] s (stmt :: rest) (s.exec scope name stmt) rest := by
  have hstep : Advance loop scope name [] (s.callee stmt ++ []) s (stmt :: rest)
      (s.exec scope name stmt) rest := .exec hopen (.refl _ rest)
  rwa [hquiet] at hstep

theorem step_eq {body : List Stmt} (hbody : loop.body? s.state = some body) :
    s.step loop scope name = { s with locals := {} }.execAll scope name body := by
  rw [step, hbody]

theorem Advance.go_add (h : Advance loop scope name entered called s stmts s' stmts') (n : Nat) :
    go loop scope name (entered.length + n) (s.execAll scope name stmts) =
      go loop scope name n (s'.execAll scope name stmts') := by
  induction h with
  | refl s stmts => rw [List.length_nil, Nat.zero_add]
  | exec hopen _ ih =>
    rw [execAll, hopen]
    exact ih
  | enter hopen hbody _ ih =>
    rw [List.length_cons, Nat.add_right_comm, execAll, go, hopen, step_eq hbody]
    exact ih

theorem Advance.states_add (h : Advance loop scope name entered called s stmts s' stmts')
    (n : Nat) : states loop scope name (entered.length + n) (s.execAll scope name stmts) =
      entered ++ states loop scope name n (s'.execAll scope name stmts') := by
  induction h with
  | refl s stmts => rw [List.length_nil, Nat.zero_add, List.nil_append]
  | exec hopen _ ih =>
    rw [execAll, hopen]
    exact ih
  | enter hopen hbody _ ih =>
    rw [List.length_cons, Nat.add_right_comm, execAll, states, hopen, step_eq hbody]
    exact congrArg (List.cons _) ih

theorem Advance.called_add (h : Advance loop scope name entered called s stmts s' stmts')
    (n : Nat) : s.callees scope name stmts ++
        Run.called loop scope name (entered.length + n) (s.execAll scope name stmts) =
      called ++ (s'.callees scope name stmts' ++
        Run.called loop scope name n (s'.execAll scope name stmts')) := by
  induction h with
  | refl s stmts => rw [List.length_nil, Nat.zero_add, List.nil_append]
  | exec hopen _ ih =>
    rw [execAll, callees, hopen, List.append_assoc]
    simp only [Option.isSome_none, Bool.false_eq_true, if_false, List.append_assoc, ih]
  | enter hopen hbody _ ih =>
    rw [List.length_cons, Nat.add_right_comm, execAll, callees, Run.called,
      if_neg (by simp [hopen]), step_eq hbody, hbody]
    exact ih

/-- A part of a run that has ended is the rest of the whole run. -/
theorem Advance.whole (h : Advance loop scope name entered called s [] s' stmts')
    (hended : s'.outcome.isSome) {n : Nat} (hn : entered.length ≤ n) :
    go loop scope name n s = s' ∧ states loop scope name n s = entered ∧
      Run.called loop scope name n s = called := by
  obtain ⟨k, rfl⟩ := Nat.exists_eq_add_of_le hn
  have hgo := h.go_add k
  have hstates := h.states_add k
  have hcalled := h.called_add k
  rw [execAll_of_ended hended] at hgo hstates hcalled
  rw [callees_of_ended hended] at hcalled
  have hstop : go loop scope name k s' = s' ∧ states loop scope name k s' = [] ∧
      Run.called loop scope name k s' = [] := by
    cases k with
    | zero => exact ⟨rfl, rfl, rfl⟩
    | succ k =>
      rw [go, states, Run.called, if_pos hended, if_pos hended, if_pos hended]
      exact ⟨rfl, rfl, rfl⟩
  rw [hstop.1] at hgo
  rw [hstop.2.1, List.append_nil] at hstates
  rw [hstop.2.2, List.append_nil, List.append_nil] at hcalled
  exact ⟨hgo, hstates, hcalled⟩

end Advance

end Run

variable {σ : Type}

def states (loop : DispatchLoop) (scope : Scope σ) (target : σ) (supply : Supply)
    (name : Option String) (result : Option Object) (args : Array Object) : List Nat :=
  Run.states loop scope (Text.bytes (name.getD "")) (loop.arms.length + 1)
    { result, args, target, supply }

def called (loop : DispatchLoop) (scope : Scope σ) (target : σ) (supply : Supply)
    (name : Option String) (result : Option Object) (args : Array Object) :
    List (String × List Datum) :=
  Run.called loop scope (Text.bytes (name.getD "")) (loop.arms.length + 1)
    { result, args, target, supply }

end HookDispatch.DispatchLoop
