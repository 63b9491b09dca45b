import HookDispatch.Proofs.Machine.Answer
import HookDispatch.Proofs.Machine.Binding
import HookDispatch.Proofs.Machine.Marshal
import HookDispatch.Proofs.Program.Temporaries
import HookDispatch.Proofs.Specimen

/-!
The effect of a call. If an argument is missing nothing happens; else the invoker is entered once,
with a frame of all parameters, and its writes reach the argument array only if it succeeds.
-/
namespace HookDispatch

namespace Run

variable {σ : Type} {m : Method} {hook : MethodId} {invoker : Invoker σ}
  {invokers : Array (Invoker σ)} {name : List UInt8} {start s : Run σ}

/-- What a call leaves behind when its invoker has ended. -/
structure Settled (m : Method) (ending : Body.Ending σ) (writes : List (Nat × Object))
    (args : Array Object) (s : Run σ) : Prop where
  target_eq : s.target = ending.state
  supply_eq : s.supply = ending.supply
  failed : ∀ e, ending.result = .error e →
    s.answer = .error e ∧ s.result = none ∧ s.args = args
  succeeded : ∀ returned, ending.result = .ok returned →
    s.answer = .ok true ∧ s.result = (if m.ret.isVoid then none else returned) ∧
      ∀ i, s.args[i]? = if m.isMutable i then (lastWritten writes i).or args[i]? else args[i]?

/-- What a call leaves behind in any case: what its invoker ended with, and the arguments as they
were if it failed. -/
structure Ended (m : Method) (ending : Body.Ending σ) (args : Array Object) (s : Run σ) : Prop where
  target_eq : s.target = ending.state
  supply_eq : s.supply = ending.supply
  failed : ∀ e, ending.result = .error e →
    s.answer = .error e ∧ s.result = none ∧ s.args = args
  succeeded : ∀ returned, ending.result = .ok returned →
    s.answer = .ok true ∧ s.result = if m.ret.isVoid then none else returned

theorem Ended.settled {ending : Body.Ending σ} {writes : List (Nat × Object)} {args : Array Object}
    (h : Ended m ending args s) (hargs : ∀ returned, ending.result = .ok returned → ∀ i,
      s.args[i]? = if m.isMutable i then (lastWritten writes i).or args[i]? else args[i]?) :
    Settled m ending writes args s :=
  ⟨h.target_eq, h.supply_eq, h.failed, fun returned hreturned =>
    ⟨(h.succeeded returned hreturned).1, (h.succeeded returned hreturned).2,
      hargs returned hreturned⟩⟩

/-- A call of the method is about to begin, and the caller sees nothing of the run so far. -/
structure Poised (m : Method) (start s : Run σ) : Prop extends Untouched start s where
  running : s.outcome = none
  operands_eq : s.operands = #[]
  room : m.borrowCount ≤ s.temps.size

def cellOf (args : Array Object) (i : Nat) : Object := args[i]?.getD ⟨0, .unit⟩

theorem getElem?_cellOf {args : Array Object} (hsize : m.params.length ≤ args.size) :
    ∀ (n : Nat) (p : Parameter), m.params[n]? = some p → args[n]? = some (cellOf args n) := by
  intro n p hp
  have hlt := (List.getElem?_eq_some_iff.mp hp).1
  rw [cellOf, Array.getElem?_eq_getElem (Nat.lt_of_lt_of_le hlt hsize)]
  rfl

/-- The frame of unpacked parameters shows the arguments. -/
theorem Unpacked.cells (h : Unpacked m m.params.length start s)
    (hcount : m.borrowCount ≤ UInt16.size) (hsize : m.params.length ≤ start.args.size) :
    s.frame.Cells m (cellOf start.args) := by
  have hsome := getElem?_cellOf hsize
  refine ⟨h.count_eq, ?_, ?_, ?_⟩
  · intro n
    by_cases hn : n < m.params.length
    · exact h.operand_eq n hn
    · have hnone : s.frame.operands[n]? = none := by
        apply Array.getElem?_eq_none
        rw [show s.frame.operands.size = m.params.length from h.count_eq]
        exact Nat.not_lt.mp hn
      rw [hnone, Method.operand?, List.getElem?_eq_none (Nat.not_lt.mp hn)]
      rfl
  · intro n p hp _
    rw [show s.frame.args = start.args from h.args_eq]
    exact hsome n p hp
  · intro n p hp hborrow
    exact h.filled hcount n (List.getElem?_eq_some_iff.mp hp).1 p _ hp hborrow (hsome n p hp)

variable (invokers name) in
theorem straight_storeReturn (hret : m.ret.isGeneric = false) (hrunning : s.outcome = none)
    (hresult : s.result = none) :
    ∃ w, straight invokers name m.storeReturn s = w ∧ w.outcome = none ∧
      w.result = (if m.ret.isVoid then none else s.returned) ∧ w.args = s.args ∧
      w.temps = s.temps ∧ w.target = s.target ∧ w.supply = s.supply := by
  refine ⟨_, rfl, ?_⟩
  unfold Method.storeReturn
  cases hform : m.ret with
  | void => exact ⟨hrunning, hresult, rfl, rfl, rfl, rfl⟩
  | value type =>
    simp only [straight_cons hrunning]
    exact ⟨hrunning, rfl, rfl, rfl, rfl, rfl⟩
  | object =>
    simp only [straight_cons hrunning]
    exact ⟨hrunning, rfl, rfl, rfl, rfl, rfl⟩
  | generic text =>
    rw [hform] at hret
    cases hret

variable (invokers name) in
/-- Putting arguments back changes the temporaries and the arguments only. -/
theorem straight_writeBackFrom (index temp : Nat) (ps : List Parameter)
    (hrunning : s.outcome = none) :
    ∃ w, straight invokers name (Method.writeBackFrom index temp ps) s = w ∧ w.outcome = none ∧
      w.result = s.result ∧ w.target = s.target ∧ w.supply = s.supply := by
  induction ps generalizing index temp s with
  | nil => exact ⟨s, rfl, hrunning, rfl, rfl, rfl⟩
  | cons p ps ih =>
    rw [Method.writeBackFrom, straight_append]
    by_cases hmutable : p.passing = .mutable
    · rw [if_pos hmutable, straight_cons hrunning, straight, exec, storeArg]
      cases s.tick.temps.getD (TempId.ofNat temp).toNat none with
      | none => exact ih (s := s.tick) _ _ hrunning
      | some filled => exact ih (s := { s.tick with temps := _, args := _ }) _ _ hrunning
    · rw [if_neg hmutable]
      exact ih _ _ hrunning

variable (invokers name) in
/-- After a hook that succeeded its result is stored, and the name is reported as handled. -/
theorem straight_afterCall (hret : m.ret.isGeneric = false) (hrunning : s.outcome = none)
    (hresult : s.result = none) :
    ∃ x, straight invokers name m.afterCall s = x ∧ x.answer = .ok true ∧
      x.result = (if m.ret.isVoid then none else s.returned) ∧ x.target = s.target ∧
      x.supply = s.supply := by
  refine ⟨_, rfl, ?_⟩
  obtain ⟨w, hw, hopen, hstored, -, -, htarget, hsupply⟩ :=
    straight_storeReturn invokers name hret hrunning hresult
  obtain ⟨x, hx, hstill, hresult', htarget', hsupply'⟩ :=
    straight_writeBackFrom invokers name 0 0 m.params hopen
  rw [Method.afterCall, straight_append, straight_append, hw, hx, straight_cons hstill,
    straight_cons]
  rotate_left
  · exact hstill
  exact ⟨rfl, hresult'.trans hstored, htarget'.trans htarget, hsupply'.trans hsupply⟩

variable (invokers name) in
/-- After a hook that succeeded its parameters are stored. -/
theorem args_afterCall {cell : Nat → Object} (hret : m.ret.isGeneric = false)
    (hrunning : s.outcome = none) (hresult : s.result = none)
    (hheld : ∀ i p, m.params[i]? = some p → p.isBorrowing = true →
      s.temps[m.slot i]? = some (some ⟨i, cell i⟩))
    (hcount : m.borrowCount ≤ UInt16.size) (hsize : m.params.length ≤ s.args.size) (i : Nat) :
    (straight invokers name m.afterCall s).args[i]? =
      if m.isMutable i then some (cell i) else s.args[i]? := by
  obtain ⟨w, hw, hopen, hstored, hargs, htemps, htarget, hsupply⟩ :=
    straight_storeReturn invokers name hret hrunning hresult
  have hbegin : Stored m cell 0 w w := stored_zero hopen (by rw [htemps]; exact hheld)
  have hend : Stored m cell m.params.length w
      (straight invokers name (Method.writeBackFrom 0 0 m.params) w) :=
    stored_of_params hbegin hcount (Nat.zero_add _) (hargs ▸ hsize)
  rw [Method.afterCall, straight_append, straight_append, hw, straight_cons hend.running,
    straight_cons]
  rotate_left
  · exact hend.running
  refine (hend.args_eq i).trans ?_
  rw [hargs]
  cases hmutable : m.isMutable i with
  | false => rw [if_neg (by simp), if_neg (by simp)]
  | true => rw [if_pos ⟨Method.lt_of_isMutable hmutable, rfl⟩, if_pos rfl]

variable (name) in
/-- A hook that fails ends the run. -/
theorem exec_call_error {e : MarshalError} (hinvoker : invokers[hook.toNat]? = some invoker)
    (h : ((invoker s.target).run s.frame s.supply).result = .error e) :
    exec invokers name s.tick (.call hook) =
      { s.tick with
        target := ((invoker s.target).run s.frame s.supply).state
        supply := ((invoker s.target).run s.frame s.supply).supply
        temps := ((invoker s.target).run s.frame s.supply).frame.temps
        outcome := some (.error e) } := by
  have htick : ((invoker s.tick.target).run s.tick.frame s.tick.supply).result = .error e := h
  rw [exec, hinvoker, callHook]
  simp only [Option.getD_some, htick]
  rfl

variable (name) in
/-- A hook that succeeds leaves its result and its temporaries. -/
theorem exec_call_ok {returned : Option Object} (hinvoker : invokers[hook.toNat]? = some invoker)
    (h : ((invoker s.target).run s.frame s.supply).result = .ok returned) :
    exec invokers name s.tick (.call hook) =
      { s.tick with
        target := ((invoker s.target).run s.frame s.supply).state
        supply := ((invoker s.target).run s.frame s.supply).supply
        temps := ((invoker s.target).run s.frame s.supply).frame.temps
        returned
        operands := #[] } := by
  have htick : ((invoker s.tick.target).run s.tick.frame s.tick.supply).result = .ok returned := h
  rw [exec, hinvoker, callHook]
  simp only [Option.getD_some, htick]
  rfl

variable (hook invokers name) in
/-- A call of a hook whose arguments are not all there. -/
theorem callSequence_starved (hrunning : s.outcome = none) (hoperands : s.operands = #[])
    (htemps : m.borrowCount ≤ s.temps.size) (hsize : s.args.size < m.params.length) :
    Starved s (straight invokers name (m.callSequence hook) s) ∧
      calls (along invokers name (m.callSequence hook) s) = [] := by
  have hunpack := (unpacked_all invokers name hrunning hoperands htemps).2 hsize
  have hended : (straight invokers name (Method.unpackFrom 0 0 m.params) s).outcome.isSome := by
    rw [hunpack.outcome_eq]
    rfl
  rw [Method.callSequence_eq, straight_append, along_append, straight_of_ended hended,
    along_of_ended hended, List.append_nil]
  exact ⟨hunpack, calls_along (fun hook => Method.call_not_mem_unpackFrom 0 0 m.params) s⟩

section Ending
variable {u : Run σ}

variable (name) in
/-- A hook that fails ends the call, and the caller sees none of its writes. -/
theorem ended_of_error {e : MarshalError} (h : Unpacked m m.params.length s u)
    (hresult : s.result = none) (hinvoker : invokers[hook.toNat]? = some invoker)
    (hending : ((invoker s.target).run u.frame s.supply).result = .error e) :
    Ended m ((invoker s.target).run u.frame s.supply) s.args
      (straight invokers name m.afterCall (exec invokers name u.tick (.call hook))) := by
  have hfailed := exec_call_error name hinvoker
    (by rw [h.target_eq, h.supply_eq]; exact hending)
  rw [hfailed, straight_of_ended rfl, h.target_eq, h.supply_eq]
  refine ⟨rfl, rfl, ?_, ?_⟩
  · intro e' he'
    cases hending.symm.trans he'
    exact ⟨rfl, h.result_eq.trans hresult, h.args_eq⟩
  · intro returned hreturned
    cases hending.symm.trans hreturned

variable (name) in
/-- A hook that succeeds answers for the call, with its result. -/
theorem ended_of_ok {returned : Option Object} (h : Unpacked m m.params.length s u)
    (hret : m.ret.isGeneric = false) (hresult : s.result = none)
    (hinvoker : invokers[hook.toNat]? = some invoker)
    (hending : ((invoker s.target).run u.frame s.supply).result = .ok returned) :
    Ended m ((invoker s.target).run u.frame s.supply) s.args
      (straight invokers name m.afterCall (exec invokers name u.tick (.call hook))) := by
  have hdone := exec_call_ok name hinvoker (by rw [h.target_eq, h.supply_eq]; exact hending)
  rw [h.target_eq, h.supply_eq] at hdone
  obtain ⟨x, hx, hanswer, hstored, htarget, hsupply⟩ := straight_afterCall
    invokers name (s := exec invokers name u.tick (.call hook)) hret
    (by rw [hdone]; exact h.running)
    (by rw [hdone]; exact h.result_eq.trans hresult)
  rw [hx]
  rw [hdone] at hstored htarget hsupply
  refine ⟨htarget, hsupply, ?_, ?_⟩
  · intro e he
    cases hending.symm.trans he
  · intro returned' hreturned
    cases hending.symm.trans hreturned
    exact ⟨hanswer, hstored⟩

variable (name) in
/-- What a hook that succeeds has written is stored in the arguments. -/
theorem args_of_ok {returned : Option Object} (h : Unpacked m m.params.length s u)
    (hret : m.ret.isGeneric = false) (hresult : s.result = none)
    (hcount : m.borrowCount ≤ UInt16.size) (hsize : m.params.length ≤ s.args.size)
    (hinvoker : invokers[hook.toNat]? = some invoker)
    (hending : ((invoker s.target).run u.frame s.supply).result = .ok returned) (i : Nat) :
    (straight invokers name m.afterCall (exec invokers name u.tick (.call hook))).args[i]? =
      if m.isMutable i then
        (lastWritten ((invoker s.target).writes u.frame s.supply) i).or s.args[i]?
      else s.args[i]? := by
  have hcells := Body.cells_run (invoker s.target) s.supply (h.cells hcount hsize) hcount
  have hdone := exec_call_ok name hinvoker (by rw [h.target_eq, h.supply_eq]; exact hending)
  rw [h.target_eq, h.supply_eq] at hdone
  have hargs := args_afterCall invokers name (s := exec invokers name u.tick (.call hook)) hret
    (by rw [hdone]; exact h.running)
    (by rw [hdone]; exact h.result_eq.trans hresult)
    (by rw [hdone]; exact hcells.held) hcount
    (by rw [hdone]; exact h.args_eq ▸ hsize) i
  have hkept : (exec invokers name u.tick (.call hook)).args = s.args := by
    rw [hdone]
    exact h.args_eq
  rw [hargs, hkept]
  cases hmutable : m.isMutable i with
  | false => rw [if_neg Bool.false_ne_true, if_neg Bool.false_ne_true]
  | true =>
    have hlt : i < s.args.size := Nat.lt_of_lt_of_le (Method.lt_of_isMutable hmutable) hsize
    rw [if_pos rfl, if_pos rfl, cellOf, Array.getElem?_eq_getElem hlt]
    cases lastWritten ((invoker s.target).writes u.frame s.supply) i <;> rfl

end Ending

variable (name) in
/-- A call of a hook whose arguments are all there. The frame has all parameters, and shows them as
cells if there are temporaries for all of them. -/
theorem callSequence_ended (hret : m.ret.isGeneric = false) (hrunning : s.outcome = none)
    (hoperands : s.operands = #[]) (hresult : s.result = none)
    (htemps : m.borrowCount ≤ s.temps.size)
    (hinvoker : invokers[hook.toNat]? = some invoker) (hsize : m.params.length ≤ s.args.size) :
    ∃ frame : Frame, frame.size = m.params.length ∧
      calls (along invokers name (m.callSequence hook) s) = [(hook, frame)] ∧
      Ended m ((invoker s.target).run frame s.supply) s.args
        (straight invokers name (m.callSequence hook) s) ∧
      (m.borrowCount ≤ UInt16.size → frame.Cells m (cellOf s.args) ∧
        Settled m ((invoker s.target).run frame s.supply)
          ((invoker s.target).writes frame s.supply) s.args
          (straight invokers name (m.callSequence hook) s)) := by
  have hunpacked := (unpacked_all invokers name hrunning hoperands htemps).1 hsize
  rw [Method.callSequence_eq, straight_append, along_append, calls_append,
    calls_along fun hook => Method.call_not_mem_unpackFrom 0 0 m.params, List.nil_append]
  obtain ⟨u, hu⟩ : ∃ u, straight invokers name (Method.unpackFrom 0 0 m.params) s = u := ⟨_, rfl⟩
  rw [hu] at hunpacked ⊢
  rw [straight_cons hunpacked.running, along_cons hunpacked.running]
  have hended : Ended m ((invoker s.target).run u.frame s.supply) s.args
      (straight invokers name m.afterCall (exec invokers name u.tick (.call hook))) := by
    cases hending : ((invoker s.target).run u.frame s.supply).result with
    | error e => exact ended_of_error name hunpacked hresult hinvoker hending
    | ok returned => exact ended_of_ok name hunpacked hret hresult hinvoker hending
  refine ⟨u.frame, hunpacked.count_eq, ?_, hended, fun hcount => ⟨hunpacked.cells hcount hsize, ?_⟩⟩
  · change (hook, u.frame) :: calls (along invokers name m.afterCall _) = _
    rw [calls_along m.call_not_mem_afterCall]
  · exact hended.settled fun returned hending =>
      args_of_ok name hunpacked hret hresult hcount hsize hinvoker hending

end Run

/-- The temporaries of a program suffice for each of its hooks. -/
theorem Layout.borrowCount_le {t : Trie} {r : Registry} {collapse : Bool} {p : Program}
    (L : Layout t r collapse p) {name : String} {hook : MethodId} {key : Signature} {m : Method}
    (hfound : t.get? name = some hook) (hentry : r.get? hook = some (key, m)) :
    m.borrowCount ≤ p.temps := by
  rw [Trie.get?_eq] at hfound
  have hdemand := r.le_demand (Edges.mem_terminals_of_get? hfound)
  rw [L.temps_eq]
  rw [Registry.borrowing, hentry] at hdemand
  exact hdemand

namespace Dispatcher

section Poised
variable {t : Trie} {r : Registry} {collapse : Bool} {σ : Type} {name : Option String}
  {hook : MethodId} {key : Signature} {m : Method}

/-- For a name that the program has, a run comes to the call of its hook and does nothing else. -/
theorem poised (d : Dispatcher σ) (L : Layout t r collapse d.program) (ht : t.Sound)
    (hfound : t.get? (name.getD "") = some hook) (hentry : r.get? hook = some (key, m))
    (target : σ) (supply : Supply) (result : Option Object) (args : Array Object) :
    m.ret.isGeneric = false ∧ ∃ tests s, (∀ e ∈ tests, e.1.marshals = false) ∧
      Run.Poised m (d.start target supply none args) s ∧
      Holds d.program.operations s.pc (m.callSequence hook) ∧
      d.call target supply name result args =
        Run.straight d.invokers (Text.bytes (name.getD "")) (m.callSequence hook) s ∧
      d.trace target supply name result args =
        tests ++ Run.along d.invokers (Text.bytes (name.getD "")) (m.callSequence hook) s := by
  obtain ⟨tests, s, body, hidle, heffects, -, hanswers, hholds, hcall, htrace⟩ :=
    d.answered L ht target supply name result args
      fun hnone => by rw [hfound] at hnone; cases hnone
  rw [hfound] at hanswers
  cases hanswers with
  | call hcalls =>
    cases hcalls.get?_eq.symm.trans hentry
    have hroom : m.borrowCount ≤ s.temps.size := by
      rw [Run.temps_eq heffects, start, Array.size_replicate]
      exact L.borrowCount_le hfound hentry
    refine ⟨hcalls.resolved, tests, s, hidle, ?_, hholds, hcall, htrace⟩
    exact ⟨⟨Run.args_eq heffects, Run.result_eq heffects, Run.target_eq heffects,
      Run.supply_eq heffects⟩, Run.outcome_eq heffects, Run.operands_eq heffects, hroom⟩

/-- A dispatcher has the invokers that its table binds. -/
theorem exists_bound {p : Program} (L : Layout t r collapse p) {table : HookTable σ}
    {d : Dispatcher σ} (hd : ofProgram p table = .ok d) (hentry : r.get? hook = some (key, m)) :
    ∃ invoker, table.get? key = some invoker ∧ d.invokers[hook.toNat]? = some invoker := by
  have hfilled := isSome_of_ofProgram hd
  obtain ⟨-, hinvokers⟩ := ofProgram_eq_ok hd
  have hlisted : p.hooks[hook.toNat]? = some (key, m) := L.hooks ▸ hentry
  obtain ⟨invoker, hbound⟩ := Option.isSome_iff_exists.mp
    (hfilled (key, m) (List.mem_of_getElem? hlisted))
  refine ⟨invoker, hbound, ?_⟩
  rw [hinvokers, hlisted]
  exact hbound

/-- The same for a dispatcher that is made from a table. -/
theorem exists_poised {p : Program} (L : Layout t r collapse p) (ht : t.Sound)
    {table : HookTable σ} {d : Dispatcher σ} (hd : ofProgram p table = .ok d)
    (hfound : t.get? (name.getD "") = some hook) (hentry : r.get? hook = some (key, m))
    (target : σ) (supply : Supply) (result : Option Object) (args : Array Object) :
    ∃ invoker tests s, table.get? key = some invoker ∧
      d.invokers[hook.toNat]? = some invoker ∧ m.ret.isGeneric = false ∧
      (∀ e ∈ tests, e.1.marshals = false) ∧ Run.Poised m (d.start target supply none args) s ∧
      d.call target supply name result args =
        Run.straight d.invokers (Text.bytes (name.getD "")) (m.callSequence hook) s ∧
      d.trace target supply name result args =
        tests ++ Run.along d.invokers (Text.bytes (name.getD "")) (m.callSequence hook) s := by
  obtain ⟨invoker, hbound, hinvoker⟩ := exists_bound L hd hentry
  obtain ⟨rfl, -⟩ := ofProgram_eq_ok hd
  obtain ⟨hret, tests, s, hidle, hpoised, -, hcall, htrace⟩ :=
    d.poised L ht hfound hentry target supply result args
  exact ⟨invoker, tests, s, hbound, hinvoker, hret, hidle, hpoised, hcall, htrace⟩

/-- A run whose name leads to a hook with this invoker. Without all arguments nothing is called and
nothing changed. Else the invoker is run once, on a frame of all parameters, and what it ended with
is what the caller sees; its parameters are cells if there are temporaries for all of them. -/
structure Invokes (d : Dispatcher σ) (hook : MethodId) (m : Method) (invoker : Invoker σ)
    (target : σ) (supply : Supply) (name : Option String) (result : Option Object)
    (args : Array Object) : Prop where
  starved : args.size < m.params.length →
    (d.call target supply name result args).answer =
        .error (.missingArgument args.size args.size) ∧
      Run.calls (d.trace target supply name result args) = [] ∧
      Run.Untouched (d.start target supply none args) (d.call target supply name result args)
  called : m.params.length ≤ args.size →
    ∃ frame : Frame, frame.size = m.params.length ∧
      Run.calls (d.trace target supply name result args) = [(hook, frame)] ∧
      Run.Ended m ((invoker target).run frame supply) args
        (d.call target supply name result args) ∧
      (m.borrowCount ≤ UInt16.size → frame.Cells m (Run.cellOf args) ∧
        Run.Settled m ((invoker target).run frame supply) ((invoker target).writes frame supply)
          args (d.call target supply name result args))

theorem invokes (d : Dispatcher σ) (L : Layout t r collapse d.program) (ht : t.Sound)
    (hfound : t.get? (name.getD "") = some hook) (hentry : r.get? hook = some (key, m))
    {invoker : Invoker σ} (hinvoker : d.invokers[hook.toNat]? = some invoker) (target : σ)
    (supply : Supply) (result : Option Object) (args : Array Object) :
    d.Invokes hook m invoker target supply name result args := by
  obtain ⟨hret, tests, s, hidle, hpoised, -, hcall, htrace⟩ :=
    d.poised L ht hfound hentry target supply result args
  have hargs : s.args = args := hpoised.args_eq
  have hresult : s.result = none := hpoised.result_eq
  have hcalls : Run.calls (d.trace target supply name result args) =
      Run.calls (Run.along d.invokers (Text.bytes (name.getD "")) (m.callSequence hook) s) := by
    rw [htrace, Run.calls_append, Run.calls_of_idle hidle, List.nil_append]
  constructor
  · intro hshort
    obtain ⟨hstarved, hnone⟩ := Run.callSequence_starved hook d.invokers
      (Text.bytes (name.getD "")) hpoised.running hpoised.operands_eq hpoised.room (hargs ▸ hshort)
    rw [hcalls, hcall]
    refine ⟨?_, hnone, ?_⟩
    · rw [Run.answer, hstarved.outcome_eq, hargs]
      rfl
    · exact ⟨hstarved.args_eq.trans hargs, hstarved.result_eq.trans hresult,
        hstarved.target_eq.trans hpoised.target_eq, hstarved.supply_eq.trans hpoised.supply_eq⟩
  · intro hlong
    have hended := Run.callSequence_ended (Text.bytes (name.getD "")) hret hpoised.running
      hpoised.operands_eq hresult hpoised.room hinvoker (hargs ▸ hlong)
    rw [hcalls, hcall]
    rwa [hargs, hpoised.target_eq, hpoised.supply_eq] at hended

/-- A dispatcher runs the invokers that its table binds. -/
theorem exists_invokes {p : Program} (L : Layout t r collapse p) (ht : t.Sound)
    {table : HookTable σ} {d : Dispatcher σ} (hd : ofProgram p table = .ok d)
    (hfound : t.get? (name.getD "") = some hook) (hentry : r.get? hook = some (key, m)) :
    ∃ invoker, table.get? key = some invoker ∧ ∀ target supply result args,
      d.Invokes hook m invoker target supply name result args := by
  obtain ⟨invoker, hbound, hinvoker⟩ := exists_bound L hd hentry
  obtain ⟨rfl, -⟩ := ofProgram_eq_ok hd
  exact ⟨invoker, hbound, d.invokes L ht hfound hentry hinvoker⟩

end Poised

end Dispatcher

/-- The effect of calling a hook by a name that the program has. If there are fewer arguments than
parameters, the first one that is missing is reported and nothing is changed. Else the invoker of
the hook is entered once; of its doings the caller sees the new target, and the result and the
mutably borrowed parameters if it succeeds. -/
theorem call_effect {t : Trie} {r : Registry} {collapse : Bool} {typeName : String} {p : Program}
    {σ : Type} {table : HookTable σ} {d : Dispatcher σ} {hook : MethodId} {key : Signature}
    {m : Method} (ht : t.Reachable) (hcompile : (t.compile r collapse typeName).2.value = .ok p)
    (hd : Dispatcher.ofProgram p table = .ok d) (name : Option String)
    (hfound : t.get? (name.getD "") = some hook) (hentry : r.get? hook = some (key, m))
    (hcount : m.borrowCount ≤ UInt16.size) (target : σ) (supply : Supply) (result : Option Object)
    (args : Array Object) :
    ∃ invoker, table.get? key = some invoker ∧
      (args.size < m.params.length →
        (d.call target supply name result args).answer =
            .error (.missingArgument args.size args.size) ∧
          Run.calls (d.trace target supply name result args) = [] ∧
          Run.Untouched (d.start target supply none args)
            (d.call target supply name result args)) ∧
      (m.params.length ≤ args.size →
        ∃ frame : Frame, frame.Cells m (Run.cellOf args) ∧
          Run.calls (d.trace target supply name result args) = [(hook, frame)] ∧
          Run.Settled m ((invoker target).run frame supply) ((invoker target).writes frame supply)
            args (d.call target supply name result args)) := by
  obtain ⟨L⟩ := Trie.exists_layout ht.sound hcompile
  obtain ⟨invoker, hbound, hall⟩ := Dispatcher.exists_invokes L ht.sound hd hfound hentry
  have hinvokes := hall target supply result args
  refine ⟨invoker, hbound, hinvokes.starved, fun hlong => ?_⟩
  obtain ⟨frame, -, hcalls, -, hshown⟩ := hinvokes.called hlong
  obtain ⟨hcells, hsettled⟩ := hshown hcount
  exact ⟨frame, hcells, hcalls, hsettled⟩

/-- Calls of the second hook by its alias, without an argument and with one. -/
theorem call_effect_specimen :
    ∃ p d, (Specimen.trie.compile Specimen.registry true "T").2.value = .ok p ∧
      Dispatcher.ofProgram p (.ofBindings Specimen.bindings) = .ok d ∧
      (d.call 0 0 (some "ab") none #[]).answer = .error (.missingArgument 0 0) ∧
      ∃ frame : Frame, frame.size = 1 ∧
        Run.calls (d.trace 0 0 (some "ab") none #[⟨3, .i32 1⟩]) = [(⟨1⟩, frame)] := by
  obtain ⟨p, d, hp, hd⟩ := Specimen.exists_dispatcher true
  have ht : Specimen.trie.Reachable := Trie.reachable_ofRegistry Specimen.trie_eq
  have hentry : Specimen.registry.get? ⟨1⟩ = some (⟨"ab(i32)"⟩, Specimen.second) := rfl
  have hfound : Specimen.trie.get? "ab" = some ⟨1⟩ := by decide
  have heffect := call_effect ht hp hd (some "ab") hfound hentry (by decide) 0 0 none
  obtain ⟨invoker, -, hshort, -⟩ := heffect #[]
  obtain ⟨invoker, -, -, hlong⟩ := heffect #[⟨3, .i32 1⟩]
  obtain ⟨frame, hcells, hcalls, -⟩ := hlong (by decide)
  exact ⟨p, d, hp, hd, (hshort (by decide)).1, frame, hcells.size_eq, hcalls⟩

end HookDispatch
