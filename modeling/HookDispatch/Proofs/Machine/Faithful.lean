import HookDispatch.Proofs.DispatchLoop.Storing

/-!
Bodies that call their methods faithfully. On a frame that shows the arguments such a body reads
what the array has for each parameter, and ends at the first one that has not its type; what the
method leaves in the parameters that it borrows mutably is written back, each with an identity of
its own, before the result is boxed.
-/
namespace HookDispatch

namespace Body

variable {σ : Type} {frame : Frame} {supply : Supply}

/-- Two bodies that come to the same on a frame: the same ending after the same writes. -/
structure Same (frame : Frame) (supply : Supply) (b b' : Body σ) : Prop where
  run_eq : b.run frame supply = b'.run frame supply
  writes_eq : b.writes frame supply = b'.writes frame supply

theorem Same.trans {b b' b'' : Body σ} (h : Same frame supply b b')
    (h' : Same frame supply b' b'') : Same frame supply b b'' :=
  ⟨h.run_eq.trans h'.run_eq, h.writes_eq.trans h'.writes_eq⟩

section Reading
variable {m : Method} {cell : Nat → Object} {args : Array Object} {n : Nat} {p : Parameter}
  {kinds : TypeName → Kind} {state : σ} {next : List Datum → Body σ} {data : List Datum}

variable (supply kinds state next) in
/-- A body reads for a parameter what the argument array has for it. -/
theorem same_readFrom (h : frame.Cells m cell) (hp : m.params[n]? = some p)
    (ho : args[n]? = some (cell n)) :
    Same frame supply (readFrom kinds state n (m.params.drop n) next)
      (orFail state
        (fun d => readFrom kinds state (n + 1) (m.params.drop (n + 1)) fun ds => next (d :: ds))
        (p.read kinds args n)) := by
  rw [Method.drop_params hp, readFrom, Parameter.read_of_getElem? ho]
  split
  · constructor
    · rw [run, h.object_eq hp]
      rfl
    · rw [writes, h.object_eq hp]
      rfl
  · have harg := h.arg_eq hp (kinds p.storage)
    constructor
    · rw [run, harg]
      cases (cell n).downcast n (kinds p.storage) <;> rfl
    · rw [writes, harg]
      cases (cell n).downcast n (kinds p.storage) <;> rfl

/-- With arguments of their types a body goes on with all data. -/
theorem same_of_reads {k : Nat} (h : frame.Cells m cell)
    (hcell : ∀ i p, m.params[i]? = some p → args[i]? = some (cell i))
    (hreads : m.Reads kinds args data) (hn : n + k = m.params.length) :
    Same frame supply (readFrom kinds state n (m.params.drop n) next) (next (data.drop n)) := by
  induction k generalizing n next with
  | zero =>
    have hlength := hreads.length_eq
    rw [List.drop_eq_nil_of_le (by omega), List.drop_eq_nil_of_le (by omega), readFrom]
    exact ⟨rfl, rfl⟩
  | succ k ih =>
    have hlength := hreads.length_eq
    have hp : m.params[n]? = some m.params[n] := List.getElem?_eq_getElem (by omega)
    obtain ⟨o, ho, haccepts, hd⟩ := hreads.accepted n _ hp
    have hfirst := same_readFrom supply kinds state next h hp (hcell n _ hp)
    rw [Parameter.read_of_accepts ho haccepts,
      ← Option.some.inj ((List.getElem?_eq_getElem (by omega)).symm.trans hd)] at hfirst
    rw [List.drop_eq_getElem_cons (by omega : n < data.length)]
    exact hfirst.trans (ih (by omega))

/-- A body ends at the first argument that has not its type. -/
theorem same_of_faults {k : Nat} {e : MarshalError} (h : frame.Cells m cell)
    (hcell : ∀ i p, m.params[i]? = some p → args[i]? = some (cell i))
    (hfaults : m.Faults kinds args (n + k) e) :
    Same frame supply (readFrom kinds state n (m.params.drop n) next) (.done state (.error e)) := by
  induction k generalizing n next with
  | zero =>
    obtain ⟨p, hp, hrefuses⟩ := hfaults.fault
    have hfirst := same_readFrom supply kinds state next h hp (hcell n p hp)
    rw [Parameter.read_of_refuses hrefuses] at hfirst
    exact hfirst
  | succ k ih =>
    obtain ⟨q, hq, -⟩ := hfaults.fault
    have hlt := (List.getElem?_eq_some_iff.mp hq).1
    have hp : m.params[n]? = some m.params[n] := List.getElem?_eq_getElem (by omega)
    obtain ⟨o, ho, haccepts⟩ := hfaults.least n (by omega) _ hp
    have hfirst := same_readFrom supply kinds state next h hp (hcell n _ hp)
    rw [Parameter.read_of_accepts ho haccepts] at hfirst
    have hrest : n + (k + 1) = n + 1 + k := by omega
    exact hfirst.trans (ih (hrest ▸ hfaults))

end Reading

section Writing
variable {m : Method} {cell : Nat → Object} {n : Nat} {state : σ} {next : Body σ}
  {data : List Datum}

theorem run_boxed (d : Datum) (next : Object → Body σ) :
    (boxed d next).run frame supply =
      (next (d.toObject false supply).1).run frame (d.toObject false supply).2 := by
  cases d <;> rfl

theorem writes_boxed (d : Datum) (next : Object → Body σ) :
    (boxed d next).writes frame supply =
      (next (d.toObject false supply).1).writes frame (d.toObject false supply).2 := by
  cases d <;> rfl

/-- Of the parameters from position `n` on, those that are borrowed mutably have been written with
objects for the data that the method left; nothing was written before position `n`. -/
def PutsBack (m : Method) (data : List Datum) (supply : Supply) (n : Nat)
    (ws : List (Nat × Object)) : Prop :=
  (∀ i < n, lastWritten ws i = none) ∧
    ∀ i, n ≤ i → m.isMutable i = true → ∃ d s, data[i]? = some d ∧ supply ≤ s ∧
      lastWritten ws i = some (d.toObject false s).1

theorem putsBack_nil (hn : m.params.length ≤ n) : PutsBack m data supply n [] := by
  refine ⟨fun _ _ => rfl, fun i hi hmutable => ?_⟩
  have hlt := Method.lt_of_isMutable hmutable
  omega

theorem PutsBack.cons {d : Datum} {later : Supply} {ws : List (Nat × Object)}
    (h : PutsBack m data later (n + 1) ws) (hd : data[n]? = some d) (hle : supply ≤ later) :
    PutsBack m data supply n ((n, (d.toObject false supply).1) :: ws) := by
  refine ⟨fun i hi => ?_, fun i hi hmutable => ?_⟩
  · rw [lastWritten_cons, h.1 i (by omega), if_neg (by omega)]
    rfl
  · rw [lastWritten_cons]
    by_cases heq : i = n
    · rw [heq, h.1 n (by omega), if_pos rfl]
      exact ⟨d, supply, hd, Nat.le_refl supply, rfl⟩
    · obtain ⟨d', s, hd', hs, hlast⟩ := h.2 i (by omega) hmutable
      rw [hlast]
      exact ⟨d', s, hd', Nat.le_trans hle hs, rfl⟩

theorem PutsBack.skip {ws : List (Nat × Object)} (h : PutsBack m data supply (n + 1) ws)
    (hn : m.isMutable n = false) : PutsBack m data supply n ws := by
  refine ⟨fun i hi => h.1 i (by omega), fun i hi hmutable => ?_⟩
  have hne : i ≠ n := by
    rintro rfl
    rw [hn] at hmutable
    cases hmutable
  exact h.2 i (by omega) hmutable

variable (state supply next) in
/-- A body comes to its result with the parameters from position `n` on put back. -/
theorem written_of_params {k : Nat} (h : frame.Cells m cell) (hcount : m.borrowCount ≤ UInt16.size)
    (hlength : data.length = m.params.length) (hn : n + k = m.params.length) :
    ∃ frame' supply' ws, supply ≤ supply' ∧
      (writeFrom state n (m.params.drop n) (data.drop n) next).run frame supply =
        next.run frame' supply' ∧
      (writeFrom state n (m.params.drop n) (data.drop n) next).writes frame supply =
        ws ++ next.writes frame' supply' ∧
      PutsBack m data supply n ws := by
  induction k generalizing n frame cell supply with
  | zero =>
    rw [List.drop_eq_nil_of_le (by omega), List.drop_eq_nil_of_le (by omega)]
    exact ⟨frame, supply, [], Nat.le_refl supply, rfl, rfl, putsBack_nil (by omega)⟩
  | succ k ih =>
    have hp : m.params[n]? = some m.params[n] := List.getElem?_eq_getElem (by omega)
    have hchosen := Method.isMutable_eq hp
    rw [Method.drop_params hp, List.drop_eq_getElem_cons (by omega : n < data.length), writeFrom]
    have hnext : n + 1 + k = m.params.length := by omega
    by_cases hpassing : m.params[n].passing = .mutable
    · replace hchosen : m.isMutable n = true := by
        rw [hchosen, hpassing]
        rfl
      obtain ⟨written, hwrite⟩ := h.exists_write hchosen (data[n].toObject false supply).1
      have hsupply := data[n].le_toObject false supply
      obtain ⟨frame', supply', ws, hle, hrun, hwrites, hback⟩ :=
        ih (data[n].toObject false supply).2 (h.write hcount hwrite).2 hnext
      refine ⟨frame', supply', (n, (data[n].toObject false supply).1) :: ws,
        Nat.le_trans hsupply hle, ?_, ?_, hback.cons (List.getElem?_eq_getElem (by omega)) hsupply⟩
      · rw [if_pos hpassing, run_boxed, run, hwrite]
        exact hrun
      · rw [if_pos hpassing, writes_boxed, writes, hwrite]
        exact congrArg ((n, (data[n].toObject false supply).1) :: ·) hwrites
    · rw [beq_eq_false_iff_ne.mpr hpassing] at hchosen
      rw [if_neg hpassing]
      obtain ⟨frame', supply', ws, hle, hrun, hwrites, hback⟩ := ih supply h hnext
      exact ⟨frame', supply', ws, hle, hrun, hwrites, hback.skip hchosen⟩

theorem run_finish (frame : Frame) (supply : Supply) (state : σ) (ret : Option Datum) :
    ((finish state ret).run frame supply).state = state ∧
      ((finish state ret).run frame supply).result =
        .ok (ret.map fun d => (d.toObject false supply).1) ∧
      (finish state ret).writes frame supply = [] := by
  cases ret with
  | none => exact ⟨rfl, rfl, rfl⟩
  | some d =>
    rw [finish, run_boxed, writes_boxed]
    exact ⟨rfl, rfl, rfl⟩

end Writing

/-- What is left of a reply: the target, the result and the parameters that are borrowed mutably,
as objects that were boxed with identities from the supply on. -/
structure Renders (m : Method) (reply : Reply σ) (supply : Supply) (ending : Ending σ)
    (writes : List (Nat × Object)) : Prop where
  state_eq : ending.state = reply.state
  result_eq : ∃ s, supply ≤ s ∧
    ending.result = .ok (reply.ret.map fun d => (d.toObject false s).1)
  written : ∀ i, m.isMutable i = true → ∃ d s, reply.params[i]? = some d ∧ supply ≤ s ∧
    lastWritten writes i = some (d.toObject false s).1

section Faithful
variable {m : Method} {cell : Nat → Object} {args : Array Object} {kinds : TypeName → Kind}
  (behaviour : Behaviour σ) (state : σ) (supply : Supply)

/-- With arguments of their types the method is called with their data. -/
theorem renders_faithful {data : List Datum} (h : frame.Cells m cell)
    (hcount : m.borrowCount ≤ UInt16.size)
    (hcell : ∀ i p, m.params[i]? = some p → args[i]? = some (cell i))
    (hreads : m.Reads kinds args data)
    (hlength : (behaviour state data).params.length = m.params.length) :
    Renders m (behaviour state data) supply ((m.faithful behaviour kinds state).run frame supply)
      ((m.faithful behaviour kinds state).writes frame supply) := by
  obtain ⟨reply, hreply⟩ : ∃ reply, behaviour state data = reply := ⟨_, rfl⟩
  have hsame : Same frame supply (m.faithful behaviour kinds state)
      (writeFrom reply.state 0 m.params reply.params (finish reply.state reply.ret)) := by
    rw [← hreply]
    exact same_of_reads h hcell hreads (Nat.zero_add _)
  rw [hreply] at hlength ⊢
  obtain ⟨frame', supply', ws, hle, hrun, hwrites, -, hwritten⟩ :=
    written_of_params supply reply.state (finish reply.state reply.ret) h hcount hlength
      (Nat.zero_add _)
  obtain ⟨hstate, hresult, hnone⟩ := run_finish frame' supply' reply.state reply.ret
  rw [hsame.run_eq, hsame.writes_eq]
  refine ⟨?_, ?_, ?_⟩
  · exact (congrArg Ending.state hrun).trans hstate
  · exact ⟨supply', hle, (congrArg Ending.result hrun).trans hresult⟩
  · intro i hmutable
    obtain ⟨d, s, hd, hs, hlast⟩ := hwritten i (Nat.zero_le i) hmutable
    refine ⟨d, s, hd, hs, ?_⟩
    rw [← hlast]
    exact congrArg (lastWritten · i) (hwrites.trans (by rw [hnone, List.append_nil]))

/-- The first argument that has not its type is reported, and nothing is called. -/
theorem run_faithful_of_faults {n : Nat} {e : MarshalError} (h : frame.Cells m cell)
    (hcell : ∀ i p, m.params[i]? = some p → args[i]? = some (cell i))
    (hfaults : m.Faults kinds args n e) :
    (m.faithful behaviour kinds state).run frame supply = ⟨state, .error e, frame, supply⟩ := by
  have hsame : Same frame supply (m.faithful behaviour kinds state) (.done state (.error e)) :=
    same_of_faults h hcell (by rwa [Nat.zero_add])
  exact hsame.run_eq

end Faithful

end Body

end HookDispatch
