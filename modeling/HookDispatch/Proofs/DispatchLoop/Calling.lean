import HookDispatch.Proofs.DispatchLoop.Storing

/-!
The call of a method by a loop, from the reading of its arguments to its answer. The method is
called once if all its arguments can be read, and not at all if one of them cannot.
-/
namespace HookDispatch

/-- An argument that is passed is not refused. -/
theorem Parameter.Accepts.not_refuses {p : Parameter} {kinds : TypeName → Kind}
    {args : Array Object} {n : Nat} {o : Object} {e : MarshalError} (h : p.Accepts kinds o)
    (ho : args[n]? = some o) : ¬ p.Refuses kinds args n e := by
  intro hrefuses
  cases hrefuses with
  | missing hn => exact absurd (Array.getElem?_eq_some_iff.mp ho).1 (Nat.not_lt.mpr hn)
  | mistyped ho' hrefused =>
    cases ho.symm.trans ho'
    exact hrefused h

namespace Method.Reads

variable {m : Method} {kinds : TypeName → Kind} {args : Array Object} {data : List Datum}

theorem length_le (h : m.Reads kinds args data) : m.params.length ≤ args.size := by
  by_contra hlt
  obtain ⟨o, ho, -⟩ := h.accepted args.size _ (List.getElem?_eq_getElem (Nat.not_le.mp hlt))
  exact absurd (Array.getElem?_eq_some_iff.mp ho).1 (Nat.lt_irrefl _)

/-- The data of the parameters are determined by the arguments. -/
theorem unique (h : m.Reads kinds args data) {data' : List Datum}
    (h' : m.Reads kinds args data') : data = data' := by
  have hlength := h.length_eq
  have hlength' := h'.length_eq
  refine List.ext_getElem? fun i => ?_
  cases hp : m.params[i]? with
  | none =>
    have hi := List.getElem?_eq_none_iff.mp hp
    rw [List.getElem?_eq_none (by omega), List.getElem?_eq_none (by omega)]
  | some p =>
    obtain ⟨o, ho, -, hd⟩ := h.accepted i p hp
    obtain ⟨o', ho', -, hd'⟩ := h'.accepted i p hp
    cases ho.symm.trans ho'
    rw [hd, hd']

theorem not_faults (h : m.Reads kinds args data) (n : Nat) (e : MarshalError) :
    ¬ m.Faults kinds args n e := by
  rintro ⟨⟨p, hp, hrefuses⟩, -⟩
  obtain ⟨o, ho, haccepts, -⟩ := h.accepted n p hp
  exact haccepts.not_refuses ho hrefuses

end Method.Reads

namespace DispatchLoop

variable {σ : Type}

/-- A method was called with data and left a reply. What it returned is the result, and what it left
in the parameters that it borrowed mutably is put back for them, in this order: the identities of
new objects go up to `mark i` before parameter `i` is put back. -/
structure Served (m : Method) (data : List Datum) (reply : Reply σ) (start s : Run σ) : Prop where
  outcome_eq : s.outcome = some (.ok true)
  target_eq : s.target = reply.state
  stored : ∃ mark : Nat → Supply, Monotone mark ∧ start.supply ≤ mark 0 ∧
    s.supply = mark m.params.length ∧
    m.ret.Leaves start.supply (mark 0) (reply.ret.getD (.plain .unit)) s.result ∧
    ∀ i, m.isMutable i = true → ∃ o, s.args[i]? = some o ∧
      (reply.final data i).Becomes (mark i) (mark (i + 1)) (!m.isErased i) o
  kept : ∀ i, m.isMutable i = false → s.args[i]? = start.args[i]?

/-- Only the arguments and the supply count of the run before. -/
theorem Served.since {m : Method} {data : List Datum} {reply : Reply σ} {start ls s : Run σ}
    (h : Served m data reply ls s) (hargs : ls.args = start.args)
    (hsupply : ls.supply = start.supply) : Served m data reply start s where
  outcome_eq := h.outcome_eq
  target_eq := h.target_eq
  stored := hsupply ▸ h.stored
  kept := hargs ▸ h.kept

section Calling
variable {m : Method} {next : Nat} {data : List Datum} {operands : Operands} {start s : Run σ}
  {kinds : TypeName → Kind} {prog : Program} {ids : Identifiers} {loop : DispatchLoop}
  {scope : Scope σ} {name : List UInt8} {hook : MethodId} {key : Signature} {rest : List Operation}
  {stmts : List Stmt}

theorem callStmt_eq_ok (hhook : prog.hook? hook = some (key, m)) {actuals : List Actual}
    {stmt : Stmt} (h : callStmt prog ids hook actuals = .ok stmt) :
    ∃ ident, ids.lookup m.name = some ident ∧ stmt = .call ident actuals (!m.ret.isVoid) := by
  rw [callStmt, hhook] at h
  simp only at h
  split at h
  · cases h
  · rename_i ident hident
    cases h
    exact ⟨ident, hident, rfl⟩

theorem lowerOperations_append {a b : List Operation}
    (h : lowerOperations prog ids next operands (a ++ b) = .ok stmts) :
    ∃ operands' tail, lowerOperations prog ids next operands' b = .ok tail := by
  induction a generalizing operands stmts with
  | nil => exact ⟨operands, stmts, h⟩
  | cons op a ih =>
    obtain ⟨head, operands', tail, -, htail, -⟩ := lowerOperations_cons h
    exact ih htail

/-- A call that was lowered has an identifier. -/
theorem exists_ident (hhook : prog.hook? hook = some (key, m))
    (hlower : lowerOperations prog ids next operands (m.callSequence hook) = .ok stmts) :
    ∃ ident, ids.lookup m.name = some ident := by
  rw [Method.callSequence_eq] at hlower
  obtain ⟨operands', tail, hcall⟩ := lowerOperations_append hlower
  obtain ⟨head, operands'', tail', hhead, -, -⟩ := lowerOperations_cons hcall
  rw [lowerOperation] at hhead
  cases hstmt : callStmt prog ids hook operands'.actuals with
  | error e =>
    rw [hstmt] at hhead
    cases hhead
  | ok stmt =>
    obtain ⟨ident, hident, -⟩ := callStmt_eq_ok hhook hstmt
    exact ⟨ident, hident⟩

/-- The temporaries of the parameters that are borrowed mutably have what the method left. -/
theorem Bound.temps_update (h : Bound m kinds m.params.length data operands start s)
    (hcount : m.borrowCount ≤ UInt16.size) (reply : Reply σ) {i : Nat}
    (hmutable : m.isMutable i = true) :
    (s.locals.update operands.actuals reply.params).temps (m.slot i) = reply.final data i := by
  obtain ⟨p, hp, hpassing⟩ := Method.exists_of_isMutable hmutable
  have hborrow := Parameter.isBorrowing_of_mutable hpassing
  have hlt := (List.getElem?_eq_some_iff.mp hp).1
  have hactual : operands.actuals[i]? = some (.address (m.slot i) true) := by
    rw [h.actual_eq i hlt, Method.actual?, hp, Option.map_some, if_pos hborrow, hpassing]
    rfl
  have honce : ∀ j, operands.actuals[j]? = some (.address (m.slot i) true) → j = i := by
    intro j hj
    by_contra hne
    have hlt' : j < m.params.length := h.length_eq ▸ (List.getElem?_eq_some_iff.mp hj).1
    rw [h.actual_eq j hlt', Method.actual?] at hj
    obtain ⟨q, hq, heq⟩ := Option.map_eq_some_iff.mp hj
    split at heq
    · rename_i hborrow'
      exact Method.slot_ne hq hp hborrow' hborrow hcount hne (Actual.address.inj heq).1
    · cases heq
  obtain ⟨o, -, -, hd⟩ := h.accepted i hlt p hp
  have hbefore : s.locals.temps (m.slot i) = p.datum o := by
    have hmap := congrArg (·[i]?) h.data_eq
    simp only [List.getElem?_map, hactual, hd, Option.map_some, Option.some.injEq] at hmap
    exact hmap
  rw [Locals.temps_update hactual honce, hbefore, Reply.final, hd]
  cases reply.params[i]? <;> rfl

variable (data loop scope name) in
/-- After the method its result and the parameters that it borrowed mutably are stored. -/
theorem advance_afterCall (reply : Reply σ) (hopen : s.outcome = none)
    (hret : m.ret.isGeneric = false) (hresult : s.result = none) (hdrained : operands.actuals = [])
    (htarget : s.target = reply.state) (hreturned : s.locals.ret = reply.ret.getD (.plain .unit))
    (hfinal : ∀ i, m.isMutable i = true → s.locals.temps (m.slot i) = reply.final data i)
    (hsize : m.params.length ≤ s.args.size)
    (hlower : lowerOperations prog ids next operands m.afterCall = .ok stmts) :
    ∃ s', Run.Advance loop scope name [] [] s stmts s' [] ∧ Served m data reply s s' := by
  rw [Method.afterCall, List.append_assoc] at hlower
  obtain ⟨stmts₁, hstore, hlower₁⟩ := advance_storeReturn hopen hret hresult hlower
  obtain ⟨s₁, hs₁⟩ : ∃ s₁ : Run σ, { s with
      result := (m.resultOf s.locals.ret s.supply).1
      supply := (m.resultOf s.locals.ret s.supply).2 } = s₁ := ⟨_, rfl⟩
  have hbegin : Restored m (reply.final data) 0 s₁ s₁ := by
    refine ⟨?_, rfl, rfl, rfl, rfl, .refl _ _ _⟩
    rw [← hs₁]
    exact hopen
  rw [hs₁] at hstore
  obtain ⟨s₂, stmts₂, hrestore, hrestored, hlower₂⟩ :=
    restored_of_params hbegin (by rw [← hs₁]; exact hfinal) (Nat.zero_add _)
      (by rw [← hs₁]; exact hsize) hlower₁
  have hend : stmts₂ = [.ret (.constant true)] := by
    obtain ⟨head, operands', tail, hhead, htail, rfl⟩ := lowerOperations_cons hlower₂
    cases hhead
    cases htail
    rw [Operands.handled, Operands.push, hdrained]
    rfl
  subst hend
  have hargs := hrestored.args_eq
  have hresult' := hrestored.result_eq
  have hsupply := hrestored.supply_eq
  have htarget' := hrestored.target_eq
  rw [← hs₁] at hargs hresult' hsupply htarget'
  refine ⟨_, (hstore.trans hrestore).trans (.single hrestored.running rfl), rfl,
    htarget'.trans htarget, ⟨m.supplyAt (reply.final data) (m.resultOf s.locals.ret s.supply).2,
      m.supplyAt_mono _ _, m.le_resultOf _ _, hsupply, ?_, ?_⟩, ?_⟩
  · rw [← hreturned]
    exact hresult' ▸ Method.resultOf_leaves hret s.locals.ret s.supply
  · intro i hmutable
    refine ⟨_, (hargs i).trans (if_pos ⟨Method.lt_of_isMutable hmutable, hmutable⟩), ?_⟩
    exact Method.restored_becomes _ _ hmutable
  · intro i hmutable
    exact (hargs i).trans (if_neg fun h => by rw [hmutable] at h; cases h.2)

/-- The rest of a call, once all arguments are bound. -/
theorem Bound.advance_call (h : Bound m scope.kinds m.params.length data operands start s)
    (hcount : m.borrowCount ≤ UInt16.size) (hret : m.ret.isGeneric = false)
    (hresult : start.result = none) (hhook : prog.hook? hook = some (key, m))
    (hlower : lowerOperations prog ids next operands (.call hook :: m.afterCall) = .ok stmts)
    {ident : String} (hident : ids.lookup m.name = some ident) :
    ∃ s', Run.Advance loop scope name [] [(ident, data)] s stmts s' [] ∧
      Served m data (scope.methods ident start.target data) start s' := by
  obtain ⟨head, operands', tail, hhead, htail, rfl⟩ := lowerOperations_cons hlower
  rw [lowerOperation] at hhead
  cases hstmt : callStmt prog ids hook operands.actuals with
  | error e =>
    rw [hstmt] at hhead
    cases hhead
  | ok stmt =>
    rw [hstmt] at hhead
    cases hhead
    obtain ⟨ident', hident', rfl⟩ := callStmt_eq_ok hhook hstmt
    cases hident.symm.trans hident'
    have hcallee : s.callee (.call ident operands.actuals (!m.ret.isVoid)) = [(ident, data)] := by
      rw [Run.callee, h.data_eq]
    have hexec : s.exec scope name (.call ident operands.actuals (!m.ret.isVoid)) =
        { s with
          target := (scope.methods ident start.target data).state
          locals :=
            { s.locals.update operands.actuals (scope.methods ident start.target data).params with
              ret := (scope.methods ident start.target data).ret.getD (.plain .unit) } } := by
      rw [Run.exec, Run.callMethod, h.data_eq, h.target_eq]
    have hsize : m.params.length ≤ s.args.size := by
      rw [h.args_eq]
      exact h.reads_all.length_le
    obtain ⟨s', hafter, hserved⟩ :=
      advance_afterCall data loop scope name (scope.methods ident start.target data)
        (s := s.exec scope name (.call ident operands.actuals (!m.ret.isVoid)))
        (by rw [hexec]; exact h.running) hret (by rw [hexec]; exact h.result_eq.trans hresult) rfl
        (by rw [hexec]) (by rw [hexec])
        (by rw [hexec]; exact fun i hi => h.temps_update hcount _ hi) (by rw [hexec]; exact hsize)
        htail
    have hcall := Run.Advance.exec h.running hafter
    rw [hcallee] at hcall
    rw [hexec] at hserved
    exact ⟨s', hcall, hserved.since h.args_eq h.supply_eq⟩

end Calling

end DispatchLoop

end HookDispatch
