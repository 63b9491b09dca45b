import HookDispatch.Proofs.DispatchLoop.Mirror
import HookDispatch.Proofs.Machine.Marshal

/-!
How a loop reads the arguments of a call. The operands that wait for the call stand for the
parameters in their order; each has a local variable of its own, so what was read for one parameter
stays when the next one is read. Reading stops at the first argument that is not there or not of its
type.
-/
namespace HookDispatch

namespace Parameter

/-- An erased parameter takes any object, any other one those of the type that it is stored as. -/
def Accepts (p : Parameter) (kinds : TypeName → Kind) (o : Object) : Prop :=
  p.storage.isObject = true ∨ o.value.kind = kinds p.storage

def datum (p : Parameter) (o : Object) : Datum :=
  if p.storage.isObject then .erased o else .plain o.value

/-- Why argument `n` cannot be passed for a parameter. -/
inductive Refuses (p : Parameter) (kinds : TypeName → Kind) (args : Array Object) (n : Nat) :
    MarshalError → Prop
  | missing (h : args.size ≤ n) : Refuses p kinds args n (.missingArgument n args.size)
  | mistyped {o : Object} (ho : args[n]? = some o) (h : ¬ p.Accepts kinds o) :
      Refuses p kinds args n (.argumentType n (kinds p.storage).typeName)

def read (p : Parameter) (kinds : TypeName → Kind) (args : Array Object) (i : Nat) :
    Except MarshalError Datum :=
  if p.storage.isObject then (objectAt args i).map .erased
  else (unbox args i (kinds p.storage)).map .plain

variable {p : Parameter} {kinds : TypeName → Kind} {args : Array Object} {i : Nat}

theorem read_of_getElem? {o : Object} (ho : args[i]? = some o) :
    p.read kinds args i = if p.storage.isObject then .ok (.erased o)
      else (o.downcast i (kinds p.storage)).map .plain := by
  have hobject : objectAt args i = .ok o := by rw [objectAt, ho]
  rw [read, unbox, hobject]
  rfl

theorem read_of_accepts {o : Object} (ho : args[i]? = some o) (h : p.Accepts kinds o) :
    p.read kinds args i = .ok (p.datum o) := by
  rw [read_of_getElem? ho, datum]
  split
  · rfl
  · rename_i hplain
    rw [Object.downcast, if_pos (h.resolve_left hplain)]
    rfl

theorem read_of_refuses {e : MarshalError} (h : p.Refuses kinds args i e) :
    p.read kinds args i = .error e := by
  cases h with
  | missing hi =>
    have hmissing : objectAt args i = .error (.missingArgument i args.size) := by
      rw [objectAt, Array.getElem?_eq_none hi]
    rw [read, unbox, hmissing]
    split <;> rfl
  | mistyped ho hrefused =>
    obtain ⟨hplain, hkind⟩ := not_or.mp hrefused
    rw [read_of_getElem? ho, if_neg hplain, Object.downcast, if_neg hkind]
    rfl

variable (p kinds args i) in
/-- An argument is passed, or there is one reason why it is not. -/
theorem accepts_or_refuses :
    (∃ o, args[i]? = some o ∧ p.Accepts kinds o) ∨ ∃ e, p.Refuses kinds args i e := by
  cases ho : args[i]? with
  | none => exact Or.inr ⟨_, .missing (Array.getElem?_eq_none_iff.mp ho)⟩
  | some o =>
    by_cases h : p.Accepts kinds o
    · exact Or.inl ⟨o, rfl, h⟩
    · exact Or.inr ⟨_, .mistyped ho h⟩

end Parameter

namespace Method

/-- All arguments are there and of their types, and these are their data. -/
structure Reads (m : Method) (kinds : TypeName → Kind) (args : Array Object) (data : List Datum) :
    Prop where
  length_eq : data.length = m.params.length
  accepted : ∀ (i : Nat) (p : Parameter), m.params[i]? = some p →
    ∃ o, args[i]? = some o ∧ p.Accepts kinds o ∧ data[i]? = some (p.datum o)

/-- The first parameter whose argument cannot be passed. -/
structure Faults (m : Method) (kinds : TypeName → Kind) (args : Array Object) (n : Nat)
    (e : MarshalError) : Prop where
  fault : ∃ p, m.params[n]? = some p ∧ p.Refuses kinds args n e
  least : ∀ i < n, ∀ p, m.params[i]? = some p → ∃ o, args[i]? = some o ∧ p.Accepts kinds o

variable (m : Method)

def number (n : Nat) : Nat := (m.params.take n).countP fun p => !p.isBorrowing

def actual? (n : Nat) : Option DispatchLoop.Actual :=
  m.params[n]?.map fun p =>
    if p.isBorrowing then .address (m.slot n) (p.passing == .mutable) else .value (m.number n)

end Method

namespace DispatchLoop

variable {σ : Type}

namespace Locals

theorem datum_bindValue {ls : Locals} {n : Nat} {d : Datum} {a : Actual} (h : a ≠ .value n) :
    (ls.bindValue n d).datum a = ls.datum a := by
  cases a with
  | value k => exact if_neg fun hk => h (congrArg Actual.value hk)
  | address temp mutable => rfl
  | constant b => rfl

theorem datum_bindTemp {ls : Locals} {temp : Nat} {d : Datum} {a : Actual}
    (h : ∀ mutable, a ≠ .address temp mutable) : (ls.bindTemp temp d).datum a = ls.datum a := by
  cases a with
  | value k => rfl
  | address k mutable => exact if_neg fun hk => h mutable (congrArg (Actual.address · mutable) hk)
  | constant b => rfl

end Locals

theorem eval_of_ofType {p : Parameter} {i : Nat} {read : Read}
    (h : Read.ofType i p.storage = .ok read) (kinds : TypeName → Kind) (args : Array Object) :
    read.eval kinds args = p.read kinds args i := by
  rw [Read.ofType] at h
  rw [Parameter.read]
  split at h
  · rename_i hobject
    cases h
    rw [if_pos hobject]
    rfl
  · rename_i hvalue
    rw [if_neg hvalue]
    split at h
    · cases h
      rfl
    · cases h

/-- The same run as far as the caller sees it. -/
structure Untouched (start s : Run σ) : Prop where
  result_eq : s.result = start.result
  args_eq : s.args = start.args
  target_eq : s.target = start.target
  supply_eq : s.supply = start.supply

theorem Untouched.trans {start s s' : Run σ} (h : Untouched start s) (h' : Untouched s s') :
    Untouched start s' :=
  ⟨h'.result_eq.trans h.result_eq, h'.args_eq.trans h.args_eq, h'.target_eq.trans h.target_eq,
    h'.supply_eq.trans h.supply_eq⟩

/-- The first `n` parameters are bound, and wait for the call. -/
structure Bound (m : Method) (kinds : TypeName → Kind) (n : Nat) (data : List Datum)
    (operands : Operands) (start s : Run σ) : Prop extends Untouched start s where
  running : s.outcome = none
  length_eq : operands.actuals.length = n
  actual_eq : ∀ i < n, operands.actuals[i]? = m.actual? i
  values_eq : operands.values = m.number n
  data_eq : operands.actuals.map s.locals.datum = data
  accepted : ∀ i < n, ∀ p, m.params[i]? = some p →
    ∃ o, start.args[i]? = some o ∧ p.Accepts kinds o ∧ data[i]? = some (p.datum o)

structure Refused (e : MarshalError) (start s : Run σ) : Prop extends Untouched start s where
  outcome_eq : s.outcome = some (.error e)

section Reading
variable {m : Method} {n next : Nat} {data : List Datum} {operands : Operands} {p : Parameter}
  {kinds : TypeName → Kind} {start s : Run σ} {prog : Program} {ids : Identifiers}
  {loop : DispatchLoop} {scope : Scope σ} {name : List UInt8} {rest : List Operation}
  {stmts : List Stmt}

theorem Bound.exists_actual (h : Bound m kinds n data operands start s) {a : Actual}
    (ha : a ∈ operands.actuals) : ∃ i < n, m.actual? i = some a := by
  obtain ⟨i, hi⟩ := List.mem_iff_getElem?.mp ha
  have hlt : i < n := h.length_eq ▸ (List.getElem?_eq_some_iff.mp hi).1
  exact ⟨i, hlt, (h.actual_eq i hlt).symm.trans hi⟩

/-- The variable for a parameter is not one of those before it. -/
theorem Bound.ne_value (h : Bound m kinds n data operands start s) {a : Actual}
    (ha : a ∈ operands.actuals) : a ≠ .value (m.number n) := by
  rintro rfl
  obtain ⟨i, hi, hactual⟩ := h.exists_actual ha
  rw [Method.actual?] at hactual
  obtain ⟨q, hq, heq⟩ := Option.map_eq_some_iff.mp hactual
  split at heq
  · cases heq
  · rename_i hborrow
    have hlt := Method.countP_lt (fun p => !p.isBorrowing) hq (by simpa using hborrow) hi
    have heq' : m.number i = m.number n := Actual.value.inj heq
    rw [Method.number, Method.number] at heq'
    omega

/-- The temporary for a parameter is not one of those before it. -/
theorem Bound.ne_address (h : Bound m kinds n data operands start s) (hp : m.params[n]? = some p)
    (hborrow : p.isBorrowing = true) (hcount : m.borrowCount ≤ UInt16.size) {a : Actual}
    (ha : a ∈ operands.actuals) (mutable : Bool) : a ≠ .address (m.slot n) mutable := by
  rintro rfl
  obtain ⟨i, hi, hactual⟩ := h.exists_actual ha
  rw [Method.actual?] at hactual
  obtain ⟨q, hq, heq⟩ := Option.map_eq_some_iff.mp hactual
  split at heq
  · rename_i hborrow'
    exact Method.slot_ne hq hp hborrow' hborrow hcount (Nat.ne_of_lt hi) (Actual.address.inj heq).1
  · cases heq

/-- One more parameter is bound when its variable has what was read and no other one is changed. -/
theorem Bound.push (h : Bound m kinds n data operands start s) (hp : m.params[n]? = some p)
    {o : Object} (ho : start.args[n]? = some o) (haccepts : p.Accepts kinds o) {a : Actual}
    (ha : m.actual? n = some a) {locals : Locals}
    (hkeep : ∀ b ∈ operands.actuals, locals.datum b = s.locals.datum b)
    (hnew : locals.datum a = p.datum o) {values : Nat} (hvalues : values = m.number (n + 1)) :
    Bound m kinds (n + 1) (data ++ [p.datum o]) { operands.push a with values } start
      { s with locals } := by
  have hdata : data.length = n := by
    rw [← h.data_eq, List.length_map, h.length_eq]
  refine ⟨⟨h.result_eq, h.args_eq, h.target_eq, h.supply_eq⟩, h.running, ?_, ?_, hvalues, ?_, ?_⟩
  · rw [← h.length_eq]
    exact List.length_append
  · intro i hi
    change (operands.actuals ++ [a])[i]? = m.actual? i
    rcases Nat.lt_succ_iff_lt_or_eq.mp hi with hlt | rfl
    · rw [List.getElem?_append_left (h.length_eq ▸ hlt)]
      exact h.actual_eq i hlt
    · rw [List.getElem?_append_right (Nat.le_of_eq h.length_eq), h.length_eq, Nat.sub_self, ha]
      rfl
  · change (operands.actuals ++ [a]).map locals.datum = data ++ [p.datum o]
    rw [List.map_append, ← h.data_eq, List.map_congr_left hkeep, ← hnew]
    rfl
  · intro i hi q hq
    rcases Nat.lt_succ_iff_lt_or_eq.mp hi with hlt | rfl
    · obtain ⟨o', ho', haccepts', hd'⟩ := h.accepted i hlt q hq
      refine ⟨o', ho', haccepts', ?_⟩
      rw [List.getElem?_append_left (hdata ▸ hlt)]
      exact hd'
    · cases hp.symm.trans hq
      refine ⟨o, ho, haccepts, ?_⟩
      rw [List.getElem?_append_right (Nat.le_of_eq hdata), hdata, Nat.sub_self]
      rfl

/-- A parameter is read into a variable of its own, or the run ends. -/
theorem Bound.reading (h : Bound m kinds n data operands start s) (hp : m.params[n]? = some p)
    {read : Read} (hread : Read.ofType n p.storage = .ok read) {bind : Datum → Locals} {a : Actual}
    (ha : m.actual? n = some a)
    (hkeep : ∀ d, ∀ b ∈ operands.actuals, (bind d).datum b = s.locals.datum b)
    (hnew : ∀ d, (bind d).datum a = d) {values : Nat} (hvalues : values = m.number (n + 1)) :
    (∃ e, p.Refuses kinds start.args n e ∧ Refused e start (s.reading kinds read bind)) ∨
      ∃ d, Bound m kinds (n + 1) (data ++ [d]) { operands.push a with values } start
        (s.reading kinds read bind) := by
  have heval : read.eval kinds s.args = p.read kinds start.args n := by
    rw [eval_of_ofType hread, h.args_eq]
  rw [Run.reading, heval]
  rcases p.accepts_or_refuses kinds start.args n with ⟨o, ho, haccepts⟩ | ⟨e, hrefuses⟩
  · rw [Parameter.read_of_accepts ho haccepts]
    exact Or.inr ⟨_, h.push hp ho haccepts ha (hkeep _) (hnew _) hvalues⟩
  · rw [Parameter.read_of_refuses hrefuses]
    exact Or.inl ⟨e, hrefuses, ⟨h.result_eq, h.args_eq, h.target_eq, h.supply_eq⟩, rfl⟩

/-- A value is bound to the next variable. -/
theorem Bound.advance_value (h : Bound m scope.kinds n data operands start s)
    (hp : m.params[n]? = some p) (hborrow : p.isBorrowing = false)
    (hlower : lowerOperations prog ids next operands (.unboxArg n p.storage :: rest) = .ok stmts) :
    ∃ s' stmts', Run.Advance loop scope name [] [] s stmts s' stmts' ∧
      ((∃ e, p.Refuses scope.kinds start.args n e ∧ Refused e start s') ∨
        ∃ d operands', Bound m scope.kinds (n + 1) (data ++ [d]) operands' start s' ∧
          lowerOperations prog ids next operands' rest = .ok stmts') := by
  obtain ⟨head, operands', tail, hhead, htail, rfl⟩ := lowerOperations_cons hlower
  rw [lowerOperation] at hhead
  cases hread : Read.ofType n p.storage with
  | error e =>
    rw [hread] at hhead
    cases hhead
  | ok read =>
    rw [hread] at hhead
    cases hhead
    have hnumber : operands.values + 1 = m.number (n + 1) := by
      rw [h.values_eq, Method.number, Method.number, Method.countP_take_succ _ hp, hborrow]
      rfl
    have hactual : m.actual? n = some (.value operands.values) := by
      rw [Method.actual?, hp, Option.map_some, hborrow, h.values_eq]
      rfl
    have hkeep : ∀ d, ∀ b ∈ operands.actuals,
        (s.locals.bindValue operands.values d).datum b = s.locals.datum b := fun d b hb =>
      Locals.datum_bindValue (h.values_eq ▸ h.ne_value hb)
    refine ⟨_, tail, .single h.running rfl, ?_⟩
    rw [Run.exec]
    rcases h.reading hp hread hactual hkeep (fun d => if_pos rfl) hnumber with hfault | ⟨d, hbound⟩
    · exact Or.inl hfault
    · exact Or.inr ⟨d, _, hbound, htail⟩

/-- What is borrowed is bound to a temporary of its own. -/
theorem Bound.advance_temp (h : Bound m scope.kinds n data operands start s)
    (hp : m.params[n]? = some p) (hborrow : p.isBorrowing = true)
    (hcount : m.borrowCount ≤ UInt16.size) {temp : TempId} (htemp : temp.toNat = m.slot n)
    (hlower : lowerOperations prog ids next operands (.unboxTemp n p.storage temp ::
      .pushTemp temp (p.passing == .mutable) :: rest) = .ok stmts) :
    ∃ s' stmts', Run.Advance loop scope name [] [] s stmts s' stmts' ∧
      ((∃ e, p.Refuses scope.kinds start.args n e ∧ Refused e start s') ∨
        ∃ d operands', Bound m scope.kinds (n + 1) (data ++ [d]) operands' start s' ∧
          lowerOperations prog ids next operands' rest = .ok stmts') := by
  obtain ⟨head, operands', tail, hhead, htail, rfl⟩ := lowerOperations_cons hlower
  obtain ⟨pushed, operands'', tail, hpush, htail, rfl⟩ := lowerOperations_cons htail
  cases hpush
  rw [lowerOperation] at hhead
  cases hread : Read.ofType n p.storage with
  | error e =>
    rw [hread] at hhead
    cases hhead
  | ok read =>
    rw [hread] at hhead
    cases hhead
    have hnumber : operands.values = m.number (n + 1) := by
      rw [h.values_eq, Method.number, Method.number, Method.countP_take_succ _ hp, hborrow]
      rfl
    have hactual : m.actual? n = some (.address temp.toNat (p.passing == .mutable)) := by
      rw [Method.actual?, hp, Option.map_some, if_pos hborrow, htemp]
    have hkeep : ∀ d, ∀ b ∈ operands.actuals,
        (s.locals.bindTemp temp.toNat d).datum b = s.locals.datum b := fun d b hb =>
      Locals.datum_bindTemp (htemp ▸ h.ne_address hp hborrow hcount hb)
    refine ⟨_, tail, .single h.running rfl, ?_⟩
    rw [Run.exec]
    rcases h.reading hp hread hactual hkeep (fun d => if_pos rfl) hnumber with hfault | ⟨d, hbound⟩
    · exact Or.inl hfault
    · exact Or.inr ⟨d, _, hbound, htail⟩

/-- One more parameter is bound, or it cannot be read. -/
theorem Bound.advance (h : Bound m scope.kinds n data operands start s)
    (hp : m.params[n]? = some p) (hcount : m.borrowCount ≤ UInt16.size)
    (hlower : lowerOperations prog ids next operands
      (Method.unpackOne n (m.borrowed n) p ++ rest) = .ok stmts) :
    ∃ s' stmts', Run.Advance loop scope name [] [] s stmts s' stmts' ∧
      ((∃ e, p.Refuses scope.kinds start.args n e ∧ Refused e start s') ∨
        ∃ d operands', Bound m scope.kinds (n + 1) (data ++ [d]) operands' start s' ∧
          lowerOperations prog ids next operands' rest = .ok stmts') := by
  rw [Method.unpackOne] at hlower
  cases hborrow : p.isBorrowing with
  | false =>
    rw [if_neg (by simp [hborrow])] at hlower
    exact h.advance_value hp hborrow hlower
  | true =>
    rw [if_pos hborrow] at hlower
    exact h.advance_temp hp hborrow hcount rfl hlower

/-- All parameters are bound, or the first one that cannot be read ends the run. -/
theorem bound_of_params {k : Nat} (h : Bound m scope.kinds n data operands start s)
    (hcount : m.borrowCount ≤ UInt16.size) (hn : n + k = m.params.length)
    (hlower : lowerOperations prog ids next operands
      (Method.unpackFrom n (m.borrowed n) (m.params.drop n) ++ rest) = .ok stmts) :
    ∃ s' stmts', Run.Advance loop scope name [] [] s stmts s' stmts' ∧
      ((∃ i e, m.Faults scope.kinds start.args i e ∧ Refused e start s') ∨
        ∃ data operands', Bound m scope.kinds m.params.length data operands' start s' ∧
          lowerOperations prog ids next operands' rest = .ok stmts') := by
  induction k generalizing n data operands s stmts with
  | zero =>
    rw [List.drop_eq_nil_of_le (by omega)] at hlower
    obtain rfl : n = m.params.length := hn
    exact ⟨s, stmts, .refl s stmts, Or.inr ⟨data, operands, h, hlower⟩⟩
  | succ k ih =>
    have hp : m.params[n]? = some m.params[n] := List.getElem?_eq_getElem (by omega)
    rw [Method.unpackFrom_drop hp, List.append_assoc] at hlower
    obtain ⟨s₁, stmts₁, hfirst, ⟨e, hfault, hrefused⟩ | ⟨d, operands₁, hbound, htail⟩⟩ :=
      h.advance hp hcount hlower
    · refine ⟨s₁, stmts₁, hfirst, Or.inl ⟨n, e, ⟨⟨_, hp, hfault⟩, ?_⟩, hrefused⟩⟩
      intro i hi q hq
      obtain ⟨o, ho, haccepts, -⟩ := h.accepted i hi q hq
      exact ⟨o, ho, haccepts⟩
    · obtain ⟨s₂, stmts₂, hrest, hends⟩ := ih hbound (by omega) htail
      exact ⟨s₂, stmts₂, hfirst.trans hrest, hends⟩

theorem Bound.reads_all (h : Bound m scope.kinds m.params.length data operands start s) :
    m.Reads scope.kinds start.args data := by
  refine ⟨?_, fun i p hp => h.accepted i (List.getElem?_eq_some_iff.mp hp).1 p hp⟩
  rw [← h.data_eq, List.length_map, h.length_eq]

theorem bound_zero (m : Method) (hrunning : s.outcome = none) : Bound m kinds 0 [] {} s s := by
  refine ⟨⟨rfl, rfl, rfl, rfl⟩, hrunning, rfl, ?_, rfl, rfl, ?_⟩
  · exact fun i hi => absurd hi (Nat.not_lt_zero i)
  · exact fun i hi => absurd hi (Nat.not_lt_zero i)

end Reading

end DispatchLoop

end HookDispatch
