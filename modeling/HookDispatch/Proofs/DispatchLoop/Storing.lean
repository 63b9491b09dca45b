import HookDispatch.Proofs.DispatchLoop.Reading
import Mathlib.Order.Monotone.Basic

/-!
What a loop stores after a call. The method leaves a datum in the temporary of each parameter that
it borrows mutably; these are boxed and put back into the argument array in the order of their
parameters, each with an identity that follows those that were used before it.
-/
namespace HookDispatch

namespace Datum

/-- The object that stands for a datum. A value is in a new object, whose identity is one of those
from `lo` up to `hi`; an erased object stands for itself, or is in a new object where it is boxed
once more. -/
inductive Becomes (lo hi : Supply) : Datum → Bool → Object → Prop
  | plain {v : Value} {boxed : Bool} {o : Object} (hvalue : o.value = v) (hlo : lo ≤ o.id)
      (hhi : o.id < hi) : Becomes lo hi (.plain v) boxed o
  | kept (o : Object) : Becomes lo hi (.erased o) false o
  | boxed {inner o : Object} (hvalue : o.value = .object inner.value) (hlo : lo ≤ o.id)
      (hhi : o.id < hi) : Becomes lo hi (.erased inner) true o

theorem becomes_toObject (d : Datum) (boxed : Bool) (supply : Supply) :
    d.Becomes supply (d.toObject boxed supply).2 boxed (d.toObject boxed supply).1 := by
  cases d with
  | plain v =>
    exact .plain (supply.value_box v) (Nat.le_of_eq (supply.id_box v).symm) (supply.id_box_lt v)
  | erased inner =>
    cases boxed with
    | false => exact .kept inner
    | true =>
      exact .boxed (supply.value_box _) (Nat.le_of_eq (supply.id_box _).symm)
        (supply.id_box_lt _)

/-- Boxing does not give identities back. -/
theorem le_toObject (d : Datum) (boxed : Bool) (supply : Supply) :
    supply ≤ (d.toObject boxed supply).2 := by
  cases d with
  | plain v => exact Nat.le_succ supply
  | erased o =>
    cases boxed with
    | false => exact Nat.le_refl supply
    | true => exact Nat.le_succ supply

end Datum

inductive ReturnType.Leaves (lo hi : Supply) (d : Datum) : ReturnType → Option Object → Prop
  | void : Leaves lo hi d .void none
  | value {type : TypeName} {o : Object} (h : d.Becomes lo hi true o) :
      Leaves lo hi d (.value type) (some o)
  | object {o : Object} (h : d.Becomes lo hi false o) : Leaves lo hi d .object (some o)

namespace Method

def isErased (m : Method) (n : Nat) : Bool := m.params[n]?.any (·.storage.isObject)

def resultOf (m : Method) (ret : Datum) (supply : Supply) : Option Object × Supply :=
  match m.ret with
  | .value _ => (some (ret.toObject true supply).1, (ret.toObject true supply).2)
  | .object => (some (ret.toObject false supply).1, (ret.toObject false supply).2)
  | .void | .generic _ => (none, supply)

/-- The supply when the parameters before `n` have been put back. -/
def supplyAt (m : Method) (final : Nat → Datum) (supply : Supply) : Nat → Supply
  | 0 => supply
  | n + 1 =>
    if m.isMutable n then ((final n).toObject (!m.isErased n) (m.supplyAt final supply n)).2
    else m.supplyAt final supply n

def restored (m : Method) (final : Nat → Datum) (supply : Supply) (n : Nat) : Object :=
  ((final n).toObject (!m.isErased n) (m.supplyAt final supply n)).1

theorem resultOf_leaves {m : Method} (hret : m.ret.isGeneric = false) (d : Datum)
    (supply : Supply) :
    m.ret.Leaves supply (m.resultOf d supply).2 d (m.resultOf d supply).1 := by
  rw [resultOf]
  cases hform : m.ret with
  | void => exact .void
  | generic text =>
    rw [hform] at hret
    cases hret
  | value type => exact .value (d.becomes_toObject true supply)
  | object => exact .object (d.becomes_toObject false supply)

theorem le_resultOf (m : Method) (d : Datum) (supply : Supply) :
    supply ≤ (m.resultOf d supply).2 := by
  rw [resultOf]
  split
  · exact d.le_toObject true supply
  · exact d.le_toObject false supply
  · exact Nat.le_refl supply
  · exact Nat.le_refl supply

theorem supplyAt_mono (m : Method) (final : Nat → Datum) (supply : Supply) :
    Monotone (m.supplyAt final supply) := by
  refine monotone_nat_of_le_succ fun n => ?_
  rw [supplyAt]
  split
  · exact (final n).le_toObject _ _
  · exact Nat.le_refl _

theorem restored_becomes {m : Method} (final : Nat → Datum) (supply : Supply) {n : Nat}
    (h : m.isMutable n = true) :
    (final n).Becomes (m.supplyAt final supply n) (m.supplyAt final supply (n + 1))
      (!m.isErased n) (m.restored final supply n) := by
  rw [supplyAt, if_pos h]
  exact (final n).becomes_toObject _ _

end Method

/-- What a method leaves of a parameter. If it says nothing the datum stays as it was read. -/
def Reply.final {σ : Type} (reply : Reply σ) (data : List Datum) (i : Nat) : Datum :=
  (reply.params[i]?.or data[i]?).getD (.plain .unit)

namespace DispatchLoop

variable {σ : Type}

namespace Locals

theorem update_nil_right (ls : Locals) (actuals : List Actual) : ls.update actuals [] = ls := by
  unfold update
  split
  · cases ‹[] = _›
  · cases ‹[] = _›
  · rfl

/-- One operand leaves its datum if it is a temporary that is borrowed mutably. -/
theorem update_cons (ls : Locals) (a : Actual) (d : Datum) (actuals : List Actual)
    (ds : List Datum) : ∃ ls' : Locals, ls.update (a :: actuals) (d :: ds) = ls'.update actuals ds ∧
      ∀ temp, ls'.temps temp = if a = .address temp true then d else ls.temps temp := by
  have hother : (∀ temp, a ≠ .address temp true) →
      ∀ temp, ls.temps temp = if a = .address temp true then d else ls.temps temp :=
    fun hne temp => (if_neg (hne temp)).symm
  cases a with
  | value n => exact ⟨ls, rfl, hother fun _ heq => nomatch heq⟩
  | constant b => exact ⟨ls, rfl, hother fun _ heq => nomatch heq⟩
  | address t mutable =>
    cases mutable with
    | false => exact ⟨ls, rfl, hother fun _ heq => nomatch heq⟩
    | true =>
      refine ⟨ls.bindTemp t d, rfl, fun temp => ?_⟩
      simp only [bindTemp, Actual.address.injEq, and_true, eq_comm]

theorem temps_update_of_notMem {actuals : List Actual} {ds : List Datum} {ls : Locals} {temp : Nat}
    (h : .address temp true ∉ actuals) : (ls.update actuals ds).temps temp = ls.temps temp := by
  induction actuals generalizing ds ls with
  | nil => rfl
  | cons a actuals ih =>
    rw [List.mem_cons, not_or] at h
    obtain ⟨hne, hrest⟩ := h
    cases ds with
    | nil => rw [update_nil_right]
    | cons d ds =>
      obtain ⟨ls', heq, htemps⟩ := ls.update_cons a d actuals ds
      rw [heq, ih hrest, htemps, if_neg (Ne.symm hne)]

/-- A temporary that is borrowed mutably once has what the method left for it. -/
theorem temps_update {actuals : List Actual} {ds : List Datum} {ls : Locals} {i temp : Nat}
    (hi : actuals[i]? = some (.address temp true))
    (honce : ∀ j, actuals[j]? = some (.address temp true) → j = i) :
    (ls.update actuals ds).temps temp = ds[i]?.getD (ls.temps temp) := by
  induction actuals generalizing ds ls i with
  | nil => cases hi
  | cons a actuals ih =>
    cases ds with
    | nil => rw [update_nil_right, List.getElem?_nil, Option.getD_none]
    | cons d ds =>
      obtain ⟨ls', heq, htemps⟩ := ls.update_cons a d actuals ds
      rw [heq]
      cases i with
      | zero =>
        have hrest : .address temp true ∉ actuals := by
          intro hmem
          obtain ⟨j, hj⟩ := List.mem_iff_getElem?.mp hmem
          cases honce (j + 1) hj
        rw [temps_update_of_notMem hrest, htemps, if_pos (Option.some.inj hi)]
        rfl
      | succ i =>
        have hne : a ≠ .address temp true := by
          rintro rfl
          cases honce 0 rfl
        rw [ih hi fun j hj => Nat.succ.inj (honce (j + 1) hj), htemps, if_neg hne]
        rfl

end Locals

structure Restored (m : Method) (final : Nat → Datum) (n : Nat) (start s : Run σ) : Prop where
  running : s.outcome = none
  result_eq : s.result = start.result
  target_eq : s.target = start.target
  locals_eq : s.locals = start.locals
  supply_eq : s.supply = m.supplyAt final start.supply n
  args_eq : Overwritten m.isMutable (m.restored final start.supply) n start.args s.args

section Storing
variable {m : Method} {n next : Nat} {final : Nat → Datum} {operands : Operands} {p : Parameter}
  {start s : Run σ} {prog : Program} {ids : Identifiers} {loop : DispatchLoop}
  {scope : Scope σ} {name : List UInt8} {rest : List Operation} {stmts : List Stmt}

/-- A parameter that is borrowed mutably is put back, any other one is left alone. -/
theorem Restored.advance (h : Restored m final n start s) (hp : m.params[n]? = some p)
    (hfinal : m.isMutable n = true → start.locals.temps (m.slot n) = final n)
    (harg : n < start.args.size)
    (hlower : lowerOperations prog ids next operands
      (Method.storeOne n (m.borrowed n) p ++ rest) = .ok stmts) :
    ∃ s' stmts', Run.Advance loop scope name [] [] s stmts s' stmts' ∧
      Restored m final (n + 1) start s' ∧
      lowerOperations prog ids next operands rest = .ok stmts' := by
  have hchosen := Method.isMutable_eq hp
  rw [Method.storeOne] at hlower
  by_cases hpassing : p.passing = .mutable
  · rw [if_pos hpassing] at hlower
    replace hchosen : m.isMutable n = true := by
      rw [hchosen, hpassing]
      rfl
    obtain ⟨head, operands', tail, hhead, htail, rfl⟩ := lowerOperations_cons hlower
    cases hhead
    have herased : m.isErased n = p.storage.isObject := by
      rw [Method.isErased, hp, Option.any_some]
    have hdatum : s.locals.temps (m.slot n) = final n := by
      rw [h.locals_eq, hfinal hchosen]
    have hexec : s.exec scope name (.storeArg n (m.slot n) (!p.storage.isObject)) =
        { s with
          args := s.args.setIfInBounds n (m.restored final start.supply n)
          supply := m.supplyAt final start.supply (n + 1) } := by
      rw [Run.exec, hdatum, h.supply_eq, Method.supplyAt, if_pos hchosen, Method.restored, herased]
    refine ⟨_, tail, .single h.running rfl, ?_, htail⟩
    rw [show (TempId.ofNat (m.borrowed n)).toNat = m.slot n from rfl, hexec]
    exact ⟨h.running, h.result_eq, h.target_eq, h.locals_eq, rfl, h.args_eq.set hchosen harg⟩
  · rw [if_neg hpassing] at hlower
    rw [beq_eq_false_iff_ne.mpr hpassing] at hchosen
    refine ⟨s, stmts, .refl s stmts, ?_, hlower⟩
    have hsupply : m.supplyAt final start.supply (n + 1) = m.supplyAt final start.supply n := by
      rw [Method.supplyAt, hchosen]
      rfl
    exact ⟨h.running, h.result_eq, h.target_eq, h.locals_eq, h.supply_eq.trans hsupply.symm,
      h.args_eq.skip hchosen⟩

/-- All parameters that are borrowed mutably are put back. -/
theorem restored_of_params {k : Nat} (h : Restored m final n start s)
    (hfinal : ∀ i, m.isMutable i = true → start.locals.temps (m.slot i) = final i)
    (hn : n + k = m.params.length) (hsize : m.params.length ≤ start.args.size)
    (hlower : lowerOperations prog ids next operands
      (Method.writeBackFrom n (m.borrowed n) (m.params.drop n) ++ rest) = .ok stmts) :
    ∃ s' stmts', Run.Advance loop scope name [] [] s stmts s' stmts' ∧
      Restored m final m.params.length start s' ∧
      lowerOperations prog ids next operands rest = .ok stmts' := by
  induction k generalizing n s stmts with
  | zero =>
    rw [List.drop_eq_nil_of_le (by omega)] at hlower
    obtain rfl : n = m.params.length := hn
    exact ⟨s, stmts, .refl s stmts, h, hlower⟩
  | succ k ih =>
    have hp : m.params[n]? = some m.params[n] := List.getElem?_eq_getElem (by omega)
    rw [Method.writeBackFrom_drop hp, List.append_assoc] at hlower
    obtain ⟨s₁, stmts₁, hfirst, hrestored, htail⟩ := h.advance hp (hfinal n) (by omega) hlower
    obtain ⟨s₂, stmts₂, hrest, hends⟩ := ih hrestored (by omega) htail
    exact ⟨s₂, stmts₂, hfirst.trans hrest, hends⟩

/-- What is returned is stored as the result. -/
theorem advance_storeReturn (hopen : s.outcome = none) (hret : m.ret.isGeneric = false)
    (hresult : s.result = none)
    (hlower : lowerOperations prog ids next operands (m.storeReturn ++ rest) = .ok stmts) :
    ∃ stmts', Run.Advance loop scope name [] [] s stmts
        { s with
          result := (m.resultOf s.locals.ret s.supply).1
          supply := (m.resultOf s.locals.ret s.supply).2 } stmts' ∧
      lowerOperations prog ids next operands rest = .ok stmts' := by
  rw [Method.storeReturn] at hlower
  rw [Method.resultOf]
  cases hform : m.ret with
  | void =>
    rw [hform] at hlower
    rw [← hresult]
    exact ⟨stmts, .refl s stmts, hlower⟩
  | generic text =>
    rw [hform] at hret
    cases hret
  | value type =>
    rw [hform] at hlower
    obtain ⟨head, operands', tail, hhead, htail, rfl⟩ := lowerOperations_cons hlower
    cases hhead
    exact ⟨tail, .single hopen rfl, htail⟩
  | object =>
    rw [hform] at hlower
    obtain ⟨head, operands', tail, hhead, htail, rfl⟩ := lowerOperations_cons hlower
    cases hhead
    exact ⟨tail, .single hopen rfl, htail⟩

end Storing

end DispatchLoop

end HookDispatch
