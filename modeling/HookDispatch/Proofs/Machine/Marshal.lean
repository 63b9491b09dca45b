import HookDispatch.Proofs.Machine.Cells
import HookDispatch.Proofs.Machine.Effects

/-!
What a call sequence does, part by part. Unpacking goes through the parameters in order and stops at
the first one without an argument; afterwards the frame shows the arguments as cells. Storing goes
through the parameters again and puts the cells of the mutably borrowed ones back into the array.
-/
namespace HookDispatch

/-- Of the first `n` places, those that are chosen have new objects; all others are as before. -/
def Overwritten (chosen : Nat → Bool) (new : Nat → Object) (n : Nat) (old objects : Array Object) :
    Prop :=
  ∀ i, objects[i]? = if i < n ∧ chosen i = true then some (new i) else old[i]?

namespace Overwritten

variable {chosen : Nat → Bool} {new : Nat → Object} {n : Nat} {old objects : Array Object}

theorem refl (chosen : Nat → Bool) (new : Nat → Object) (old : Array Object) :
    Overwritten chosen new 0 old old := fun i => by rw [if_neg (by simp)]

theorem set (h : Overwritten chosen new n old objects) (hchosen : chosen n = true)
    (hn : n < old.size) : Overwritten chosen new (n + 1) old (objects.setIfInBounds n (new n)) := by
  intro i
  by_cases hi : i = n
  · subst hi
    have hlt : i < objects.size := by
      by_contra hge
      have hnone := h i
      rw [Array.getElem?_eq_none (Nat.not_lt.mp hge), if_neg (by simp),
        Array.getElem?_eq_getElem hn] at hnone
      cases hnone
    rw [if_pos ⟨Nat.lt_add_one i, hchosen⟩]
    exact Array.getElem?_setIfInBounds_self_of_lt hlt
  · have hrange : i < n + 1 ↔ i < n := by omega
    rw [Array.getElem?_setIfInBounds_ne (Ne.symm hi), h i]
    simp only [hrange]

theorem skip (h : Overwritten chosen new n old objects) (hchosen : chosen n = false) :
    Overwritten chosen new (n + 1) old objects := by
  intro i
  have hrange : i < n + 1 ∧ chosen i = true ↔ i < n ∧ chosen i = true := by
    by_cases hi : i = n
    · simp [hi, hchosen]
    · have : i < n + 1 ↔ i < n := by omega
      rw [this]
  rw [h i]
  simp only [hrange]

end Overwritten

namespace Method

def unpackOne (index temp : Nat) (p : Parameter) : List Operation :=
  if p.isBorrowing then
    [.unboxTemp index p.storage (.ofNat temp), .pushTemp (.ofNat temp) (p.passing == .mutable)]
  else [.unboxArg index p.storage]

def storeOne (index temp : Nat) (p : Parameter) : List Operation :=
  if p.passing = .mutable then [.storeArg index (.ofNat temp) p.storage] else []

theorem drop_params {m : Method} {n : Nat} {p : Parameter} (hp : m.params[n]? = some p) :
    m.params.drop n = p :: m.params.drop (n + 1) := by
  obtain ⟨hn, rfl⟩ := List.getElem?_eq_some_iff.mp hp
  exact List.drop_eq_getElem_cons hn

/-- Unpacking goes on with the next parameter. -/
theorem unpackFrom_drop {m : Method} {n : Nat} {p : Parameter} (hp : m.params[n]? = some p) :
    unpackFrom n (m.borrowed n) (m.params.drop n) =
      unpackOne n (m.borrowed n) p ++
        unpackFrom (n + 1) (m.borrowed (n + 1)) (m.params.drop (n + 1)) := by
  rw [drop_params hp, unpackFrom, unpackOne, borrowed_succ hp]
  split <;> rfl

/-- Storing goes on with the next parameter. -/
theorem writeBackFrom_drop {m : Method} {n : Nat} {p : Parameter} (hp : m.params[n]? = some p) :
    writeBackFrom n (m.borrowed n) (m.params.drop n) =
      storeOne n (m.borrowed n) p ++
        writeBackFrom (n + 1) (m.borrowed (n + 1)) (m.params.drop (n + 1)) := by
  rw [drop_params hp, writeBackFrom, storeOne, borrowed_succ hp]
  split <;> split <;> rfl

end Method

namespace Run

variable {σ : Type} {m : Method} {invokers : Array (Invoker σ)} {name : List UInt8}
  {start s : Run σ} {n : Nat}

/-- The same run as far as the caller sees it. -/
structure Untouched (start s : Run σ) : Prop where
  args_eq : s.args = start.args
  result_eq : s.result = start.result
  target_eq : s.target = start.target
  supply_eq : s.supply = start.supply

structure Unpacked (m : Method) (n : Nat) (start s : Run σ) : Prop extends Untouched start s where
  running : s.outcome = none
  returned_eq : s.returned = start.returned
  count_eq : s.operands.size = n
  operand_eq : ∀ i < n, s.operands[i]? = m.operand? i
  size_eq : s.temps.size = start.temps.size
  filled : m.borrowCount ≤ UInt16.size → ∀ i < n, ∀ p o, m.params[i]? = some p →
    p.isBorrowing = true → start.args[i]? = some o → s.temps[m.slot i]? = some (some ⟨i, o⟩)

/-- An argument is missing. -/
structure Starved (start s : Run σ) : Prop extends Untouched start s where
  outcome_eq : s.outcome = some (.error (.missingArgument start.args.size start.args.size))

section Unpack
variable {p : Parameter}

theorem objectAt_of_lt {args : Array Object} {i : Nat} (h : i < args.size) :
    ∃ o, args[i]? = some o ∧ objectAt args i = .ok o := by
  have ho := Array.getElem?_eq_getElem h
  exact ⟨args[i], ho, by rw [objectAt, ho]⟩

theorem objectAt_of_le {args : Array Object} {i : Nat} (h : args.size ≤ i) :
    objectAt args i = .error (.missingArgument i args.size) := by
  rw [objectAt, Array.getElem?_eq_none h]

theorem Unpacked.operand_push (h : Unpacked m n start s) {operand : Operand}
    (hoperand : m.operand? n = some operand) :
    ∀ i < n + 1, (s.operands.push operand)[i]? = m.operand? i := by
  intro i hi
  rw [Array.getElem?_push, h.count_eq]
  split
  · rename_i hlast
    rw [hlast, hoperand]
  · exact h.operand_eq i (by omega)

theorem Unpacked.push_arg (h : Unpacked m n start s) (hp : m.params[n]? = some p)
    (hborrow : p.isBorrowing = false) :
    Unpacked m (n + 1) start { s.tick with operands := s.operands.push (.arg n) } := by
  have hoperand : m.operand? n = some (.arg n) := by
    rw [Method.operand?, hp, Option.map_some, hborrow]
    rfl
  refine ⟨⟨h.args_eq, h.result_eq, h.target_eq, h.supply_eq⟩, h.running, h.returned_eq, ?_,
    h.operand_push hoperand, h.size_eq, ?_⟩
  · rw [Array.size_push, h.count_eq]
  · intro hcount i hi q o hq hborrow' ho
    rcases Nat.lt_succ_iff_lt_or_eq.mp hi with hlt | rfl
    · exact h.filled hcount i hlt q o hq hborrow' ho
    · cases hp.symm.trans hq
      rw [hborrow] at hborrow'
      cases hborrow'

theorem Unpacked.push_temp (h : Unpacked m n start s) (hp : m.params[n]? = some p)
    (hborrow : p.isBorrowing = true) (hslot : m.slot n < s.temps.size) {o : Object}
    (ho : start.args[n]? = some o) :
    Unpacked m (n + 1) start
      { s.tick.tick with
        operands := s.operands.push (.temp (m.slot n) (p.passing == .mutable))
        temps := s.temps.setIfInBounds (m.slot n) (some ⟨n, o⟩) } := by
  have hoperand : m.operand? n = some (.temp (m.slot n) (p.passing == .mutable)) := by
    rw [Method.operand?, hp, Option.map_some, hborrow]
    rfl
  refine ⟨⟨h.args_eq, h.result_eq, h.target_eq, h.supply_eq⟩, h.running, h.returned_eq, ?_,
    h.operand_push hoperand, ?_, ?_⟩
  · rw [Array.size_push, h.count_eq]
  · rw [Array.size_setIfInBounds, h.size_eq]
  · intro hcount i hi q o' hq hborrow' ho'
    rcases Nat.lt_succ_iff_lt_or_eq.mp hi with hlt | rfl
    · rw [Array.getElem?_setIfInBounds_ne]
      · exact h.filled hcount i hlt q o' hq hborrow' ho'
      · exact Method.slot_ne hp hq hborrow hborrow' hcount (by omega)
    · cases ho.symm.trans ho'
      exact Array.getElem?_setIfInBounds_self_of_lt hslot

variable (invokers name) in
/-- One more parameter is unpacked if it has an argument. -/
theorem Unpacked.succ (h : Unpacked m n start s) (hp : m.params[n]? = some p)
    (htemps : m.borrowCount ≤ start.temps.size) (harg : n < start.args.size) :
    Unpacked m (n + 1) start (straight invokers name
      (Method.unpackOne n (m.borrowed n) p) s) := by
  obtain ⟨o, ho, hobject⟩ := objectAt_of_lt harg
  rw [← h.args_eq] at hobject
  cases hborrow : p.isBorrowing with
  | false =>
    have hstraight : straight invokers name (Method.unpackOne n (m.borrowed n) p) s =
        { s.tick with operands := s.operands.push (.arg n) } := by
      rw [Method.unpackOne, if_neg (by simp [hborrow]), straight_cons h.running, exec,
        show s.tick.args = s.args from rfl, hobject]
      rfl
    rw [hstraight]
    exact h.push_arg hp hborrow
  | true =>
    have hslot : m.slot n < s.temps.size := by
      have hlt := Method.slot_lt hp hborrow
      rw [h.size_eq]
      omega
    have hfill : exec invokers name s.tick (.unboxTemp n p.storage (.ofNat (m.borrowed n))) =
        { s.tick with temps := s.temps.setIfInBounds (m.slot n) (some ⟨n, o⟩) } := by
      rw [exec, fillTemp, show s.tick.args = s.args from rfl, hobject]
      exact if_pos hslot
    have hstraight : straight invokers name (Method.unpackOne n (m.borrowed n) p) s =
        { s.tick.tick with
          operands := s.operands.push (.temp (m.slot n) (p.passing == .mutable))
          temps := s.temps.setIfInBounds (m.slot n) (some ⟨n, o⟩) } := by
      rw [Method.unpackOne, if_pos hborrow, straight_cons h.running, hfill, straight_cons]
      · rfl
      · exact h.running
    rw [hstraight]
    exact h.push_temp hp hborrow hslot ho

variable (invokers name) in
/-- Unpacking stops at the first parameter without an argument. -/
theorem Unpacked.starved (h : Unpacked m start.args.size start s) (temp : Nat) (p : Parameter) :
    Starved start (straight invokers name (Method.unpackOne start.args.size temp p) s) := by
  have hobject : objectAt s.tick.args start.args.size =
      .error (.missingArgument start.args.size start.args.size) := by
    rw [show s.tick.args = start.args from h.args_eq]
    exact objectAt_of_le (Nat.le_refl _)
  have hfail : straight invokers name (Method.unpackOne start.args.size temp p) s =
      s.tick.fail (.missingArgument start.args.size start.args.size) := by
    rw [Method.unpackOne]
    split
    · have hfill : exec invokers name s.tick (.unboxTemp start.args.size p.storage (.ofNat temp)) =
          s.tick.fail (.missingArgument start.args.size start.args.size) := by
        rw [exec, fillTemp, hobject]
      rw [straight_cons h.running, hfill]
      exact straight_of_ended rfl _
    · rw [straight_cons h.running, exec, hobject]
      rfl
  rw [hfail]
  exact ⟨⟨h.args_eq, h.result_eq, h.target_eq, h.supply_eq⟩, rfl⟩

/-- All parameters are unpacked, or the first one without an argument ends the run. -/
theorem unpacked_of_params {k : Nat} (h : Unpacked m n start s)
    (htemps : m.borrowCount ≤ start.temps.size) (hn : n + k = m.params.length)
    (hsize : n ≤ start.args.size) :
    let s' := straight invokers name (Method.unpackFrom n (m.borrowed n) (m.params.drop n)) s
    (m.params.length ≤ start.args.size → Unpacked m m.params.length start s') ∧
      (start.args.size < m.params.length → Starved start s') := by
  induction k generalizing n s with
  | zero =>
    rw [List.drop_eq_nil_of_le (by omega)]
    obtain rfl : n = m.params.length := hn
    exact ⟨fun _ => h, fun hlt => absurd hlt (Nat.not_lt.mpr hsize)⟩
  | succ k ih =>
    have hp : m.params[n]? = some m.params[n] := List.getElem?_eq_getElem (by omega)
    rw [Method.unpackFrom_drop hp, straight_append]
    rcases Nat.lt_or_eq_of_le hsize with hlt | rfl
    · exact ih (h.succ invokers name hp htemps hlt) (by omega) hlt
    · have hstarved :=
        h.starved invokers name (m.borrowed start.args.size) m.params[start.args.size]
      rw [straight_of_ended (by rw [hstarved.outcome_eq]; rfl)]
      exact ⟨fun hle => by omega, fun _ => hstarved⟩

theorem unpacked_zero (m : Method) (hrunning : s.outcome = none) (hoperands : s.operands = #[]) :
    Unpacked m 0 s s := by
  refine ⟨⟨rfl, rfl, rfl, rfl⟩, hrunning, rfl, ?_, ?_, rfl, ?_⟩
  · rw [hoperands]
    rfl
  · exact fun i hi => absurd hi (Nat.not_lt_zero i)
  · exact fun _ i hi => absurd hi (Nat.not_lt_zero i)

variable (invokers name) in
/-- Unpacking the parameters of a method, from the first one on. -/
theorem unpacked_all (hrunning : s.outcome = none) (hoperands : s.operands = #[])
    (htemps : m.borrowCount ≤ s.temps.size) :
    (m.params.length ≤ s.args.size →
      Unpacked m m.params.length s (straight invokers name (Method.unpackFrom 0 0 m.params) s)) ∧
    (s.args.size < m.params.length →
      Starved s (straight invokers name (Method.unpackFrom 0 0 m.params) s)) :=
  unpacked_of_params (unpacked_zero m hrunning hoperands) htemps (Nat.zero_add _)
    (Nat.zero_le _)

end Unpack

structure Stored (m : Method) (cell : Nat → Object) (n : Nat) (start s : Run σ) : Prop where
  running : s.outcome = none
  result_eq : s.result = start.result
  target_eq : s.target = start.target
  supply_eq : s.supply = start.supply
  args_eq : Overwritten m.isMutable cell n start.args s.args
  held : ∀ i p, n ≤ i → m.params[i]? = some p → p.isBorrowing = true →
    s.temps[m.slot i]? = some (some ⟨i, cell i⟩)

section Store
variable {p : Parameter} {cell : Nat → Object}

theorem storeArg_of_held {slot : Nat} {filled : Slot}
    (h : s.temps[slot]? = some (some filled)) (index : Nat) :
    s.storeArg index slot =
      { s with
        temps := s.temps.setIfInBounds slot none
        args := s.args.setIfInBounds index filled.object } := by
  rw [storeArg, Array.getD_eq_getD_getElem?, h]
  rfl

variable (invokers name) in
/-- One more parameter is put back if it is mutably borrowed. -/
theorem Stored.succ (h : Stored m cell n start s) (hp : m.params[n]? = some p)
    (hcount : m.borrowCount ≤ UInt16.size) (harg : n < start.args.size) :
    Stored m cell (n + 1) start (straight invokers name
      (Method.storeOne n (m.borrowed n) p) s) := by
  have hchosen := Method.isMutable_eq hp
  by_cases hmutable : p.passing = .mutable
  · have hborrow := Parameter.isBorrowing_of_mutable hmutable
    have hheld : s.tick.temps[m.slot n]? = some (some ⟨n, cell n⟩) :=
      h.held n p (Nat.le_refl n) hp hborrow
    have hstraight : straight invokers name
        (Method.storeOne n (m.borrowed n) p) s =
          { s.tick with
            temps := s.temps.setIfInBounds (m.slot n) none
            args := s.args.setIfInBounds n (cell n) } := by
      rw [Method.storeOne, if_pos hmutable, straight_cons h.running]
      exact storeArg_of_held hheld n
    rw [hmutable] at hchosen
    rw [hstraight]
    refine ⟨h.running, h.result_eq, h.target_eq, h.supply_eq, h.args_eq.set hchosen harg, ?_⟩
    intro i q hi hq hborrow'
    rw [Array.getElem?_setIfInBounds_ne]
    · exact h.held i q (by omega) hq hborrow'
    · exact Method.slot_ne hp hq hborrow hborrow' hcount (by omega)
  · rw [beq_eq_false_iff_ne.mpr hmutable] at hchosen
    rw [Method.storeOne, if_neg hmutable]
    exact ⟨h.running, h.result_eq, h.target_eq, h.supply_eq, h.args_eq.skip hchosen,
      fun i q hi => h.held i q (by omega)⟩

theorem stored_zero (hrunning : s.outcome = none)
    (hheld : ∀ i p, m.params[i]? = some p → p.isBorrowing = true →
      s.temps[m.slot i]? = some (some ⟨i, cell i⟩)) : Stored m cell 0 s s :=
  ⟨hrunning, rfl, rfl, rfl, .refl m.isMutable cell s.args, fun i p _ => hheld i p⟩

/-- All mutably borrowed parameters are put back. -/
theorem stored_of_params {k : Nat} (h : Stored m cell n start s)
    (hcount : m.borrowCount ≤ UInt16.size) (hn : n + k = m.params.length)
    (hsize : m.params.length ≤ start.args.size) :
    Stored m cell m.params.length start
      (straight invokers name (Method.writeBackFrom n (m.borrowed n) (m.params.drop n)) s) := by
  induction k generalizing n s with
  | zero =>
    rw [List.drop_eq_nil_of_le (by omega)]
    obtain rfl : n = m.params.length := hn
    exact h
  | succ k ih =>
    have hp : m.params[n]? = some m.params[n] := List.getElem?_eq_getElem (by omega)
    rw [Method.writeBackFrom_drop hp, straight_append]
    exact ih (h.succ invokers name hp hcount (by omega)) (by omega)

end Store

end Run

end HookDispatch
