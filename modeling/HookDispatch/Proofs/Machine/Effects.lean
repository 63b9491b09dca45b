import HookDispatch.Proofs.Machine.Trace

/-!
What a run does beside scanning its name. The operations that scan change the cursor, the flag and
the counters only, and nothing else is read off these but where to branch. Two runs with the same
effects so far therefore go on alike through the same operations.
-/
namespace HookDispatch

namespace Operation

def scans : Operation → Bool
  | branch .. | initCursor | loadByte | compareByte _ | compareName _ | advance => true
  | _ => false

theorem marshals_of_scans {op : Operation} (h : op.scans = true) : op.marshals = false := by
  cases op <;> first | rfl | cases h

end Operation

namespace Run

variable {σ : Type} {ops : Array Operation} {invokers : Array (Invoker σ)} {name : List UInt8}
  {done : List (Operation × Run σ)} {s s' : Run σ}

/-- The run without what belongs to scanning. -/
def effects (s : Run σ) : Run σ :=
  { s with pc := 0, length := 0, position := 0, loaded := none, flag := false, stats := {} }

theorem effects_tick (s : Run σ) : s.tick.effects = s.effects := rfl

theorem effects_exec (op : Operation) (s : Run σ) :
    (exec invokers name s.effects op).effects = (exec invokers name s op).effects := by
  cases op with
  | branch c l =>
    simp only [exec]
    repeat' split
    all_goals rfl
  | unboxArg index type =>
    simp only [exec, effects, fail]
    cases objectAt s.args index <;> rfl
  | unboxTemp index type temp =>
    simp only [exec, fillTemp, effects, fail]
    cases objectAt s.args index with
    | error e => rfl
    | ok o => by_cases h : temp.toNat < s.temps.size <;> simp only [h, if_true, if_false]
  | call hook =>
    simp only [exec, callHook, effects, fail, frame]
    cases ((invokers[hook.toNat]?.getD fun state => .ofResult state none) s.target
      |>.run ⟨s.args, s.operands, s.temps⟩ s.supply).result <;> rfl
  | storeArg index temp type =>
    simp only [exec, storeArg, effects]
    cases s.temps.getD temp.toNat none <;> rfl
  | _ => rfl

/-- An operation that only tests the name has no effects. -/
theorem effects_of_scans {op : Operation} (h : op.scans = true) (s : Run σ) :
    (exec invokers name s op).effects = s.effects := by
  cases op with
  | branch c l =>
    rw [exec]
    split <;> rfl
  | initCursor | loadByte | compareByte | compareName | advance => rfl
  | _ => cases h

theorem Climb.effects (h : Climb ops invokers name done s s')
    (hscans : ∀ e ∈ done, e.1.scans = true) : s'.effects = s.effects := by
  induction h with
  | refl s => rfl
  | step hopen hop hup _ ih =>
    rw [ih fun e hmem => hscans e (List.mem_cons_of_mem _ hmem),
      effects_of_scans (hscans _ List.mem_cons_self), effects_tick]

theorem outcome_eq (h : s.effects = s'.effects) : s.outcome = s'.outcome :=
  (congrArg outcome h : s.effects.outcome = s'.effects.outcome)

theorem result_eq (h : s.effects = s'.effects) : s.result = s'.result :=
  (congrArg result h : s.effects.result = s'.effects.result)

theorem args_eq (h : s.effects = s'.effects) : s.args = s'.args :=
  (congrArg args h : s.effects.args = s'.effects.args)

theorem target_eq (h : s.effects = s'.effects) : s.target = s'.target :=
  (congrArg target h : s.effects.target = s'.effects.target)

theorem supply_eq (h : s.effects = s'.effects) : s.supply = s'.supply :=
  (congrArg supply h : s.effects.supply = s'.effects.supply)

theorem operands_eq (h : s.effects = s'.effects) : s.operands = s'.operands :=
  (congrArg operands h : s.effects.operands = s'.effects.operands)

theorem temps_eq (h : s.effects = s'.effects) : s.temps = s'.temps :=
  (congrArg temps h : s.effects.temps = s'.effects.temps)

theorem effects_exec_tick (h : s.effects = s'.effects) (op : Operation) :
    (exec invokers name s.tick op).effects = (exec invokers name s'.tick op).effects := by
  have htick : s.tick.effects = s'.tick.effects := h
  rw [← effects_exec, htick, effects_exec]

/-- Runs with the same effects do the same when they do the same operations. -/
theorem effects_straight (seg : List Operation) (h : s.effects = s'.effects) :
    (straight invokers name seg s).effects = (straight invokers name seg s').effects := by
  induction seg generalizing s s' with
  | nil => exact h
  | cons op seg ih =>
    have hended := outcome_eq h
    rw [straight, straight, hended]
    split
    · exact h
    · exact ih (effects_exec_tick h op)

theorem length_along (seg : List Operation) (h : s.effects = s'.effects) :
    (along invokers name seg s).length = (along invokers name seg s').length := by
  induction seg generalizing s s' with
  | nil => rfl
  | cons op seg ih =>
    have hended := outcome_eq h
    rw [along, along, hended]
    split
    · rfl
    · exact congrArg (· + 1) (ih (effects_exec_tick h op))

theorem mem_calls {c : MethodId × Frame} :
    c ∈ calls done ↔ ∃ s, (.call c.1, s) ∈ done ∧ s.frame = c.2 := by
  rw [calls, List.mem_filterMap]
  constructor
  · rintro ⟨⟨op, s⟩, hmem, heq⟩
    cases op <;> cases heq
    exact ⟨s, hmem, rfl⟩
  · rintro ⟨s, hmem, heq⟩
    refine ⟨_, hmem, ?_⟩
    simp only [heq]

theorem calls_of_idle (h : ∀ e ∈ done, e.1.marshals = false) : calls done = [] := by
  rw [List.eq_nil_iff_forall_not_mem]
  intro c hc
  obtain ⟨s, hmem, -⟩ := mem_calls.mp hc
  cases h _ hmem

/-- Operations in a row call something only if a call is among them. -/
theorem calls_along {seg : List Operation} (h : ∀ hook, .call hook ∉ seg) (s : Run σ) :
    calls (along invokers name seg s) = [] := by
  rw [List.eq_nil_iff_forall_not_mem]
  intro c hc
  obtain ⟨s', hmem, -⟩ := mem_calls.mp hc
  exact h c.1 ((map_along seg s).subset (List.mem_map_of_mem hmem))

theorem calls_append (done done' : List (Operation × Run σ)) :
    calls (done ++ done') = calls done ++ calls done' :=
  List.filterMap_append ..

end Run

end HookDispatch
