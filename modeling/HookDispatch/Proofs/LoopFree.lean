import HookDispatch.Proofs.Machine.Answer
import HookDispatch.Proofs.Specimen

/-!
Compiled programs have no loops. Every branch goes up, to the test of an edge or to the rejection,
and the last operation is a return. So control goes up with every step and is at an operation until
the run has ended: a run does no operation twice, and it needs no bound on its steps.
-/
namespace HookDispatch

/-- Branches go up to operations of the program, and the last operation is a return. -/
structure Upward (ops : Array Operation) : Prop where
  target : ∀ (i : Nat) (op : Operation) (l : Label), ops[i]? = some op → op.target = some l →
    i < l.toNat ∧ l.toNat < ops.size
  last : ops[ops.size - 1]? = some .ret

namespace Run

variable {σ : Type} {ops : Array Operation} {invokers : Array (Invoker σ)} {name : List UInt8}
  {done : List (Operation × Run σ)} {s s' : Run σ} {op : Operation}

structure Ascends (ops : Array Operation) (invokers : Array (Invoker σ)) (name : List UInt8)
    (s s' : Run σ) (done : List (Operation × Run σ)) : Prop where
  ended : s'.outcome.isSome
  /-- The run ends by itself: more steps than operations change nothing. -/
  unbounded : ∀ n, ops.size ≤ n → go ops invokers name n s = s'
  /-- Control does not leave the program as long as the run is open. -/
  inside : ∀ n, (go ops invokers name n s).outcome = none →
    (go ops invokers name n s).pc < ops.size
  once : (done.map fun e => e.2.pc).Pairwise (· < ·)
  steps_eq : s'.stats.steps = s.stats.steps + done.length
  length_le : done.length ≤ ops.size
  /-- The answer is given by a return, unless there is an error. -/
  returned : ∀ handled, s'.outcome = some (.ok handled) → ∃ e, done.getLast? = some (.ret, e)

section Climb

theorem Climb.le_of_mem (h : Climb ops invokers name done s s') :
    ∀ e ∈ done, s.pc ≤ e.2.pc := by
  induction h with
  | refl s => simp
  | step hopen hop hup _ ih =>
    intro e he
    rcases List.mem_cons.mp he with hfirst | hrest
    · rw [hfirst]
    · have hle := ih e hrest
      omega

theorem Climb.pairwise (h : Climb ops invokers name done s s') :
    (done.map fun e => e.2.pc).Pairwise (· < ·) := by
  induction h with
  | refl s => exact List.Pairwise.nil
  | step hopen hop hup hclimb ih =>
    rw [List.map_cons, List.pairwise_cons]
    refine ⟨?_, ih⟩
    intro pc hpc
    obtain ⟨e, he, heq⟩ := List.mem_map.mp hpc
    have hle := hclimb.le_of_mem e he
    subst heq
    exact Nat.lt_of_lt_of_le hup hle

/-- Only a return answers. -/
theorem eq_ret_of_outcome {handled : Bool} (hopen : s.outcome = none)
    (h : (exec invokers name s op).outcome = some (.ok handled)) : op = .ret := by
  cases op with
  | ret => rfl
  | _ =>
    simp only [exec, inspect, compareName, fillTemp, callHook, storeArg, fail] at h
    all_goals
      repeat' split at h
      all_goals simp [hopen] at h

theorem Climb.returned {handled : Bool} (h : Climb ops invokers name done s s')
    (hopen : s.outcome = none) (hend : s'.outcome = some (.ok handled)) :
    ∃ e, done.getLast? = some (.ret, e) := by
  induction h with
  | refl s => simp [hopen] at hend
  | @step op s s' done _ hop hup hclimb ih =>
    cases hnext : (exec invokers name s.tick op).outcome with
    | none =>
      obtain ⟨e, he⟩ := ih hnext hend
      exact ⟨e, by rw [List.getLast?_cons, he]; rfl⟩
    | some outcome =>
      cases hclimb with
      | refl =>
        have hret : op = .ret := eq_ret_of_outcome (s := s.tick) hopen hend
        exact ⟨s, by rw [hret]; rfl⟩
      | step hopen' => simp [hnext] at hopen'

end Climb

end Run

namespace Upward

variable {σ : Type} {ops : Array Operation} {invokers : Array (Invoker σ)} {name : List UInt8}
  {s : Run σ} {op : Operation}

/-- A step goes up, and beyond the last operation only if it ends the run. -/
theorem exec (h : Upward ops) (invokers : Array (Invoker σ)) (name : List UInt8)
    (hop : ops[s.pc]? = some op) :
    s.pc < (Run.exec invokers name s.tick op).pc ∧
      ((Run.exec invokers name s.tick op).outcome = none →
        (Run.exec invokers name s.tick op).pc < ops.size) := by
  have hlt : s.pc < ops.size := (Array.getElem?_eq_some_iff.mp hop).1
  have hnext : op ≠ .ret → s.pc + 1 < ops.size := by
    intro hne
    by_contra hlast
    have hpc : s.pc = ops.size - 1 := by omega
    rw [hpc, h.last] at hop
    exact hne (Option.some.inj hop).symm
  cases op with
  | branch c l =>
    obtain ⟨hup, hsize⟩ := h.target s.pc _ l hop rfl
    have hafter : s.pc + 1 < ops.size := hnext (by simp)
    by_cases hholds : s.tick.holds name c = true
    · rw [Run.exec, if_pos hholds]
      exact ⟨hup, fun _ => hsize⟩
    · rw [Run.exec, if_neg hholds]
      exact ⟨Nat.lt_succ_self s.pc, fun _ => hafter⟩
  | ret => exact ⟨Nat.lt_succ_self s.pc, by simp [Run.exec]⟩
  | _ =>
    rw [Run.pc_exec rfl]
    exact ⟨Nat.lt_succ_self s.pc, fun _ => hnext (by simp)⟩

/-- From any operation control goes up until the run has ended. -/
theorem exists_climb (h : Upward ops) (invokers : Array (Invoker σ)) (name : List UInt8)
    (hopen : s.outcome = none) (hpc : s.pc < ops.size) :
    ∃ done s', Run.Climb ops invokers name done s s' ∧ s'.outcome.isSome := by
  -- Each step leaves fewer operations above.
  induction hroom : ops.size - s.pc using Nat.strong_induction_on generalizing s with
  | _ room ih =>
    obtain ⟨op, hop⟩ : ∃ op, ops[s.pc]? = some op := ⟨_, Array.getElem?_eq_getElem hpc⟩
    obtain ⟨hup, hstay⟩ := h.exec invokers name hop
    cases hnext : (Run.exec invokers name s.tick op).outcome with
    | some outcome => exact ⟨_, _, .single hopen hop hup, by rw [hnext]; rfl⟩
    | none =>
      have hinside := hstay hnext
      obtain ⟨done, s', hclimb, hended⟩ := ih _ (by omega) hnext hinside rfl
      exact ⟨_, s', .step hopen hop hup hclimb, hended⟩

theorem pc_go (h : Upward ops) (hpc : s.outcome = none → s.pc < ops.size) (n : Nat)
    (hopen : (Run.go ops invokers name n s).outcome = none) :
    (Run.go ops invokers name n s).pc < ops.size := by
  induction n generalizing s with
  | zero => exact hpc hopen
  | succ n ih =>
    unfold Run.go at hopen ⊢
    split at hopen
    · rename_i hended
      simp [hopen] at hended
    · rename_i hstart
      have hnone : s.outcome = none := by simpa using hstart
      obtain ⟨op, hop⟩ : ∃ op, ops[s.pc]? = some op :=
        ⟨_, Array.getElem?_eq_getElem (hpc hnone)⟩
      rw [if_neg hstart, Run.step_eq hop] at *
      exact ih (h.exec invokers name hop).2 hopen

/-- A run from the first operation goes up to its end. -/
theorem ascends (h : Upward ops) (hopen : s.outcome = none) (hpc : s.pc = 0)
    (hsize : 0 < ops.size) :
    Run.Ascends ops invokers name s (Run.go ops invokers name (ops.size + 1) s)
      (Run.trace ops invokers name (ops.size + 1) s) := by
  have hroom : s.pc < ops.size := by omega
  obtain ⟨done, s', hclimb, hended⟩ := h.exists_climb invokers name hopen hroom
  obtain ⟨hgo, htrace⟩ := hclimb.whole hpc hended
  have hlength : done.length ≤ ops.size := by
    rcases hclimb.length_le with hnil | hle
    · simp [hnil]
    · omega
  rw [hgo, htrace]
  refine ⟨hended, ?_, ?_, hclimb.pairwise, hclimb.steps, hlength, ?_⟩
  · intro n hn
    obtain ⟨k, rfl⟩ : ∃ k, n = done.length + k := Nat.exists_eq_add_of_le (by omega)
    rw [hclimb.go_add, Run.go_of_ended hended]
  · intro n hn
    exact h.pc_go (fun _ => hroom) n hn
  · intro handled hend
    exact hclimb.returned hopen hend

end Upward

namespace Layout

variable {t : Trie} {r : Registry} {collapse : Bool} {p : Program}

/-- Every branch was a jump, and it goes where the jump has to go. -/
theorem exists_jump (L : Layout t r collapse p) {i : Nat} {op : Operation} {l : Label}
    (hop : p.operations[i]? = some op) (htarget : op.target = some l) :
    ∃ c target, (t.methodItems L.group)[i]? = some (.jump c target) ∧ l = L.place target := by
  rw [L.operations, List.getElem?_toArray, List.getElem?_map, Option.map_eq_some_iff] at hop
  obtain ⟨item, hitem, hpatched⟩ := hop
  subst hpatched
  cases item with
  | plain op =>
    have hnone := Trie.target_plain_methodItems L.emitted (List.mem_of_getElem? hitem)
    rw [Item.patched, hnone] at htarget
    cases htarget
  | entry id => cases htarget
  | jump c target => exact ⟨c, target, hitem, (Option.some.inj htarget).symm⟩

theorem last (L : Layout t r collapse p) : p.operations[p.size - 1]? = some .ret := by
  have hret : p.operations[p.size - 2 + 1]? = some .ret := L.holds_rejection.getElem? rfl
  have hsize := L.five_le_size
  rw [show p.size - 1 = p.size - 2 + 1 by omega]
  exact hret

/-- The rejection has no branches, so every branch is before it. -/
theorem lt_epilogue (L : Layout t r collapse p) {i : Nat} {op : Operation} {l : Label}
    (hop : p.operations[i]? = some op) (htarget : op.target = some l) : i < p.size - 2 := by
  have hlt : i < p.size := (Array.getElem?_eq_some_iff.mp hop).1
  by_contra hge
  have hend : i = p.size - 2 + 0 ∨ i = p.size - 2 + 1 := by omega
  rcases hend with hfirst | hsecond
  · have hset : p.operations[p.size - 2 + 0]? = some (.setHandled false) :=
      L.holds_rejection.getElem? rfl
    rw [hfirst, hset] at hop
    cases hop
    cases htarget
  · have hret : p.operations[p.size - 2 + 1]? = some .ret := L.holds_rejection.getElem? rfl
    rw [hsecond, hret] at hop
    cases hop
    cases htarget

/-- A branch goes up, either to the rejection or to the test of an edge. -/
theorem branch_target (L : Layout t r collapse p) (hsize : p.size ≤ UInt32.size) {i : Nat}
    {op : Operation} {l : Label} (hop : p.operations[i]? = some op)
    (htarget : op.target = some l) :
    i < l.toNat ∧ l.toNat + 1 < p.size ∧
      (l = L.place .epilogue ∨ p.operations[l.toNat]? = some .loadByte ∧
        ∃ byte, p.operations[l.toNat + 1]? = some (.compareByte byte)) := by
  have hbefore := L.lt_epilogue hop htarget
  obtain ⟨c, target, hitem, hl⟩ := L.exists_jump hop htarget
  subst hl
  cases target with
  | epilogue =>
    have hplace := L.toNat_epilogue hsize
    exact ⟨by omega, by omega, Or.inl rfl⟩
  | node id =>
    have hwired := Trie.wired_methodItems L.emitted
    obtain ⟨j, hij, hentry⟩ := hwired.exists_entry hitem
    obtain ⟨byte, t', hcompare, hjump⟩ := hwired.test_entry hentry
    have hplace : (L.place (.node id)).toNat = j := L.entries j id hentry
    have hload := L.operation_at hentry
    have htest := L.operation_at hcompare
    have hlt : j + 1 < p.size := (Array.getElem?_eq_some_iff.mp htest).1
    rw [hplace]
    exact ⟨hij, hlt, Or.inr ⟨hload, byte, htest⟩⟩

theorem upward (L : Layout t r collapse p) (hsize : p.size ≤ UInt32.size) :
    Upward p.operations where
  target := by
    intro i op l hop htarget
    obtain ⟨hup, hlt, -⟩ := L.branch_target hsize hop htarget
    exact ⟨hup, Nat.lt_of_succ_lt hlt⟩
  last := L.last

end Layout

/-- Every compiled program that labels can reach is free of loops. No branch is pending; each goes
up inside the program, to the rejection or to the test of an edge; the last operation is a return.
Whatever the hooks do, a run of it goes up to its end. -/
theorem loop_free {t : Trie} {r : Registry} {collapse : Bool} {typeName : String} {p : Program}
    (ht : t.Reachable) (hp : (t.compile r collapse typeName).2.value = .ok p)
    (hsize : p.size ≤ UInt32.size) :
    (∀ (i : Nat) (op : Operation) (l : Label), p.operations[i]? = some op →
      op.target = some l → l.isPending = false ∧ i < l.toNat ∧ l.toNat < p.size ∧
        (l = p.epilogue ∨ p.operations[l.toNat]? = some .loadByte ∧
          ∃ byte, p.operations[l.toNat + 1]? = some (.compareByte byte))) ∧
    p.operations.back? = some .ret ∧
    ∀ (σ : Type) (d : Dispatcher σ), d.program = p → ∀ target supply name result args,
      Run.Ascends p.operations d.invokers (Text.bytes (name.getD ""))
        (d.start target supply result args) (d.call target supply name result args)
        (d.trace target supply name result args) := by
  obtain ⟨L⟩ := Trie.exists_layout ht.sound hp
  have hepilogue : p.epilogue = L.place .epilogue := by
    rw [L.epilogue, (Trie.linked_of_compile hp).2.2]
  refine ⟨?_, ?_, ?_⟩
  · intro i op l hop htarget
    obtain ⟨hup, hlt, hgoes⟩ := L.branch_target hsize hop htarget
    rw [hepilogue]
    exact ⟨Trie.ne_pending rfl (by omega), hup, by omega, hgoes⟩
  · rw [Array.back?_eq_getElem?]
    exact L.last
  · intro σ d hd target supply name result args
    subst hd
    have hfive := L.five_le_size
    exact (L.upward hsize).ascends rfl rfl (Nat.lt_of_lt_of_le (by omega) hfive)

/-- The program of the specimen ends with a return, and its run for a name that no hook has ends by
itself. -/
theorem loop_free_specimen :
    ∃ (p : Program) (d : Dispatcher Nat),
      (Specimen.trie.compile Specimen.registry false "T").2.value = .ok p ∧ d.program = p ∧
      p.operations.back? = some .ret ∧ (d.call 0 0 (some "abc") none #[]).outcome.isSome := by
  obtain ⟨p, d, hp, hd⟩ := Specimen.exists_dispatcher false
  obtain ⟨hprogram, -⟩ := Dispatcher.ofProgram_eq_ok hd
  have hsize : p.size ≤ UInt32.size := by
    rw [Trie.size_of_compile hp]
    decide
  obtain ⟨-, hlast, hrun⟩ := loop_free (Trie.reachable_ofRegistry Specimen.trie_eq) hp hsize
  exact ⟨p, d, hp, hprogram, hlast, (hrun Nat d hprogram 0 0 (some "abc") none #[]).ended⟩

end HookDispatch
