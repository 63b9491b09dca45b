import HookDispatch.Proofs.DispatchLoop.Arms
import HookDispatch.Proofs.Machine.Trace

/-!
The leaders of a program cut it into stretches, each from one leader up to the next one or to the
end. Every position is in exactly one stretch, and only the last operation of a stretch can be a
branch or a return. So a run enters a stretch at its first operation and leaves it after its last
one, whatever the operations are and wherever their branches go.
-/
namespace HookDispatch

namespace Program

/-- The positions from a leader up to the next one, or up to the end of the program. -/
def Stretch (p : Program) (start next : Nat) : Prop :=
  ∃ pre rest, p.blockLeaders = pre ++ start :: rest ∧ next = rest.head?.getD p.size

/-- Control goes on inside a stretch, or over the end of one to the beginning of one. -/
inductive Passes (p : Program) : Nat → Nat → Prop
  | inside {start next pc : Nat} (h : p.Stretch start next) (hstart : start ≤ pc)
      (hnext : pc + 1 < next) : Passes p pc (pc + 1)
  | over {start next start' next' pc : Nat} (h : p.Stretch start next) (hstart : start ≤ pc)
      (hlast : pc + 1 = next) (h' : p.Stretch start' next') : Passes p pc start'

variable {p : Program} {start next start' next' pc : Nat} {op : Operation}

theorem zero_mem_blockLeaders (h : 0 < p.size) : 0 ∈ p.blockLeaders :=
  mem_leaders.mpr ⟨h, Or.inl rfl⟩

/-- Up to 32 bits, leaders are kept by labels. -/
theorem toNat_ofNat_blockLeaders (h : p.size ≤ UInt32.size) :
    p.blockLeaders.map (fun pc => (Label.ofNat pc).toNat) = p.blockLeaders := by
  have hkept : ∀ pc ∈ p.blockLeaders, (Label.ofNat pc).toNat = id pc := by
    intro pc hpc
    have hlt : pc < p.size := lt_of_mem_blockLeaders hpc
    exact Label.toNat_ofNat (by omega)
  rw [List.map_congr_left hkept, List.map_id]

theorem endsBlock_eq_true_iff : endsBlock op = true ↔ op.target.isSome ∨ op = .ret := by
  rw [endsBlock, Bool.or_eq_true]
  cases op <;> simp [Operation.isTerminator]

theorem endsBlock_eq_false_iff : endsBlock op = false ↔ op.target = none ∧ op ≠ .ret := by
  rw [← Bool.not_eq_true, endsBlock_eq_true_iff, not_or, Option.not_isSome_iff_eq_none]

/-- The leaders are the first position, the targets of branches and the positions after a branch
or a return, as far as they are in the program. -/
theorem mem_blockLeaders_iff :
    pc ∈ p.blockLeaders ↔ pc < p.size ∧ (pc = 0 ∨
      (∃ op ∈ p.operations, ∃ l, op.target = some l ∧ l.toNat = pc) ∨
      ∃ i op, p.operations[i]? = some op ∧ (op.target.isSome ∨ op = .ret) ∧ pc = i + 1) := by
  rw [blockLeaders, mem_leaders]
  refine and_congr_right fun _ => or_congr_right ?_
  constructor
  · rintro ⟨i, op, hop, ⟨l, htarget, hl⟩ | ⟨hends, hi⟩⟩
    · exact Or.inl ⟨op, Array.mem_of_getElem? hop, l, htarget, hl⟩
    · exact Or.inr ⟨i, op, hop, endsBlock_eq_true_iff.mp hends, hi.symm⟩
  · rintro (⟨op, hmem, l, htarget, hl⟩ | ⟨i, op, hop, hends, hi⟩)
    · obtain ⟨i, hop⟩ := Array.mem_iff_getElem?.mp hmem
      exact ⟨i, op, hop, Or.inl ⟨l, htarget, hl⟩⟩
    · exact ⟨i, op, hop, Or.inr ⟨endsBlock_eq_true_iff.mpr hends, hi.symm⟩⟩

/-- Branches back, to themselves and past the end. -/
example : leaders #[.advance, .branch .different ⟨0⟩, .branch .remaining ⟨2⟩,
    .branch .exhausted ⟨9⟩, .advance, .ret] = [0, 2, 3, 4] := by
  decide

theorem exists_stretch_of_mem (h : start ∈ p.blockLeaders) : ∃ next, p.Stretch start next := by
  obtain ⟨pre, rest, hleaders⟩ := List.append_of_mem h
  exact ⟨_, pre, rest, hleaders, rfl⟩

namespace Stretch

theorem mem_blockLeaders (h : p.Stretch start next) : start ∈ p.blockLeaders := by
  obtain ⟨pre, rest, hleaders, -⟩ := h
  rw [hleaders]
  exact List.mem_append_right pre List.mem_cons_self

theorem reaches (h : p.Stretch start next) : p.Reaches start next := by
  obtain ⟨pre, rest, hleaders, rfl⟩ := h
  exact reaches_of_blockLeaders hleaders

/-- Two stretches with a common position begin together. -/
theorem start_le (h : p.Stretch start next) (h' : p.Stretch start' next') (hnext : pc < next)
    (hstart' : start' ≤ pc) : start' ≤ start := by
  by_contra hlater
  have hnext' : next ≤ start' := h.reaches.least start' h'.mem_blockLeaders (by omega)
  omega

theorem next_le (h : p.Stretch start next) (h' : p.Stretch start next') : next ≤ next' := by
  by_contra hlater
  have hbefore : next' < p.size := by
    have := h.reaches.le
    omega
  have hnext : next ≤ next' :=
    h.reaches.least next' (h'.reaches.begins hbefore) h'.reaches.lt
  omega

/-- A position is in one stretch only. -/
theorem unique (h : p.Stretch start next) (h' : p.Stretch start' next') (hstart : start ≤ pc)
    (hnext : pc < next) (hstart' : start' ≤ pc) (hnext' : pc < next') :
    start = start' ∧ next = next' := by
  have hsame : start = start' :=
    Nat.le_antisymm (h'.start_le h hnext' hstart) (h.start_le h' hnext hstart')
  subst hsame
  exact ⟨rfl, Nat.le_antisymm (h.next_le h') (h'.next_le h)⟩

/-- Before the last operation of a stretch no block ends, since one would begin after it. -/
theorem endsBlock_eq_false (h : p.Stretch start next) (hstart : start ≤ pc)
    (hnext : pc + 1 < next) (hop : p.operations[pc]? = some op) : endsBlock op = false := by
  by_contra hends
  have hsize : pc + 1 < p.size := by
    have := h.reaches.le
    omega
  have hleader : pc + 1 ∈ p.blockLeaders :=
    succ_mem_blockLeaders hop (by simpa using hends) hsize
  have hlast : next ≤ pc + 1 := h.reaches.least (pc + 1) hleader (by omega)
  omega

end Stretch

/-- Every position is in a stretch, the one of the greatest leader up to there. -/
theorem exists_stretch (h : pc < p.size) :
    ∃ start next, p.Stretch start next ∧ start ≤ pc ∧ pc < next := by
  induction pc with
  | zero =>
    obtain ⟨next, hstretch⟩ := exists_stretch_of_mem (zero_mem_blockLeaders h)
    exact ⟨0, next, hstretch, Nat.le_refl 0, hstretch.reaches.lt⟩
  | succ pc ih =>
    by_cases hleader : pc + 1 ∈ p.blockLeaders
    · obtain ⟨next, hstretch⟩ := exists_stretch_of_mem hleader
      exact ⟨pc + 1, next, hstretch, Nat.le_refl _, hstretch.reaches.lt⟩
    · obtain ⟨start, next, hstretch, hstart, hnext⟩ := ih (by omega)
      have hne : next ≠ pc + 1 := by
        rintro rfl
        exact hleader (hstretch.reaches.begins h)
      exact ⟨start, next, hstretch, by omega, by omega⟩

theorem existsUnique_stretch (h : pc < p.size) :
    ∃! block : Nat × Nat, p.Stretch block.1 block.2 ∧ block.1 ≤ pc ∧ pc < block.2 := by
  obtain ⟨start, next, hstretch, hstart, hnext⟩ := exists_stretch h
  refine ⟨(start, next), ⟨hstretch, hstart, hnext⟩, ?_⟩
  rintro ⟨start', next'⟩ ⟨hstretch', hstart', hnext'⟩
  obtain ⟨rfl, rfl⟩ := hstretch'.unique hstretch hstart' hnext' hstart hnext
  rfl

end Program

namespace Run

variable {σ : Type} {p : Program} {ops : Array Operation} {invokers : Array (Invoker σ)}
  {name : List UInt8} {s : Run σ} {op : Operation}

/-- A step goes on to the next position or to the target of a branch. -/
theorem pc_step (invokers : Array (Invoker σ)) (name : List UInt8) (hop : ops[s.pc]? = some op) :
    (s.step ops invokers name).pc = s.pc + 1 ∨
      ∃ l, op.target = some l ∧ l.toNat = (s.step ops invokers name).pc := by
  rw [step_eq hop]
  cases htarget : op.target with
  | none => exact Or.inl (pc_exec htarget s.tick)
  | some l =>
    cases op with
    | branch c goal =>
      cases htarget
      rw [exec]
      split
      · exact Or.inr ⟨l, rfl, rfl⟩
      · exact Or.inl rfl
    | _ => cases htarget

theorem pc_step_of_inside (hop : ops[s.pc]? = some op) (hends : Program.endsBlock op = false) :
    (s.step ops invokers name).pc = s.pc + 1 := by
  rw [step_eq hop]
  exact pc_exec (Program.endsBlock_eq_false_iff.mp hends).1 s.tick

/-- Either nothing more is done, or an operation and then the rest. -/
theorem trace_cases (ops : Array Operation) (invokers : Array (Invoker σ)) (name : List UInt8)
    (n : Nat) (s : Run σ) :
    (trace ops invokers name n s = [] ∧
      (go ops invokers name n s = s ∨ ops[s.pc]? = none)) ∨
    ∃ m op, n = m + 1 ∧ s.outcome = none ∧ ops[s.pc]? = some op ∧
      trace ops invokers name n s =
        (op, s) :: trace ops invokers name m (s.step ops invokers name) ∧
      go ops invokers name n s = go ops invokers name m (s.step ops invokers name) := by
  cases n with
  | zero => exact Or.inl ⟨rfl, Or.inl rfl⟩
  | succ m =>
    by_cases hended : s.outcome.isSome
    · exact Or.inl ⟨trace_of_ended hended _, Or.inl (go_of_ended hended _)⟩
    · have hopen : s.outcome = none := by simpa using hended
      cases hop : ops[s.pc]? with
      | none =>
        refine Or.inl ⟨?_, Or.inr rfl⟩
        rw [trace, if_neg hended, hop]
      | some op =>
        refine Or.inr ⟨m, op, rfl, hopen, rfl, ?_, ?_⟩
        · rw [trace, if_neg hended, hop]
        · rw [go, if_neg hended]

theorem head?_trace {n : Nat} {e : Operation × Run σ}
    (h : (trace ops invokers name n s).head? = some e) : e.2 = s ∧ ops[s.pc]? = some e.1 := by
  rcases trace_cases ops invokers name n s with ⟨hnil, -⟩ | ⟨m, op, -, -, hop, htrace, -⟩
  · rw [hnil] at h
    cases h
  · rw [htrace] at h
    cases h
    exact ⟨rfl, hop⟩

/-- A step that stays in the program goes on inside a stretch or over to another one. -/
theorem passes_step (hop : p.operations[s.pc]? = some op)
    (hlt : (s.step p.operations invokers name).pc < p.size) :
    p.Passes s.pc (s.step p.operations invokers name).pc := by
  have hpc : s.pc < p.size := (Array.getElem?_eq_some_iff.mp hop).1
  obtain ⟨start, next, hstretch, hstart, hnext⟩ := Program.exists_stretch hpc
  by_cases hlast : s.pc + 1 = next
  · have hleader : (s.step p.operations invokers name).pc ∈ p.blockLeaders := by
      rcases pc_step invokers name hop with hsucc | ⟨l, htarget, hl⟩
      · rw [hsucc] at hlt ⊢
        rw [hlast] at hlt ⊢
        exact hstretch.reaches.begins hlt
      · rw [← hl] at hlt ⊢
        exact Program.target_mem_blockLeaders hop htarget hlt
    obtain ⟨next', hstretch'⟩ := Program.exists_stretch_of_mem hleader
    exact .over hstretch hstart hlast hstretch'
  · have hinside : s.pc + 1 < next := by omega
    have hends := hstretch.endsBlock_eq_false hstart hinside hop
    rw [pc_step_of_inside hop hends]
    exact .inside hstretch hstart hinside

/-- A run passes from stretch to stretch. -/
theorem passes_trace (p : Program) (n : Nat) (s : Run σ) :
    ((trace p.operations invokers name n s).map (·.2.pc)).IsChain p.Passes := by
  induction n generalizing s with
  | zero => exact List.isChain_nil
  | succ n ih =>
    rcases trace_cases p.operations invokers name (n + 1) s with
      ⟨hnil, -⟩ | ⟨m, op, hm, -, hop, htrace, -⟩
    · rw [hnil]
      exact List.isChain_nil
    · obtain rfl : n = m := by omega
      rw [htrace, List.map_cons, List.isChain_cons]
      refine ⟨?_, ih _⟩
      intro pc hpc
      rw [List.head?_map] at hpc
      obtain ⟨e, he, rfl⟩ := Option.map_eq_some_iff.mp hpc
      obtain ⟨hstate, hnext⟩ := head?_trace he
      rw [hstate]
      exact passes_step hop (Array.getElem?_eq_some_iff.mp hnext).1

/-- Only a return answers. -/
theorem eq_ret_of_exec (hopen : s.outcome = none) {v : Bool}
    (h : (exec invokers name s op).outcome = some (.ok v)) : op = .ret := by
  cases op with
  | ret => rfl
  | _ =>
    simp only [exec, compareName, fillTemp, callHook, storeArg, fail] at h
    repeat' split at h
    all_goals simp [hopen] at h

/-- A step after which the run answers, or control is past the program, ends a stretch. -/
theorem exists_stretch_succ (invokers : Array (Invoker σ)) (name : List UInt8)
    (hopen : s.outcome = none) (hop : p.operations[s.pc]? = some op)
    (hend : (∃ v, (s.step p.operations invokers name).outcome = some (.ok v)) ∨
      p.operations[(s.step p.operations invokers name).pc]? = none) :
    ∃ start, p.Stretch start (s.pc + 1) := by
  have hpc : s.pc < p.size := (Array.getElem?_eq_some_iff.mp hop).1
  obtain ⟨start, next, hstretch, hstart, hnext⟩ := Program.exists_stretch hpc
  have hlast : next = s.pc + 1 := by
    by_contra hne
    have hends := hstretch.endsBlock_eq_false hstart (by omega) hop
    rcases hend with ⟨v, hanswer⟩ | hpast
    · rw [step_eq hop] at hanswer
      obtain rfl := eq_ret_of_exec (s := s.tick) hopen hanswer
      cases hends
    · have hsize : p.size ≤ (s.step p.operations invokers name).pc :=
        Array.getElem?_eq_none_iff.mp hpast
      rw [pc_step_of_inside hop hends] at hsize
      have hle : next ≤ p.size := hstretch.reaches.le
      omega
  rw [← hlast]
  exact ⟨start, hstretch⟩

/-- The last operation of a run that answers is the last one of its stretch. -/
theorem exists_stretch_getLast? {n : Nat} {v : Bool} {e : Operation × Run σ}
    (hanswer : (go p.operations invokers name n s).outcome = some (.ok v))
    (hlast : (trace p.operations invokers name n s).getLast? = some e) :
    ∃ start, p.Stretch start (e.2.pc + 1) := by
  induction n generalizing s with
  | zero => cases hlast
  | succ n ih =>
    rcases trace_cases p.operations invokers name (n + 1) s with
      ⟨hnil, -⟩ | ⟨m, op, hm, hopen, hop, htrace, hgo⟩
    · rw [hnil] at hlast
      cases hlast
    · obtain rfl : n = m := by omega
      rw [hgo] at hanswer
      rw [htrace] at hlast
      cases hrest : trace p.operations invokers name n (s.step p.operations invokers name) with
      | cons first rest =>
        apply ih hanswer
        rw [hrest] at hlast ⊢
        rwa [List.getLast?_cons_cons] at hlast
      | nil =>
        rw [hrest] at hlast
        cases hlast
        apply exists_stretch_succ invokers name hopen hop
        rcases trace_cases p.operations invokers name n (s.step p.operations invokers name) with
          ⟨-, hstay | hpast⟩ | ⟨m, op, -, -, -, hmore, -⟩
        · rw [hstay] at hanswer
          exact Or.inl ⟨v, hanswer⟩
        · exact Or.inr hpast
        · rw [hrest] at hmore
          cases hmore

end Run

/-- The leaders of a program cut it into straight stretches, and every run goes through it stretch
by stretch. -/
theorem Program.cut_by_leaders (p : Program) :
    p.blockLeaders.Pairwise (· < ·) ∧ (0 < p.size → 0 ∈ p.blockLeaders) ∧
    (∀ pc, pc ∈ p.blockLeaders ↔ pc < p.size ∧ (pc = 0 ∨
      (∃ op ∈ p.operations, ∃ l, op.target = some l ∧ l.toNat = pc) ∨
      ∃ i op, p.operations[i]? = some op ∧ (op.target.isSome ∨ op = .ret) ∧ pc = i + 1)) ∧
    (p.size ≤ UInt32.size →
      p.blockLeaders.map (fun pc => (Label.ofNat pc).toNat) = p.blockLeaders) ∧
    (∀ pc < p.size,
      ∃! block : Nat × Nat, p.Stretch block.1 block.2 ∧ block.1 ≤ pc ∧ pc < block.2) ∧
    (∀ start next, p.Stretch start next → ∀ i op, start ≤ i → i + 1 < next →
      p.operations[i]? = some op → op.target = none ∧ op ≠ .ret) ∧
    ∀ (σ : Type) (invokers : Array (Invoker σ)) (name : List UInt8) (n : Nat) (s : Run σ),
      let entries := Run.trace p.operations invokers name n s
      (entries.map (·.2.pc)).IsChain p.Passes ∧
      (s.pc = 0 → ∀ e, entries.head? = some e → ∃ next, p.Stretch e.2.pc next) ∧
      ∀ v, (Run.go p.operations invokers name n s).outcome = some (.ok v) →
        ∀ e, entries.getLast? = some e → ∃ start, p.Stretch start (e.2.pc + 1) := by
  refine ⟨p.pairwise_blockLeaders, zero_mem_blockLeaders, fun _ => mem_blockLeaders_iff,
    toNat_ofNat_blockLeaders, fun _ => existsUnique_stretch, ?_, ?_⟩
  · intro start next hstretch i op hstart hnext hop
    exact endsBlock_eq_false_iff.mp (hstretch.endsBlock_eq_false hstart hnext hop)
  · intro σ invokers name n s entries
    refine ⟨Run.passes_trace p n s, ?_, fun v hanswer e => Run.exists_stretch_getLast? hanswer⟩
    intro hzero e he
    obtain ⟨hstate, hop⟩ := Run.head?_trace he
    have hsize : s.pc < p.size := (Array.getElem?_eq_some_iff.mp hop).1
    rw [hstate, hzero]
    exact exists_stretch_of_mem (zero_mem_blockLeaders (by omega))

end HookDispatch
