import HookDispatch.Proofs.DispatchLoop.Advance
import HookDispatch.Proofs.DispatchLoop.Arms
import HookDispatch.Proofs.Machine.Effects

/-!
A loop follows the machine while the name is scanned. Both have the same cursor, flag and effects,
and what is left of the arm is what the block has from the program counter on. A branch ends its
block, so control changes arms only where a block begins.
-/
namespace HookDispatch.DispatchLoop

/-- The loop is where the machine is, beside its position. -/
structure Mirrors {σ : Type} (s : HookDispatch.Run σ) (ls : Run σ) : Prop where
  running : ls.outcome = none
  length_eq : ls.length = s.length
  position_eq : ls.position = s.position
  loaded_eq : ls.loaded = s.loaded
  flag_eq : ls.flag = s.flag
  result_eq : ls.result = s.result
  args_eq : ls.args = s.args
  target_eq : ls.target = s.target
  supply_eq : ls.supply = s.supply

variable {σ : Type} {p : Program} {ids : Identifiers} {loop : DispatchLoop}
  {scope : Scope σ} {name : List UInt8} {s s' : HookDispatch.Run σ} {ls : Run σ}
  {stmts : List Stmt}

theorem Mirrors.holds_eq (h : Mirrors s ls) (c : Condition) : ls.holds name c = s.holds name c := by
  cases c with
  | nameEmpty => rfl
  | exhausted => rw [Run.holds, HookDispatch.Run.holds, h.length_eq, h.position_eq]
  | remaining => rw [Run.holds, HookDispatch.Run.holds, h.length_eq, h.position_eq]
  | different => rw [Run.holds, HookDispatch.Run.holds, h.flag_eq]

/-- Where a run is, what it has cost and what is bound in an arm are no part of what is mirrored. -/
theorem Mirrors.moved (h : Mirrors s ls) (pc : Nat) (stats : Stats) (state : Nat)
    (locals : Locals) : Mirrors { s with pc, stats } { ls with state, locals } :=
  ⟨h.running, h.length_eq, h.position_eq, h.loaded_eq, h.flag_eq, h.result_eq, h.args_eq,
    h.target_eq, h.supply_eq⟩

theorem lowerOperations_cons {next : Nat} {operands : Operands} {op : Operation}
    {rest : List Operation} (h : lowerOperations p ids next operands (op :: rest) = .ok stmts) :
    ∃ head operands' tail, lowerOperation p ids next operands op = .ok (head, operands') ∧
      lowerOperations p ids next operands' rest = .ok tail ∧ stmts = head ++ tail := by
  rw [lowerOperations] at h
  split at h
  · cases h
  · rename_i head operands' hhead
    cases htail : lowerOperations p ids next operands' rest with
    | error e =>
      rw [htail] at h
      cases h
    | ok tail =>
      rw [htail] at h
      cases h
      exact ⟨head, operands', tail, hhead, htail, rfl⟩

variable (p ids scope name) in
/-- The operations before a call that are no branches have a statement each, which does the same. -/
theorem exists_stmt {op : Operation} (hop : op.scans = true ∨ op = .clearResult)
    (htarget : op.target = none) :
    ∃ stmt, (∀ next operands, lowerOperation p ids next operands op = .ok ([stmt], operands)) ∧
      (∀ ls : Run σ, ls.callee stmt = []) ∧ ∀ s ls, Mirrors s ls →
        Mirrors (HookDispatch.Run.exec #[] name s.tick op) (ls.exec scope name stmt) := by
  rcases hop with hop | rfl
  · cases op with
    | initCursor =>
      refine ⟨_, fun _ _ => rfl, fun _ => rfl, fun s ls h => ?_⟩
      exact ⟨h.running, rfl, rfl, h.loaded_eq, h.flag_eq, h.result_eq, h.args_eq, h.target_eq,
        h.supply_eq⟩
    | loadByte =>
      refine ⟨_, fun _ _ => rfl, fun _ => rfl, fun s ls h => ?_⟩
      exact ⟨h.running, h.length_eq, h.position_eq, congrArg (name[·]?) h.position_eq, h.flag_eq,
        h.result_eq, h.args_eq, h.target_eq, h.supply_eq⟩
    | compareByte b =>
      refine ⟨_, fun _ _ => rfl, fun _ => rfl, fun s ls h => ?_⟩
      exact ⟨h.running, h.length_eq, h.position_eq, h.loaded_eq,
        congrArg (· == some b) h.loaded_eq, h.result_eq, h.args_eq, h.target_eq, h.supply_eq⟩
    | compareName key =>
      refine ⟨_, fun _ _ => rfl, fun _ => rfl, fun s ls h => ?_⟩
      exact ⟨h.running, h.length_eq, h.position_eq, h.loaded_eq, rfl, h.result_eq, h.args_eq,
        h.target_eq, h.supply_eq⟩
    | advance =>
      refine ⟨_, fun _ _ => rfl, fun _ => rfl, fun s ls h => ?_⟩
      exact ⟨h.running, h.length_eq, congrArg (· + 1) h.position_eq, h.loaded_eq, h.flag_eq,
        h.result_eq, h.args_eq, h.target_eq, h.supply_eq⟩
    | branch c l => cases htarget
    | _ => cases hop
  · refine ⟨_, fun _ _ => rfl, fun _ => rfl, fun s ls h => ?_⟩
    exact ⟨h.running, h.length_eq, h.position_eq, h.loaded_eq, h.flag_eq, rfl, h.args_eq,
      h.target_eq, h.supply_eq⟩

variable (scope name) in
/-- Entering the arm of the block that begins where the machine is. -/
theorem advance_enter (hloop : ofProgram p ids = .ok loop) (hmirrors : Mirrors s ls)
    (hstate : ls.state = s.pc) (hleader : s.pc ∈ p.blockLeaders) :
    ∃ body, Run.Advance loop scope name [s.pc] [] ls [] { ls with locals := {} } body ∧
      Mirrors s { ls with locals := {} } ∧ Lowered p ids s.pc body := by
  obtain ⟨body, hbody, hlowered⟩ := body?_of_mem hloop hleader
  refine ⟨body, ?_, hmirrors.moved s.pc s.stats ls.state {}, hlowered⟩
  rw [← hstate] at hbody ⊢
  exact .enter hmirrors.running hbody (.refl _ body)

/-- A branch is followed through the arm of the block that it goes to. -/
theorem advance_branch (hloop : ofProgram p ids = .ok loop) (hmirrors : Mirrors s ls)
    (hlowered : Lowered p ids s.pc stmts) {c : Condition} {l : Label}
    (hop : p.operations[s.pc]? = some (.branch c l))
    (hlt : (HookDispatch.Run.exec #[] name s.tick (.branch c l)).pc < p.size) :
    let s' := HookDispatch.Run.exec #[] name s.tick (.branch c l)
    ∃ ls' stmts', Run.Advance loop scope name [s'.pc] [] ls stmts ls' stmts' ∧ Mirrors s' ls' ∧
      Lowered p ids s'.pc stmts' ∧ s'.pc ∈ p.blockLeaders := by
  intro s'
  obtain ⟨next, body, hreaches, hbody, rfl⟩ := hlowered
  have hends : Program.endsBlock (.branch c l) = true := rfl
  have hnext : next = s.pc + 1 := by
    have hpast := hreaches.lt
    have hend := hreaches.le
    by_cases hinside : s.pc + 1 < p.size
    · have := hreaches.least _ (Program.succ_mem_blockLeaders hop hends hinside) (Nat.lt_add_one _)
      omega
    · omega
  subst hnext
  rw [Program.slice_cons hop (Nat.lt_add_one _), Program.slice_self] at hbody ⊢
  cases hbody
  have hstep : Run.Advance loop scope name [] [] ls [.select c l.toNat (s.pc + 1)]
      (ls.exec scope name (.select c l.toNat (s.pc + 1))) [] := .single hmirrors.running rfl
  have hsame : Mirrors s' (ls.exec scope name (.select c l.toNat (s.pc + 1))) ∧
      s'.pc = if s.holds name c then l.toNat else s.pc + 1 := by
    have hs' : s' = if s.holds name c then { s.tick with pc := l.toNat } else s.tick := rfl
    rw [hs']
    split
    all_goals exact ⟨hmirrors.moved _ _ _ ls.locals, rfl⟩
  have hleader : s'.pc ∈ p.blockLeaders := by
    have hpc := hsame.2
    split at hpc
    · rw [hpc] at hlt ⊢
      exact Program.target_mem_blockLeaders hop rfl hlt
    · rw [hpc] at hlt ⊢
      exact Program.succ_mem_blockLeaders hop hends hlt
  have hstate : (ls.exec scope name (.select c l.toNat (s.pc + 1))).state = s'.pc := by
    rw [hsame.2, ← hmirrors.holds_eq]
    rfl
  obtain ⟨body, henter, hmirrors', hlowered⟩ :=
    advance_enter scope name hloop hsame.1 hstate hleader
  exact ⟨_, body, hstep.trans henter, hmirrors', hlowered, hleader⟩

/-- Another operation is followed by its statement, and into the next arm where its block ends. -/
theorem advance_plain (hloop : ofProgram p ids = .ok loop) (hmirrors : Mirrors s ls)
    (hlowered : Lowered p ids s.pc stmts) {op : Operation} (hop : p.operations[s.pc]? = some op)
    (hkind : op.scans = true ∨ op = .clearResult) (htarget : op.target = none)
    (hlt : s.pc + 1 < p.size) :
    let s' := HookDispatch.Run.exec #[] name s.tick op
    ∃ entered ls' stmts', Run.Advance loop scope name entered [] ls stmts ls' stmts' ∧
      Mirrors s' ls' ∧ Lowered p ids s'.pc stmts' ∧
      (entered = [] ∨ entered = [s'.pc] ∧ s'.pc ∈ p.blockLeaders) := by
  intro s'
  have hpc : s'.pc = s.pc + 1 := HookDispatch.Run.pc_exec htarget s.tick
  obtain ⟨stmt, hlower, hquiet, hexec⟩ := exists_stmt p ids scope name hkind htarget
  obtain ⟨next, body, hreaches, hbody, rfl⟩ := hlowered
  have hgoes : Program.endsBlock op = false := by
    rcases hkind with hkind | rfl
    · cases op with
      | branch c l => cases htarget
      | ret => cases hkind
      | _ => rfl
    · rfl
  rw [Program.slice_cons hop hreaches.lt] at hbody ⊢
  obtain ⟨head, operands, tail, hhead, htail, rfl⟩ := lowerOperations_cons hbody
  rw [hlower] at hhead
  cases hhead
  have hstep : Run.Advance loop scope name [] [] ls
      (stmt :: (tail ++ onward next (p.slice (s.pc + 1) next))) (ls.exec scope name stmt)
      (tail ++ onward next (p.slice (s.pc + 1) next)) := .single hmirrors.running (hquiet ls)
  have honward : onward next (op :: p.slice (s.pc + 1) next) =
      onward next (p.slice (s.pc + 1) next) := by
    rw [onward, onward, List.any_cons, hgoes, Bool.false_or]
  rw [honward]
  by_cases hinside : s.pc + 1 < next
  · refine ⟨[], _, _, hstep, hexec s ls hmirrors, ?_, Or.inl rfl⟩
    have hreaches' : p.Reaches (s.pc + 1) next :=
      ⟨hinside, hreaches.le, fun x hx hx' => hreaches.least x hx (by omega), hreaches.begins⟩
    rw [hpc]
    exact ⟨next, tail, hreaches', htail, rfl⟩
  · obtain rfl : next = s.pc + 1 := by
      have := hreaches.lt
      omega
    rw [Program.slice_self] at htail hstep ⊢
    cases htail
    have hsame := hexec s ls hmirrors
    have hgoto : Mirrors s' ((ls.exec scope name stmt).exec scope name (.goto (s.pc + 1))) :=
      hsame.moved s'.pc s'.stats (s.pc + 1) (ls.exec scope name stmt).locals
    have hleader : s'.pc ∈ p.blockLeaders := hpc ▸ hreaches.begins hlt
    obtain ⟨body, henter, hmirrors', hlowered⟩ :=
      advance_enter scope name hloop hgoto hpc.symm hleader
    exact ⟨_, _, body, (hstep.trans (.single hsame.running rfl)).trans henter, hmirrors', hlowered,
      Or.inr ⟨rfl, hleader⟩⟩

/-- One operation that scans is followed, into another arm at most once. -/
theorem advance_step (hloop : ofProgram p ids = .ok loop) (hmirrors : Mirrors s ls)
    (hlowered : Lowered p ids s.pc stmts) {op : Operation} (hop : p.operations[s.pc]? = some op)
    (hkind : op.scans = true ∨ op = .clearResult)
    (hlt : (HookDispatch.Run.exec #[] name s.tick op).pc < p.size) :
    let s' := HookDispatch.Run.exec #[] name s.tick op
    ∃ entered ls' stmts', Run.Advance loop scope name entered [] ls stmts ls' stmts' ∧
      Mirrors s' ls' ∧ Lowered p ids s'.pc stmts' ∧
      (entered = [] ∨ entered = [s'.pc] ∧ s'.pc ∈ p.blockLeaders) := by
  intro s'
  cases htarget : op.target with
  | none =>
    have hpc : s'.pc = s.pc + 1 := HookDispatch.Run.pc_exec htarget s.tick
    exact advance_plain hloop hmirrors hlowered hop hkind htarget (hpc ▸ hlt)
  | some l =>
    cases op with
    | branch c target =>
      obtain ⟨ls', stmts', hadvance, hmirrors', hlowered', hleader⟩ :=
        advance_branch hloop hmirrors hlowered hop hlt
      exact ⟨_, ls', stmts', hadvance, hmirrors', hlowered', Or.inr ⟨rfl, hleader⟩⟩
    | _ => cases htarget

/-- A loop follows the machine through operations that scan. The states that it enters go up, and
blocks begin there. -/
theorem advance_of_climb (hloop : ofProgram p ids = .ok loop)
    {done : List (Operation × HookDispatch.Run σ)}
    (hclimb : HookDispatch.Run.Climb p.operations #[] name done s s')
    (hscans : ∀ e ∈ done, e.1.scans = true ∨ e.1 = .clearResult) (hend : s'.pc < p.size)
    (hmirrors : Mirrors s ls) (hlowered : Lowered p ids s.pc stmts) :
    ∃ entered ls' stmts', Run.Advance loop scope name entered [] ls stmts ls' stmts' ∧
      Mirrors s' ls' ∧ Lowered p ids s'.pc stmts' ∧ entered.Pairwise (· < ·) ∧
      ∀ x ∈ entered, s.pc < x ∧ x ∈ p.blockLeaders := by
  induction hclimb generalizing ls stmts with
  | refl s =>
    exact ⟨[], ls, stmts, .refl ls stmts, hmirrors, hlowered, .nil, fun x hx => nomatch hx⟩
  | @step op s s' done hopen hop hup hclimb ih =>
    have hpc : (HookDispatch.Run.exec #[] name s.tick op).pc < p.size :=
      Nat.lt_of_le_of_lt hclimb.pc_le hend
    obtain ⟨first, ls₁, stmts₁, hfirst, hmirrors₁, hlowered₁, hentered₁⟩ :=
      advance_step hloop hmirrors hlowered hop (hscans _ List.mem_cons_self) hpc
    obtain ⟨entered, ls₂, stmts₂, hrest, hmirrors₂, hlowered₂, hsorted, hentered⟩ :=
      ih (fun e he => hscans e (List.mem_cons_of_mem _ he)) hend hmirrors₁ hlowered₁
    refine ⟨first ++ entered, ls₂, stmts₂, hfirst.trans hrest, hmirrors₂, hlowered₂, ?_, ?_⟩
    · rcases hentered₁ with rfl | ⟨rfl, -⟩
      · exact hsorted
      · exact List.pairwise_cons.mpr ⟨fun x hx => (hentered x hx).1, hsorted⟩
    · intro x hx
      rcases List.mem_append.mp hx with hx | hx
      · rcases hentered₁ with rfl | ⟨rfl, hleader⟩
        · cases hx
        · rw [List.mem_singleton.mp hx]
          exact ⟨hup, hleader⟩
      · exact ⟨Nat.lt_trans hup (hentered x hx).1, (hentered x hx).2⟩

end HookDispatch.DispatchLoop
