import HookDispatch.Proofs.DispatchLoop.Calling
import HookDispatch.Proofs.Machine.Answer
import HookDispatch.Proofs.Specimen

/-!
Dispatching by a loop. The loop of a compiled program enters only arms that it has, ends, and calls
the method of the hook that the trie has for the name, with its arguments in the order of their
parameters; if an argument cannot be read, or if there is no hook, it calls nothing.
-/
namespace HookDispatch

namespace DispatchLoop

variable {σ : Type} {t : Trie} {r : Registry} {collapse : Bool} {p : Program} {ids : Identifiers}
  {loop : DispatchLoop}

/-- Where the operations begin that answer a name, what is left of the arm are their statements. -/
theorem Lowered.of_answers (L : Layout t r collapse p) (hsize : p.size ≤ UInt32.size)
    {found : Option MethodId} {body : List Operation} (hanswers : r.Answers found body) {pc : Nat}
    (hholds : Holds p.operations pc body) {stmts : List Stmt} (hlowered : Lowered p ids pc stmts) :
    ∃ next, lowerOperations p ids next {} body = .ok stmts := by
  obtain ⟨next, stmts, hreaches, hbody, rfl⟩ := hlowered
  obtain ⟨seg, hseg, -⟩ := hanswers.ends_once
  have hlength : body.length = seg.length + 1 := by
    rw [hseg, List.length_append]
    rfl
  have hret : p.operations[pc + seg.length]? = some .ret := by
    refine hholds.getElem? ?_
    rw [hseg, List.getElem?_append_right (Nat.le_refl _), Nat.sub_self]
    rfl
  have hlast := (Array.getElem?_eq_some_iff.mp hret).1
  have hnext : next = pc + body.length := by
    refine Nat.le_antisymm ?_ ?_
    · by_cases hinside : pc + seg.length + 1 < p.size
      · have hleader := Program.succ_mem_blockLeaders hret rfl hinside
        have hle := hreaches.least _ hleader (by omega)
        omega
      · have hle := hreaches.le
        omega
    · by_contra hshort
      have hinside : next < p.size := Nat.lt_of_lt_of_le (Nat.not_le.mp hshort) (by
        rw [hlength, Program.size]
        omega)
      exact L.not_mem_blockLeaders hsize hanswers hholds hreaches.lt (Nat.not_le.mp hshort)
        (hreaches.begins hinside)
  rw [hnext, Program.slice_of_holds hholds] at hbody ⊢
  have hends : body.any Program.endsBlock = true :=
    List.any_eq_true.mpr ⟨.ret, by rw [hseg]; simp, rfl⟩
  rw [onward, if_pos hends, List.append_nil]
  exact ⟨_, hbody⟩

/-- Arms that are entered in ascending order are not more than there are. -/
theorem length_le_arms (hloop : ofProgram p ids = .ok loop) {entered : List Nat}
    (hsorted : entered.Pairwise (· < ·)) (hleaders : ∀ x ∈ entered, x ∈ p.blockLeaders) :
    entered.length ≤ loop.arms.length := by
  have hnodup : entered.Nodup := hsorted.imp Nat.ne_of_lt
  rw [length_arms hloop]
  exact (List.subperm_of_subset hnodup hleaders).length_le

/-- A loop follows a climb of the machine that begins at a leader, through arms that it has. -/
theorem exists_arms (hloop : ofProgram p ids = .ok loop) {name : List UInt8}
    {s s' : HookDispatch.Run σ} {done : List (Operation × HookDispatch.Run σ)}
    (hclimb : HookDispatch.Run.Climb p.operations #[] name done s s')
    (hscans : ∀ e ∈ done, e.1.scans = true ∨ e.1 = .clearResult) (hend : s'.pc < p.size)
    (hleader : s.pc ∈ p.blockLeaders) (scope : Scope σ) {start : Run σ} (hstart : Mirrors s start)
    (hstate : start.state = s.pc) :
    ∃ entered ls stmts, Run.Advance loop scope name entered [] start [] ls stmts ∧
      (∀ x ∈ entered, x ∈ p.blockLeaders) ∧ entered.length ≤ loop.arms.length ∧
      Mirrors s' ls ∧ Lowered p ids s'.pc stmts := by
  obtain ⟨arm, henter, hmirrors, hlowered⟩ := advance_enter scope name hloop hstart hstate hleader
  obtain ⟨entered, ls, stmts, hadvance, hmirrors', hlowered', hsorted, hentered⟩ :=
    advance_of_climb hloop hclimb hscans hend hmirrors hlowered
  have hleaders : ∀ x ∈ s.pc :: entered, x ∈ p.blockLeaders := by
    intro x hx
    rcases List.mem_cons.mp hx with rfl | hx
    · exact hleader
    · exact (hentered x hx).2
  have hascending : (s.pc :: entered).Pairwise (· < ·) :=
    List.pairwise_cons.mpr ⟨fun x hx => (hentered x hx).1, hsorted⟩
  exact ⟨s.pc :: entered, ls, stmts, henter.trans hadvance, hleaders,
    length_le_arms hloop hascending hleaders, hmirrors', hlowered'⟩

/-- A loop comes to the statements that answer a name. -/
theorem exists_arrival (hloop : ofProgram p ids = .ok loop) (L : Layout t r collapse p)
    (ht : t.Sound) (hsize : p.size ≤ UInt32.size) (scope : Scope σ) (target : σ)
    (supply : Supply) (text : String) (result : Option Object) (args : Array Object) :
    ∃ entered ls stmts next body,
      Run.Advance loop scope (Text.bytes text) entered [] { result, args, target, supply } []
        ls stmts ∧
      (∀ x ∈ entered, x ∈ p.blockLeaders) ∧ entered.length ≤ loop.arms.length ∧
      ls.outcome = none ∧ Untouched { result := none, args, target, supply } ls ∧
      r.Answers (t.get? text) body ∧ lowerOperations p ids next {} body = .ok stmts := by
  obtain ⟨s, hs⟩ : ∃ s : HookDispatch.Run σ, { temps := #[], result, args, target, supply } = s :=
    ⟨_, rfl⟩
  have hpc : s.pc = 0 := by
    rw [← hs]
  have hopen : s.outcome = none := by
    rw [← hs]
  obtain ⟨s', ⟨done, hclimb, hscans⟩, -, body, hanswers, hholds⟩ :=
    L.arrives ht #[] text hpc hopen fun _ => hsize
  have hclear : p.operations[s.pc]? = some .clearResult := hpc ▸ L.laid.1.1
  have hkinds : ∀ e ∈ [(Operation.clearResult, s)] ++ done,
      e.1.scans = true ∨ e.1 = .clearResult := by
    intro e he
    rcases List.mem_append.mp he with he | he
    · rw [List.mem_singleton.mp he]
      exact Or.inr rfl
    · exact Or.inl (hscans e he)
  have hstart : Mirrors s ({ result, args, target, supply } : Run σ) := by
    rw [← hs]
    exact ⟨rfl, rfl, rfl, rfl, rfl, rfl, rfl, rfl, rfl⟩
  have hzero : s.pc ∈ p.blockLeaders := by
    rw [hpc]
    exact Program.mem_leaders.mpr ⟨Nat.lt_of_lt_of_le (by omega) L.five_le_size, Or.inl rfl⟩
  obtain ⟨entered, ls, stmts, hadvance, hleaders, hlength, hmirrors, hlowered⟩ :=
    exists_arms hloop ((HookDispatch.Run.climb_plain hopen hclear rfl).trans hclimb) hkinds
      (hanswers.lt_size hholds) hzero scope hstart hpc.symm
  obtain ⟨next, hlower⟩ := hlowered.of_answers L hsize hanswers hholds
  have heffects := hclimb.effects hscans
  rw [← hs] at heffects
  refine ⟨entered, ls, stmts, next, body, hadvance, hleaders, hlength, hmirrors.running, ?_,
    hanswers, hlower⟩
  exact ⟨hmirrors.result_eq.trans (HookDispatch.Run.result_eq heffects),
    hmirrors.args_eq.trans (HookDispatch.Run.args_eq heffects),
    hmirrors.target_eq.trans (HookDispatch.Run.target_eq heffects),
    hmirrors.supply_eq.trans (HookDispatch.Run.supply_eq heffects)⟩

/-- What a loop does for a name, given the hook that the trie has for it: it calls nothing and says
that the name was not handled, or that an argument cannot be read, or it calls the method of the
hook and takes over what this leaves. -/
inductive Dispatched (r : Registry) (ids : Identifiers) (scope : Scope σ)
    (start : Run σ) : Option MethodId → List (String × List Datum) → Run σ → Prop
  | unknown {s : Run σ} (houtcome : s.outcome = some (.ok false)) (huntouched : Untouched start s) :
      Dispatched r ids scope start none [] s
  | refused {s : Run σ} {hook : MethodId} {key : Signature} {m : Method} {n : Nat}
      {e : MarshalError} (hhook : r.get? hook = some (key, m))
      (hfaults : m.Faults scope.kinds start.args n e) (hrefused : Refused e start s) :
      Dispatched r ids scope start (some hook) [] s
  | served {s : Run σ} {hook : MethodId} {key : Signature} {m : Method} {ident : String}
      {data : List Datum} (hhook : r.get? hook = some (key, m))
      (hident : ids.lookup m.name = some ident) (hreads : m.Reads scope.kinds start.args data)
      (hserved : Served m data (scope.methods ident start.target data) start s) :
      Dispatched r ids scope start (some hook) [(ident, data)] s

theorem Dispatched.ended {scope : Scope σ} {start s : Run σ}
    {found : Option MethodId} {called : List (String × List Datum)}
    (h : Dispatched r ids scope start found called s) : s.outcome.isSome := by
  cases h with
  | unknown houtcome _ => rw [houtcome]; rfl
  | refused _ _ hrefused => rw [hrefused.outcome_eq]; rfl
  | served _ _ _ hserved => rw [hserved.outcome_eq]; rfl

variable (loop) in
/-- A loop does the statements that answer a name. -/
theorem exists_answer (hhooks : p.hooks = r.entries)
    (hcount : ∀ entry ∈ r.entries, entry.2.borrowCount ≤ UInt16.size)
    (scope : Scope σ) (name : List UInt8) {found : Option MethodId}
    {body : List Operation} (hanswers : r.Answers found body) {next : Nat} {stmts : List Stmt}
    (hlower : lowerOperations p ids next {} body = .ok stmts) {start ls : Run σ}
    (hopen : ls.outcome = none) (huntouched : Untouched start ls) (hresult : start.result = none) :
    ∃ called s rest, Run.Advance loop scope name [] called ls stmts s rest ∧
      Dispatched r ids scope start found called s := by
  cases hanswers with
  | reject =>
    cases hlower
    exact ⟨[], _, [], .single hopen rfl, .unknown rfl ⟨huntouched.result_eq, huntouched.args_eq,
      huntouched.target_eq, huntouched.supply_eq⟩⟩
  | @call hook key m hcalls =>
    have hhook : p.hook? hook = some (key, m) := by
      rw [Program.hook?, hhooks]
      exact hcalls.get?_eq
    have hm : m.borrowCount ≤ UInt16.size :=
      hcount (key, m) (List.mem_of_getElem? hcalls.get?_eq)
    obtain ⟨ident, hident⟩ := exists_ident hhook hlower
    rw [Method.callSequence_eq] at hlower
    obtain ⟨s, rest, hread, ⟨n, e, hfaults, hrefused⟩ | ⟨data, operands, hbound, hlower⟩⟩ :=
      bound_of_params (bound_zero m hopen) hm (Nat.zero_add _) hlower
    · rw [huntouched.args_eq] at hfaults
      exact ⟨[], s, rest, hread, .refused hcalls.get?_eq hfaults
        ⟨huntouched.trans hrefused.toUntouched, hrefused.outcome_eq⟩⟩
    · have hreads := hbound.reads_all
      rw [huntouched.args_eq] at hreads
      obtain ⟨s', hcall, hserved⟩ := hbound.advance_call hm hcalls.resolved
        (huntouched.result_eq.trans hresult) hhook hlower hident
      rw [huntouched.target_eq] at hserved
      exact ⟨_, s', [], hread.trans hcall, .served hcalls.get?_eq hident hreads
        (hserved.since huntouched.args_eq huntouched.supply_eq)⟩

/-- A loop enters arms that it has, does what the trie says of the name, and ends. -/
theorem exists_dispatched {typeName : String} (ht : t.Reachable)
    (hcompile : (t.compile r collapse typeName).2.value = .ok p) (hsize : p.size ≤ UInt32.size)
    (hcount : ∀ entry ∈ r.entries, entry.2.borrowCount ≤ UInt16.size)
    (hloop : ofProgram p ids = .ok loop) (scope : Scope σ) (target : σ)
    (supply : Supply) (name : Option String) (result : Option Object) (args : Array Object) :
    (∀ state ∈ loop.states scope target supply name result args, state ∈ p.blockLeaders) ∧
      Dispatched r ids scope { result := none, args, target, supply } (t.get? (name.getD ""))
        (loop.called scope target supply name result args)
        (loop.call scope.methods target supply name result args scope.kinds) := by
  obtain ⟨L⟩ := Trie.exists_layout ht.sound hcompile
  obtain ⟨entered, ls, stmts, next, body, hadvance, hleaders, hlength, hopen, huntouched, hanswers,
    hlower⟩ := exists_arrival hloop L ht.sound hsize scope target supply (name.getD "") result
      args
  obtain ⟨called, s, rest, hrest, hdispatched⟩ := exists_answer loop L.hooks hcount scope
    (Text.bytes (name.getD "")) hanswers hlower hopen huntouched rfl
  have hwhole := hadvance.trans hrest
  rw [List.append_nil, List.nil_append] at hwhole
  obtain ⟨hcall, hstates, hcalled⟩ := hwhole.whole hdispatched.ended (Nat.le_succ_of_le hlength)
  rw [states, DispatchLoop.called, call, hcall, hstates, hcalled]
  exact ⟨hleaders, hdispatched⟩

end DispatchLoop

/-- The loop of a compiled program dispatches by name. It enters only arms that it has and ends, and
it does what the trie says of the name. Labels have 32 bits and numbers of temporaries have 16, so a
program has no more operations, and a hook no more borrowing parameters, than there are of these. -/
theorem loop_dispatches {t : Trie} {r : Registry} {collapse : Bool} {typeName : String}
    {p : Program} {ids : Identifiers} {loop : DispatchLoop} (ht : t.Reachable)
    (hcompile : (t.compile r collapse typeName).2.value = .ok p) (hsize : p.size ≤ UInt32.size)
    (hcount : ∀ entry ∈ r.entries, entry.2.borrowCount ≤ UInt16.size)
    (hloop : DispatchLoop.ofProgram p ids = .ok loop) {σ : Type} (scope : DispatchLoop.Scope σ)
    (target : σ) (supply : Supply) (name : Option String) (result : Option Object)
    (args : Array Object) :
    (∀ state ∈ loop.states scope target supply name result args,
      state ∈ p.blockLeaders ∧ (loop.body? state).isSome) ∧
    (loop.call scope.methods target supply name result args scope.kinds).outcome.isSome ∧
    DispatchLoop.Dispatched r ids scope { result := none, args, target, supply }
      (t.get? (name.getD "")) (loop.called scope target supply name result args)
      (loop.call scope.methods target supply name result args scope.kinds) := by
  obtain ⟨hleaders, hdispatched⟩ := DispatchLoop.exists_dispatched ht hcompile hsize hcount hloop
    scope target supply name result args
  refine ⟨fun state hstate => ⟨hleaders state hstate, ?_⟩, hdispatched.ended, hdispatched⟩
  obtain ⟨arm, harm, -⟩ := DispatchLoop.body?_of_mem hloop (hleaders state hstate)
  rw [harm]
  rfl

namespace Specimen

theorem pair_reads : pair.Reads .ofType #[⟨0, .i32 1⟩, ⟨1, .i32 2⟩]
    [.plain (.i32 1), .plain (.i32 2)] where
  length_eq := rfl
  accepted := by
    rintro (_ | _ | i) p hp
    · cases hp
      exact ⟨_, rfl, Or.inr (by decide +kernel), by decide +kernel⟩
    · cases hp
      exact ⟨_, rfl, Or.inr (by decide +kernel), by decide +kernel⟩
    · cases hp

end Specimen

/-- A hook with two numbers is called with them. The number that it returns and the one that it left
in its first parameter are new objects, and the second argument is the object that it was. -/
theorem loop_specimen :
    ∃ p loop, (Specimen.pairTrie.compile Specimen.pairRegistry true "T").2.value = .ok p ∧
      DispatchLoop.ofProgram p [("p", "p")] = .ok loop ∧
      loop.called ⟨Specimen.countingMethods, .ofType⟩ 0 2 (some "p(&mut i32, i32)") none
        #[⟨0, .i32 1⟩, ⟨1, .i32 2⟩] = [("p", [.plain (.i32 1), .plain (.i32 2)])] ∧
      ∃ s, loop.call Specimen.countingMethods 0 2 (some "p(&mut i32, i32)") none
          #[⟨0, .i32 1⟩, ⟨1, .i32 2⟩] = s ∧
        s.outcome = some (.ok true) ∧ s.target = 1 ∧
        (∃ o, s.result = some o ∧ o.value = .i32 5 ∧ 2 ≤ o.id) ∧
        (∃ o, s.args[0]? = some o ∧ o.value = .i32 7 ∧ 2 ≤ o.id) ∧
        s.args[1]? = some ⟨1, .i32 2⟩ := by
  obtain ⟨p, loop, hp, hsize, hloop⟩ := Specimen.exists_pairLoop
  have ht := Trie.reachable_ofRegistry Specimen.pairTrie_eq
  have hfound : Specimen.pairTrie.get? "p(&mut i32, i32)" = some ⟨0⟩ := by decide
  obtain ⟨-, -, hdispatched⟩ := loop_dispatches ht hp hsize (by decide) hloop
    ⟨Specimen.countingMethods, .ofType⟩ 0 2 (some "p(&mut i32, i32)") none
    #[⟨0, .i32 1⟩, ⟨1, .i32 2⟩]
  refine ⟨p, loop, hp, hloop, ?_⟩
  rw [show (some "p(&mut i32, i32)").getD "" = "p(&mut i32, i32)" from rfl, hfound] at hdispatched
  generalize loop.called _ _ _ _ _ _ = called at hdispatched ⊢
  generalize loop.call _ _ _ _ _ _ _ = s at hdispatched ⊢
  have hentry : Specimen.pairRegistry.get? ⟨0⟩ = some (⟨"p(&mut i32, i32)"⟩, Specimen.pair) := rfl
  cases hdispatched with
  | @refused s hook key m n e hhook hfaults _ =>
    cases hentry.symm.trans hhook
    exact absurd hfaults (Specimen.pair_reads.not_faults n e)
  | @served s hook key m ident data hhook hident hreads hserved =>
    cases hentry.symm.trans hhook
    cases hident
    obtain rfl := hreads.unique Specimen.pair_reads
    obtain ⟨mark, hmono, hlo, -, hleaves, hstored⟩ := hserved.stored
    refine ⟨rfl, s, rfl, hserved.outcome_eq, hserved.target_eq, ?_, ?_, hserved.kept 1 rfl⟩
    · generalize s.result = result at hleaves ⊢
      cases hleaves with
      | value hbecomes =>
        cases hbecomes with
        | plain hvalue hlo hhi => exact ⟨_, rfl, hvalue, hlo⟩
    · obtain ⟨o, ho, hbecomes⟩ := hstored 0 rfl
      cases hbecomes with
      | plain hvalue hlo' hhi => exact ⟨o, ho, hvalue, Nat.le_trans hlo hlo'⟩

end HookDispatch
