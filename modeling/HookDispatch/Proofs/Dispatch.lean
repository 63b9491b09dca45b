import HookDispatch.Proofs.CallEffect
import HookDispatch.Proofs.Trie.Hooks

/-!
Dispatching by name. The program of a registry enters the call of a hook exactly for the texts that
the registry lists with that hook, and with all arguments at hand the call runs the hook's invoker
once. Every other name is rejected without any effect but an empty result. Positions in a program
have 32 bits, of which the largest value is taken, so programs are smaller than that.
-/
namespace HookDispatch

namespace Run

variable {σ : Type}

/-- The call of a hook is entered: after operations that handle no arguments come operations from
the start of its call sequence, at a place where the program has all of it. -/
def Enters (ops : Array Operation) (done : List (Operation × Run σ)) (hook : MethodId)
    (m : Method) : Prop :=
  ∃ tests op s rest, done = tests ++ (op, s) :: rest ∧ (∀ e ∈ tests, e.1.marshals = false) ∧
    Holds ops s.pc (m.callSequence hook) ∧ op :: rest.map Prod.fst <+: m.callSequence hook

/-- A name is not handled: nothing is called, and only the result is changed. -/
structure Rejects (s : Run σ) (done : List (Operation × Run σ)) (target : σ) (supply : Supply)
    (args : Array Object) : Prop where
  idle : ∀ e ∈ done, e.1.marshals = false
  answer_eq : s.answer = .ok false
  result_eq : s.result = none
  args_eq : s.args = args
  target_eq : s.target = target
  supply_eq : s.supply = supply

theorem rejects_of_idle {tests : List (Operation × Run σ)} {invokers : Array (Invoker σ)}
    {name : List UInt8} {s start : Run σ} (hidle : ∀ e ∈ tests, e.1.marshals = false)
    (h : s.effects = start.effects) (hrunning : start.outcome = none)
    (hempty : start.result = none) :
    Rejects (straight invokers name rejection s) (tests ++ along invokers name rejection s)
      start.target start.supply start.args := by
  have hopen : s.outcome = none := (outcome_eq h).trans hrunning
  have hstraight : straight invokers name rejection s =
      { s with
        pc := s.pc + 2
        handled := false
        stats := { s.stats with steps := s.stats.steps + 2 }
        outcome := some (.ok false) } := by
    simp only [rejection, straight, hopen, exec, tick, Option.isSome_none, Bool.false_eq_true,
      if_false]
  have hresult := (result_eq h).trans hempty
  have hargs := args_eq h
  have htarget := target_eq h
  have hsupply := supply_eq h
  rw [hstraight]
  refine ⟨?_, rfl, hresult, hargs, htarget, hsupply⟩
  intro e hmem
  rcases List.mem_append.mp hmem with hmem | hmem
  · exact hidle e hmem
  · have hop := (map_along rejection s).subset (List.mem_map_of_mem hmem)
    simp only [rejection, List.mem_cons, List.not_mem_nil, or_false] at hop
    rcases hop with hop | hop <;> rw [hop] <;> rfl

end Run

/-- A hook that a trie has is one that its program can call. -/
theorem Layout.exists_calls {t : Trie} {r : Registry} {collapse : Bool} {p : Program}
    (L : Layout t r collapse p) (ht : t.Sound) {s : String} {hook : MethodId}
    (hfound : t.get? s = some hook) : ∃ key m, r.Calls hook key m := by
  obtain ⟨_, _, body, -, -, -, hanswers, -⟩ := (⟨p, #[]⟩ : Dispatcher Unit).answered L ht () 0
    (some s) none #[] fun hnone => by cases hfound.symm.trans hnone
  rw [Option.getD_some, hfound] at hanswers
  cases hanswers with
  | call hcalls => exact ⟨_, _, hcalls⟩

namespace Dispatcher

variable {σ : Type} {t : Trie} {r : Registry} {collapse : Bool} {name : Option String}

/-- A run enters the call of the hook that the trie has for the name. -/
theorem enters (d : Dispatcher σ) (L : Layout t r collapse d.program) (ht : t.Sound)
    {hook : MethodId} {key : Signature} {m : Method} (hfound : t.get? (name.getD "") = some hook)
    (hentry : r.get? hook = some (key, m)) (target : σ) (supply : Supply) (result : Option Object)
    (args : Array Object) :
    Run.Enters d.program.operations (d.trace target supply name result args) hook m := by
  obtain ⟨-, tests, s, hidle, hpoised, hholds, -, htrace⟩ :=
    d.poised L ht hfound hentry target supply result args
  obtain ⟨op, seg, hseg, -⟩ := m.callSequence_eq_cons hook
  have halong : (Run.along d.invokers (Text.bytes (name.getD "")) (m.callSequence hook) s).map
      Prod.fst <+: m.callSequence hook := Run.map_along _ s
  rw [hseg, Run.along_cons hpoised.running] at halong htrace
  exact ⟨tests, op, s, _, htrace, hidle, hholds, hseg ▸ halong⟩

/-- A name that the trie does not have is rejected. -/
theorem rejects (d : Dispatcher σ) (L : Layout t r collapse d.program) (ht : t.Sound)
    (hsize : d.program.size ≤ UInt32.size) (hnone : t.get? (name.getD "") = none) (target : σ)
    (supply : Supply) (result : Option Object) (args : Array Object) :
    Run.Rejects (d.call target supply name result args) (d.trace target supply name result args)
      target supply args := by
  obtain ⟨tests, s, body, hidle, heffects, -, hanswers, -, hcall, htrace⟩ :=
    d.answered L ht target supply name result args fun _ => hsize
  rw [hnone] at hanswers
  cases hanswers
  rw [hcall, htrace]
  exact Run.rejects_of_idle hidle heffects rfl rfl

end Dispatcher

/-- The program of a registry dispatches by name. A text has a hook exactly if the registry lists
it. Then the run enters the call of that hook and, if no argument is missing, runs the invoker that
was bound last under its key, once; for all other texts nothing is called. -/
theorem dispatch_by_name {r : Registry} {withAliases : Bool} {t : Trie} (collapse : Bool)
    (typeName : String) (hbuilt : Trie.ofRegistry r withAliases = .ok t)
    (hgeneric : ∀ entry ∈ r.entries, entry.2.ret.isGeneric = false)
    (hsize : (t.emit r collapse).length + 1 < UInt32.size) :
    ∃ p, (t.compile r collapse typeName).2.value = .ok p ∧ t.get? "" = none ∧
      ∀ (σ : Type) (bindings : List (Signature × Invoker σ)),
        (∀ key ∈ r.keys, key ∈ bindings.map Prod.fst) →
        ∃ d, Dispatcher.ofProgram p (.ofBindings bindings) = .ok d ∧
          ∀ target supply name result args,
            (∀ hook, t.get? (name.getD "") = some hook ↔
              (name.getD "", hook) ∈ r.trieKeys withAliases) ∧
            (∀ hook, t.get? (name.getD "") = some hook →
              ∃ key m invoker, r.get? hook = some (key, m) ∧
                HookTable.lastBound bindings key = some invoker ∧
                d.invokers[hook.toNat]? = some invoker ∧
                Run.Enters p.operations (d.trace target supply name result args) hook m ∧
                d.Invokes hook m invoker target supply name result args) ∧
            (t.get? (name.getD "") = none →
              Run.Rejects (d.call target supply name result args)
                (d.trace target supply name result args) target supply args) := by
  have hcount : r.size ≤ UInt32.size := by
    have hhooks := Trie.size_le_emit hbuilt collapse
    omega
  have hsound := (Trie.reachable_ofRegistry hbuilt).sound
  obtain ⟨p, hcompile, hp⟩ := Trie.compile_ok hsound
    (Trie.callable_ofRegistry hbuilt hcount hgeneric) collapse typeName (by omega)
  obtain ⟨L⟩ := Trie.exists_layout hsound hcompile
  refine ⟨p, hcompile, ?_, fun σ bindings hbound => ?_⟩
  · rw [Trie.get?_eq, Text.bytes_eq_nil_iff.mpr rfl, Edges.get?_nil_path]
  have hfound : ∀ entry ∈ p.hooks, ((HookTable.ofBindings bindings).get? entry.1).isSome := by
    intro entry hentry
    rw [HookTable.get?_ofBindings]
    rw [L.hooks] at hentry
    exact HookTable.isSome_lastBound (hbound _ (List.mem_map_of_mem hentry))
  obtain ⟨d, hd⟩ := Dispatcher.ofProgram_ok hfound
  have hinvoker : ∀ {hook key m}, r.get? hook = some (key, m) → _ := Dispatcher.exists_bound L hd
  obtain ⟨rfl, -⟩ := Dispatcher.ofProgram_eq_ok hd
  refine ⟨d, hd, fun target supply name result args =>
    ⟨fun hook => Trie.get?_ofRegistry hbuilt, fun hook hfound => ?_, fun hnone =>
      d.rejects L hsound (by omega) hnone target supply result args⟩⟩
  obtain ⟨key, m, hcalls⟩ := L.exists_calls hsound hfound
  obtain ⟨invoker, hlast, hreached⟩ := hinvoker hcalls.get?_eq
  rw [HookTable.get?_ofBindings] at hlast
  exact ⟨key, m, invoker, hcalls.get?_eq, hlast, hreached,
    d.enters L hsound hfound hcalls.get?_eq target supply result args,
    d.invokes L hsound hfound hcalls.get?_eq hreached target supply result args⟩

/-- The alias of the second hook runs its invoker, which counts the call and replaces the argument;
the alias with one more byte is no name. -/
theorem dispatch_specimen :
    ∃ p d, (Specimen.trie.compile Specimen.registry true "T").2.value = .ok p ∧
      Dispatcher.ofProgram p (.ofBindings Specimen.bindings) = .ok d ∧
      Run.Enters p.operations (d.trace 0 7 (some "ab") none #[⟨3, .i32 1⟩]) ⟨1⟩ Specimen.second ∧
      (∃ frame : Frame, Run.calls (d.trace 0 7 (some "ab") none #[⟨3, .i32 1⟩]) = [(⟨1⟩, frame)]) ∧
      (d.call 0 7 (some "ab") none #[⟨3, .i32 1⟩]).target = 1 ∧
      (d.call 0 7 (some "ab") none #[⟨3, .i32 1⟩]).args[0]? = some ⟨7, .i32 5⟩ ∧
      Run.Rejects (d.call 0 7 (some "ab(") none #[])
        (d.trace 0 7 (some "ab(") none #[]) 0 7 #[] := by
  obtain ⟨p, hp, -, hprogram⟩ := dispatch_by_name true "T" Specimen.trie_eq (by decide) (by decide)
  obtain ⟨d, hd, hrun⟩ := hprogram Nat Specimen.bindings (by decide)
  obtain ⟨-, hcall, -⟩ := hrun 0 7 (some "ab") none #[⟨3, .i32 1⟩]
  obtain ⟨-, -, hreject⟩ := hrun 0 7 (some "ab(") none #[]
  obtain ⟨key, m, invoker, hentry, hlast, -, henters, hinvokes⟩ := hcall ⟨1⟩ (by decide)
  cases hentry
  cases hlast
  obtain ⟨frame, -, hcalls, hended, hshown⟩ := hinvokes.called (by decide)
  obtain ⟨hcells, hsettled⟩ := hshown (by decide)
  obtain ⟨written, hwrite⟩ := hcells.exists_write (n := 0) rfl ⟨7, .i32 5⟩
  refine ⟨p, d, hp, hd, henters, ⟨frame, hcalls⟩, ?_, ?_, hreject (by decide)⟩
  · rw [hended.target_eq]
    simp [Body.run, Supply.box, hwrite, Body.ofResult]
  · obtain ⟨-, -, hargs⟩ := hsettled.succeeded (some ⟨7, .i32 5⟩)
      (by simp [Body.run, Supply.box, hwrite, Body.ofResult])
    rw [hargs 0]
    simp only [Body.writes, Supply.box, hwrite, Body.ofResult]
    rfl

end HookDispatch
