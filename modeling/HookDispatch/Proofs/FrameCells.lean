import HookDispatch.Proofs.CallEffect
import HookDispatch.Proofs.Machine.Faithful

/-!
The frame of a call as its invoker sees it. Whatever a body asks of the frame, and in whatever
order, each answer is the one that separate cells would give, one for each parameter, which hold
the arguments at first and then what was written last. The argument array is not touched as long as
the invoker has not succeeded.
-/
namespace HookDispatch

/-- Something that a body asked for, with the answer. A value is written back by two exchanges: it
is boxed, and then the object is written. -/
inductive Exchange where
  | size (answer : Nat)
  | arg (n : Nat) (kind : Kind) (answer : Except MarshalError Value)
  | object (n : Nat) (answer : Except MarshalError Object)
  | write (n : Nat) (o : Object) (answer : Except MarshalError Unit)
  | box (v : Value) (answer : Object)

namespace Exchange

def writesAfter (writes : List (Nat × Object)) : Exchange → List (Nat × Object)
  | .size _ | .arg .. | .object .. | .box .. | .write _ _ (.error _) => writes
  | .write n o (.ok ()) => writes ++ [(n, o)]

def supplyAfter (supply : Supply) : Exchange → Supply
  | .box _ o => o.id + 1
  | .size _ | .arg .. | .object .. | .write .. => supply

/-- What parameter `n` of a call with the arguments holds after the writes. -/
def cell? (m : Method) (args : Array Object) (writes : List (Nat × Object)) (n : Nat) :
    Option Object :=
  if n < m.params.length then (lastWritten writes n).or args[n]? else none

/-- The answer is that of separate cells after the writes. A parameter is read at its own index,
and is written only if it is mutably borrowed. A boxed object has the value, and an identity that
is new. -/
def Expected (m : Method) (args : Array Object) (writes : List (Nat × Object)) (supply : Supply) :
    Exchange → Prop
  | .size answer => answer = m.params.length
  | .arg n kind answer => answer =
    match cell? m args writes n with
    | some o =>
      if o.value.kind = kind then .ok o.value else .error (.argumentType n kind.typeName)
    | none => .error (.missingArgument n m.params.length)
  | .object n answer => answer =
    match cell? m args writes n with
    | some o => .ok o
    | none => .error (.missingArgument n m.params.length)
  | .write n _ answer => answer =
    if m.isMutable n then .ok ()
    else if n < m.params.length then .error (.notByRef n)
    else .error (.missingArgument n m.params.length)
  | .box v answer => answer.value = v ∧ supply ≤ answer.id

/-- Every answer is the expected one after what was written and boxed before it. -/
def AllExpected (m : Method) (args : Array Object) :
    List (Nat × Object) → Supply → List Exchange → Prop
  | _, _, [] => True
  | writes, supply, x :: xs =>
    x.Expected m args writes supply ∧
      AllExpected m args (x.writesAfter writes) (x.supplyAfter supply) xs

end Exchange

def Body.dialogue {σ : Type} (frame : Frame) (supply : Supply) : Body σ → List Exchange
  | done .. => []
  | size next => .size frame.size :: (next frame.size).dialogue frame supply
  | arg n kind next =>
    .arg n kind (frame.arg n kind) :: (next (frame.arg n kind)).dialogue frame supply
  | object n next => .object n (frame.object n) :: (next (frame.object n)).dialogue frame supply
  | write n o next =>
    match frame.write n o with
    | .ok written => .write n o (.ok ()) :: (next (.ok ())).dialogue written supply
    | .error e => .write n o (.error e) :: (next (.error e)).dialogue frame supply
  | box v next =>
    .box v (supply.box v).1 :: (next (supply.box v).1).dialogue frame (supply.box v).2

theorem lastWritten_append_singleton (writes : List (Nat × Object)) (k : Nat) (o : Object)
    (n : Nat) :
    lastWritten (writes ++ [(k, o)]) n = if n = k then some o else lastWritten writes n := by
  rw [lastWritten, List.reverse_append, List.reverse_singleton, List.singleton_append]
  by_cases hn : n = k
  · rw [List.find?_cons_of_pos (by simp [hn]), if_pos hn]
    rfl
  · rw [List.find?_cons_of_neg (by simpa using Ne.symm hn), if_neg hn]
    rfl

namespace Frame

variable {m : Method} {args : Array Object} {writes : List (Nat × Object)} {supply : Supply}
  {f f' : Frame} {n : Nat} {o : Object}

/-- The frame holds the arguments, or what was written last. -/
def Shows (m : Method) (args : Array Object) (writes : List (Nat × Object)) (f : Frame) : Prop :=
  f.Cells m fun n => (lastWritten writes n).getD (Run.cellOf args n)

theorem cell?_eq_some {p : Parameter} (hsize : m.params.length ≤ args.size)
    (hp : m.params[n]? = some p) (writes : List (Nat × Object)) :
    Exchange.cell? m args writes n = some ((lastWritten writes n).getD (Run.cellOf args n)) := by
  rw [Exchange.cell?, if_pos (List.getElem?_eq_some_iff.mp hp).1, Run.getElem?_cellOf hsize n p hp]
  cases lastWritten writes n <;> rfl

theorem cell?_eq_none (hp : m.params[n]? = none) :
    Exchange.cell? m args writes n = none := by
  rw [Exchange.cell?, if_neg (Nat.not_lt.mpr (List.getElem?_eq_none_iff.mp hp))]

theorem Shows.missing_eq (h : f.Shows m args writes) (n : Nat) :
    f.missing n = .missingArgument n m.params.length := by
  rw [missing, h.size_eq]

theorem Shows.operand_eq_none (h : f.Shows m args writes) (hp : m.params[n]? = none) :
    f.operands[n]? = none := by
  rw [h.operand_eq, Method.operand?, hp]
  rfl

theorem Shows.expected_object (h : f.Shows m args writes) (hsize : m.params.length ≤ args.size) :
    (Exchange.object n (f.object n)).Expected m args writes supply := by
  rw [Exchange.Expected]
  cases hp : m.params[n]? with
  | none => rw [cell?_eq_none hp, object, h.operand_eq_none hp, h.missing_eq]
  | some p => rw [cell?_eq_some hsize hp, h.object_eq hp]

theorem Shows.expected_arg (h : f.Shows m args writes) (hsize : m.params.length ≤ args.size)
    (kind : Kind) : (Exchange.arg n kind (f.arg n kind)).Expected m args writes supply := by
  rw [Exchange.Expected]
  cases hp : m.params[n]? with
  | none => rw [cell?_eq_none hp, arg, h.operand_eq_none hp, h.missing_eq]
  | some p =>
    rw [cell?_eq_some hsize hp, h.arg_eq hp]
    rfl

theorem Shows.write (h : f.Shows m args writes) (hcount : m.borrowCount ≤ UInt16.size)
    (hwrite : f.write n o = .ok f') : f'.Shows m args (writes ++ [(n, o)]) := by
  have hcells := (Cells.write h hcount hwrite).2
  have hlast : (fun k => (lastWritten (writes ++ [(n, o)]) k).getD (Run.cellOf args k)) =
      fun k => if k = n then o else (lastWritten writes k).getD (Run.cellOf args k) := by
    funext k
    rw [lastWritten_append_singleton]
    split <;> rfl
  rw [Shows, hlast]
  exact hcells

theorem Shows.write_error (h : f.Shows m args writes) (hmutable : m.isMutable n = false)
    (o : Object) : f.write n o = .error
      (if n < m.params.length then .notByRef n else .missingArgument n m.params.length) := by
  cases hp : m.params[n]? with
  | none =>
    rw [Frame.write, h.operand_eq_none hp, h.missing_eq,
      if_neg (Nat.not_lt.mpr (List.getElem?_eq_none_iff.mp hp))]
  | some p =>
    rw [Method.isMutable_eq hp] at hmutable
    rw [Frame.write, h.operand_eq, Method.operand?, hp, Option.map_some, hmutable,
      if_pos (List.getElem?_eq_some_iff.mp hp).1]
    cases p.isBorrowing <;> rfl

theorem args_write (h : f.write n o = .ok f') : f'.args = f.args := by
  rw [write] at h
  split at h
  · cases h
  · split at h
    · cases h
    · cases h
      rfl
  · cases h

end Frame

namespace Body

variable {σ : Type} {m : Method} {args : Array Object} {frame : Frame}

/-- A body finds in its frame what separate cells would show it. -/
theorem allExpected_dialogue (body : Body σ) {writes : List (Nat × Object)} (supply : Supply)
    (h : frame.Shows m args writes) (hcount : m.borrowCount ≤ UInt16.size)
    (hsize : m.params.length ≤ args.size) :
    Exchange.AllExpected m args writes supply (body.dialogue frame supply) := by
  induction body generalizing writes frame supply with
  | done state result => trivial
  | size next ih => exact ⟨h.size_eq, ih frame.size supply h⟩
  | arg n kind next ih => exact ⟨h.expected_arg hsize kind, ih (frame.arg n kind) supply h⟩
  | object n next ih => exact ⟨h.expected_object hsize, ih (frame.object n) supply h⟩
  | write n o next ih =>
    rw [dialogue]
    cases hmutable : m.isMutable n with
    | true =>
      obtain ⟨written, hwrite⟩ := Frame.Cells.exists_write h hmutable o
      rw [hwrite]
      refine ⟨?_, ih (.ok ()) supply (h.write hcount hwrite)⟩
      rw [Exchange.Expected, hmutable, if_pos rfl]
    | false =>
      rw [h.write_error hmutable o]
      refine ⟨?_, ih _ supply h⟩
      rw [Exchange.Expected, hmutable, if_neg Bool.false_ne_true]
      split <;> rfl
  | box v next ih =>
    have hboxed : supply ≤ (supply.box v).1.id := Nat.le_of_eq (supply.id_box v).symm
    exact ⟨⟨supply.value_box v, hboxed⟩, ih (supply.box v).1 (supply.box v).2 h⟩

/-- No body reaches the argument array. -/
theorem args_run (body : Body σ) (frame : Frame) (supply : Supply) :
    (body.run frame supply).frame.args = frame.args := by
  induction body generalizing frame supply with
  | done state result => rfl
  | size next ih => exact ih frame.size frame supply
  | arg n kind next ih => exact ih (frame.arg n kind) frame supply
  | object n next ih => exact ih (frame.object n) frame supply
  | write n o next ih =>
    rw [run]
    cases hwrite : frame.write n o with
    | error e => exact ih (.error e) frame supply
    | ok written => exact (ih (.ok ()) written supply).trans (Frame.args_write hwrite)
  | box v next ih => exact ih (supply.box v).1 frame (supply.box v).2

end Body

namespace Run

variable {σ : Type} {m : Method} {hook : MethodId} {ops : Array Operation}
  {invokers : Array (Invoker σ)} {name : List UInt8} {s : Run σ}

/-- Only storing an argument changes the argument array. -/
theorem args_exec {op : Operation} (h : ∀ index temp type, op ≠ .storeArg index temp type)
    (s : Run σ) : (exec invokers name s op).args = s.args := by
  cases op with
  | storeArg index temp type => exact absurd rfl (h index temp type)
  | _ =>
    simp only [exec, compareName, fillTemp, callHook, fail]
    repeat' split
    all_goals rfl

theorem args_of_trace {n : Nat} {before after : List (Operation × Run σ)} {last : Operation × Run σ}
    (h : trace ops invokers name n s = before ++ last :: after)
    (hkeep : ∀ e ∈ before, ∀ index temp type, e.1 ≠ .storeArg index temp type) :
    (∀ e ∈ before, e.2.args = s.args) ∧ last.2.args = s.args := by
  induction n generalizing s before with
  | zero => exact absurd h.symm (List.append_ne_nil_of_right_ne_nil _ (List.cons_ne_nil _ _))
  | succ n ih =>
    rw [trace] at h
    split at h
    · exact absurd h.symm (List.append_ne_nil_of_right_ne_nil _ (List.cons_ne_nil _ _))
    · split at h
      · exact absurd h.symm (List.append_ne_nil_of_right_ne_nil _ (List.cons_ne_nil _ _))
      · rename_i op hop
        cases before with
        | nil =>
          obtain ⟨rfl, -⟩ := List.cons.inj h
          exact ⟨fun e he => absurd he List.not_mem_nil, rfl⟩
        | cons first before =>
          obtain ⟨rfl, hrest⟩ := List.cons.inj h
          have hfirst : (s.step ops invokers name).args = s.args := by
            rw [step_eq hop]
            exact args_exec (hkeep _ List.mem_cons_self) s.tick
          obtain ⟨hbefore, hlast⟩ := ih hrest fun e he => hkeep e (List.mem_cons_of_mem _ he)
          rw [hfirst] at hbefore hlast
          exact ⟨List.forall_mem_cons.mpr ⟨rfl, hbefore⟩, hlast⟩

end Run

theorem Method.storeArg_not_mem_unpackFrom (i temp : Nat) (ps : List Parameter) {index : Nat}
    {t : TempId} {type : TypeName} : .storeArg index t type ∉ unpackFrom i temp ps := by
  induction ps generalizing i temp with
  | nil => exact List.not_mem_nil
  | cons p ps ih =>
    rw [unpackFrom]
    split
    · simpa using ih (i + 1) (temp + 1)
    · simpa using ih (i + 1) temp

/-- The frame of every hook that is called with arguments for all its parameters answers any body
like separate cells, one for each parameter. The array keeps its arguments up to the call and while
it lasts, and for good if the invoker fails. -/
theorem frame_cells {t : Trie} {r : Registry} {collapse : Bool} {typeName : String} {p : Program}
    {σ : Type} {table : HookTable σ} {d : Dispatcher σ} {hook : MethodId} {key : Signature}
    {m : Method} (ht : t.Reachable) (hcompile : (t.compile r collapse typeName).2.value = .ok p)
    (hd : Dispatcher.ofProgram p table = .ok d) (name : Option String)
    (hfound : t.get? (name.getD "") = some hook) (hentry : r.get? hook = some (key, m))
    (hcount : m.borrowCount ≤ UInt16.size) (target : σ) (supply : Supply) (result : Option Object)
    (args : Array Object) (hsize : m.params.length ≤ args.size) :
    ∃ invoker before s after, table.get? key = some invoker ∧
      d.trace target supply name result args = before ++ (.call hook, s) :: after ∧
      Run.calls (before ++ after) = [] ∧
      (∀ (body : Body σ) (supply : Supply),
        Exchange.AllExpected m args [] supply (body.dialogue s.frame supply) ∧
          (body.run s.frame supply).frame.args = args) ∧
      (∀ e ∈ before, e.2.args = args) ∧ s.args = args ∧
      ∀ e, ((invoker s.target).run s.frame s.supply).result = .error e →
        after = [] ∧ (d.call target supply name result args).args = args := by
  obtain ⟨L⟩ := Trie.exists_layout ht.sound hcompile
  obtain ⟨invoker, tests, s, hbound, hinvoker, hret, hidle, hpoised, hcall, htrace⟩ :=
    Dispatcher.exists_poised L ht.sound hd hfound hentry target supply result args
  have hargs : s.args = args := hpoised.args_eq
  have hunpacked := (Run.unpacked_all d.invokers (Text.bytes (name.getD "")) hpoised.running
    hpoised.operands_eq hpoised.room).1 (hargs ▸ hsize)
  rw [Method.callSequence_eq, Run.straight_append] at hcall
  rw [Method.callSequence_eq, Run.along_append] at htrace
  obtain ⟨u, hu⟩ : ∃ u, Run.straight d.invokers (Text.bytes (name.getD ""))
    (Method.unpackFrom 0 0 m.params) s = u := ⟨_, rfl⟩
  rw [hu] at hunpacked hcall htrace
  rw [Run.straight_cons hunpacked.running] at hcall
  rw [Run.along_cons hunpacked.running, ← List.append_assoc] at htrace
  have hcells : u.frame.Shows m args [] := hargs ▸ hunpacked.cells hcount (hargs ▸ hsize)
  have hkeep : ∀ e ∈ tests ++ Run.along d.invokers (Text.bytes (name.getD ""))
      (Method.unpackFrom 0 0 m.params) s, ∀ index temp type, e.1 ≠ .storeArg index temp type := by
    intro e he index temp type hstore
    rcases List.mem_append.mp he with htest | hunpack
    · have := hidle e htest
      rw [hstore] at this
      cases this
    · have hmem := (Run.map_along _ s).subset (List.mem_map_of_mem hunpack)
      rw [hstore] at hmem
      exact Method.storeArg_not_mem_unpackFrom 0 0 m.params hmem
  obtain ⟨hbefore, hsame⟩ := Run.args_of_trace htrace hkeep
  refine ⟨invoker, _, u, _, hbound, htrace, ?_, fun body supply => ⟨?_, ?_⟩, hbefore, hsame, ?_⟩
  · rw [Run.calls_append, Run.calls_append, Run.calls_of_idle hidle,
      Run.calls_along fun hook => Method.call_not_mem_unpackFrom 0 0 m.params,
      Run.calls_along m.call_not_mem_afterCall]
    rfl
  · exact body.allExpected_dialogue supply hcells hcount hsize
  · exact (body.args_run u.frame supply).trans hsame
  · intro e he
    have hfailed := Run.exec_call_error (Text.bytes (name.getD "")) hinvoker he
    rw [hfailed, Run.straight_of_ended rfl] at hcall
    rw [hfailed, Run.along_of_ended rfl, hcall]
    exact ⟨rfl, hsame⟩

namespace Specimen

/-- A body that writes to its parameter twice, and once to one that does not exist. -/
def insistent : Body Nat :=
  .writeBack 0 (.i32 2) fun _ => .write 1 ⟨8, .i32 3⟩ fun _ => .writeBack 0 (.i32 4) fun _ =>
    .object 0 fun _ => .arg 0 .string fun _ => .ofResult 0 none

end Specimen

/-- The parameter of the second hook can be written, and has the wrong type for a string. -/
theorem frame_cells_specimen :
    ∃ p d, (Specimen.trie.compile Specimen.registry false "T").2.value = .ok p ∧
      Dispatcher.ofProgram p (.ofBindings Specimen.bindings) = .ok d ∧
      ∃ before s after,
        d.trace 0 0 (some "ab") none #[⟨3, .i32 1⟩] = before ++ (.call ⟨1⟩, s) :: after ∧
        Exchange.AllExpected Specimen.second #[⟨3, .i32 1⟩] [] 20
          (Specimen.insistent.dialogue s.frame 20) := by
  obtain ⟨p, d, hp, hd⟩ := Specimen.exists_dispatcher false
  have ht : Specimen.trie.Reachable := Trie.reachable_ofRegistry Specimen.trie_eq
  have hentry : Specimen.registry.get? ⟨1⟩ = some (⟨"ab(i32)"⟩, Specimen.second) := rfl
  obtain ⟨invoker, before, s, after, -, htrace, -, hcells, -⟩ := frame_cells ht hp hd (some "ab")
    (by decide) hentry (by decide) 0 0 none #[⟨3, .i32 1⟩] (by decide)
  exact ⟨p, d, hp, hd, before, s, after, htrace, (hcells Specimen.insistent 20).1⟩

end HookDispatch
