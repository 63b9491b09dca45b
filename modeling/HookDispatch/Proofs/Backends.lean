import HookDispatch.Proofs.CallEffect
import HookDispatch.Proofs.Dispatch
import HookDispatch.Proofs.LoopDispatch
import HookDispatch.Proofs.Machine.Faithful
import Mathlib.Data.Option.Basic

/-!
The program and the loop of one trie. If the invokers of a dispatcher call the methods of the loop
faithfully, both do the same for every name and all arguments, up to the identities of objects that
are boxed on the way. There is one exception. The program looks for all arguments before any of them
is unboxed, and the loop unboxes one after the other, so if there are too few arguments and one of
them has not its type, they report different ones of these two failures.
-/
namespace HookDispatch

/-- The same object, or two objects that were boxed with identities from the supply on and have the
same value. -/
def Object.Alike (supply : Supply) (o o' : Object) : Prop :=
  o = o' ∨ supply ≤ o.id ∧ supply ≤ o'.id ∧ o.value = o'.value

theorem Object.rel_refl (supply : Supply) (o : Option Object) :
    Option.Rel (Object.Alike supply) o o := by
  cases o with
  | none => exact .none
  | some o => exact .some (Or.inl rfl)

/-- Two objects that stand for a datum are alike, unless an erased object is boxed once more for one
of them. -/
theorem Datum.Becomes.alike {d : Datum} {boxed : Bool} {supply lo hi lo' hi' : Supply}
    {o o' : Object} (h : d.Becomes lo hi false o) (h' : d.Becomes lo' hi' boxed o')
    (hplain : boxed = true → ∀ inner, d ≠ .erased inner) (hlo : supply ≤ lo)
    (hlo' : supply ≤ lo') : Object.Alike supply o o' := by
  cases h with
  | plain hvalue hid _ =>
    cases h' with
    | plain hvalue' hid' _ =>
      exact Or.inr ⟨Nat.le_trans hlo hid, Nat.le_trans hlo' hid', hvalue.trans hvalue'.symm⟩
  | kept =>
    cases h' with
    | kept => exact Or.inl rfl
    | boxed _ _ _ => exact absurd rfl (hplain rfl _)

/-- What the method of a hook may leave. All parameters are there, an erased object stands only for
a parameter or a result that is erased, and there is a result unless the method returns nothing. -/
structure Reply.Suits {σ : Type} (reply : Reply σ) (m : Method) : Prop where
  length_eq : reply.params.length = m.params.length
  erased : ∀ (i : Nat) (p : Parameter) (o : Object), m.params[i]? = some p →
    reply.params[i]? = some (.erased o) → p.storage.isObject = true
  returned : m.ret.isVoid = false → ∃ d, reply.ret = some d
  plain : ∀ type, m.ret = .value type → ∀ o, reply.ret ≠ some (.erased o)

namespace Method

/-- Argument `n` is there, and has not the type that its parameter is stored as. -/
def Mistyped (m : Method) (kinds : TypeName → Kind) (args : Array Object) (n : Nat) : Prop :=
  ∃ p o, m.params[n]? = some p ∧ args[n]? = some o ∧ ¬ p.Accepts kinds o

/-- There are too few arguments, and one of them has not its type. -/
def FailsTwice (m : Method) (kinds : TypeName → Kind) (args : Array Object) : Prop :=
  args.size < m.params.length ∧ ∃ n, m.Mistyped kinds args n

/-- The first parameter whose argument cannot be passed is the first one whose argument has not its
type, or the first one without an argument. -/
theorem Faults.cases {m : Method} {kinds : TypeName → Kind} {args : Array Object} {n : Nat}
    {e : MarshalError} (h : m.Faults kinds args n e) :
    (args.size < m.params.length ∧ (∀ i, ¬ m.Mistyped kinds args i) ∧
      e = .missingArgument args.size args.size) ∨
    ∃ p, m.params[n]? = some p ∧ m.Mistyped kinds args n ∧
      (∀ i < n, ¬ m.Mistyped kinds args i) ∧
      e = .argumentType n (kinds p.storage).typeName := by
  obtain ⟨p, hp, hrefuses⟩ := h.fault
  have hn := (List.getElem?_eq_some_iff.mp hp).1
  have hbefore : ∀ i < n, i < args.size ∧ ¬ m.Mistyped kinds args i := by
    intro i hi
    obtain ⟨o, ho, haccepts⟩ := h.least i hi _ (List.getElem?_eq_getElem (by omega))
    refine ⟨(Array.getElem?_eq_some_iff.mp ho).1, ?_⟩
    rintro ⟨q, o', hq, ho', hrefused⟩
    cases (List.getElem?_eq_getElem (by omega)).symm.trans hq
    cases ho.symm.trans ho'
    exact hrefused haccepts
  cases hrefuses with
  | mistyped ho hrefused =>
    exact Or.inr ⟨p, hp, ⟨p, _, hp, ho, hrefused⟩, fun i hi => (hbefore i hi).2, rfl⟩
  | missing hsize =>
    have heq : n = args.size := by
      by_contra hne
      have hlast := (hbefore args.size (by omega)).1
      omega
    subst heq
    refine Or.inl ⟨hn, ?_, rfl⟩
    rintro i ⟨q, o, hq, ho, hrefused⟩
    have hi := (Array.getElem?_eq_some_iff.mp ho).1
    exact (hbefore i hi).2 ⟨q, o, hq, ho, hrefused⟩

end Method

/-- Both runs ended alike: with the same answer, the same target, and the same result and arguments
up to identities of objects that were boxed since they began. -/
structure Agree {σ : Type} (supply : Supply) (s : Run σ) (l : DispatchLoop.Run σ) : Prop where
  answer_eq : s.answer = l.answer
  result_rel : Option.Rel (Object.Alike supply) s.result l.result
  args_rel : ∀ i : Nat, Option.Rel (Object.Alike supply) s.args[i]? l.args[i]?
  target_eq : s.target = l.target

namespace Agree

variable {σ : Type} {m : Method} {supply : Supply} {s : Run σ} {l : DispatchLoop.Run σ}
  {target : σ} {args : Array Object}

theorem of_untouched {d : Dispatcher σ} (hanswer : s.answer = l.answer)
    (h : Run.Untouched (d.start target supply none args) s)
    (h' : DispatchLoop.Untouched { result := none, args, target, supply } l) :
    Agree supply s l := by
  refine ⟨hanswer, ?_, ?_, ?_⟩
  · rw [show s.result = none from h.result_eq, show l.result = none from h'.result_eq]
    exact .none
  · intro i
    rw [show s.args = args from h.args_eq, show l.args = args from h'.args_eq]
    exact Object.rel_refl supply _
  · exact (show s.target = target from h.target_eq).trans h'.target_eq.symm

/-- A hook that was called by both leaves alike results and parameters. -/
theorem of_served {reply : Reply σ} {data : List Datum} {ending : Body.Ending σ}
    {writes : List (Nat × Object)} (hsettled : Run.Settled m ending writes args s)
    (hrenders : Body.Renders m reply supply ending writes)
    (hserved : DispatchLoop.Served m data reply { result := none, args, target, supply } l)
    (hsuits : reply.Suits m) : Agree supply s l := by
  obtain ⟨x, hx, hresult⟩ := hrenders.result_eq
  obtain ⟨hanswer, hstored, hargs⟩ := hsettled.succeeded _ hresult
  obtain ⟨mark, hmono, hlo, -, hleaves, hback⟩ := hserved.stored
  refine ⟨?_, ?_, ?_, ?_⟩
  · rw [hanswer, DispatchLoop.Run.answer, hserved.outcome_eq]
    rfl
  · rw [hstored]
    generalize l.result = result at hleaves ⊢
    generalize hform : m.ret = ret at hleaves
    cases hleaves with
    | void => exact .none
    | @value type o hbecomes =>
      obtain ⟨d, hd⟩ := hsuits.returned (by rw [hform]; rfl)
      have hplain := hsuits.plain type hform
      rw [hd] at hplain hbecomes ⊢
      exact .some ((d.becomes_toObject false x).alike hbecomes
        (fun _ inner heq => hplain inner (congrArg some heq)) hx (Nat.le_refl supply))
    | object hbecomes =>
      obtain ⟨d, hd⟩ := hsuits.returned (by rw [hform]; rfl)
      rw [hd] at hbecomes ⊢
      exact .some ((d.becomes_toObject false x).alike hbecomes Bool.noConfusion hx
        (Nat.le_refl supply))
  · intro i
    rw [hargs i]
    cases hmutable : m.isMutable i with
    | false =>
      rw [hserved.kept i hmutable]
      exact Object.rel_refl supply _
    | true =>
      obtain ⟨d, y, hd, hy, hlast⟩ := hrenders.written i hmutable
      obtain ⟨o, ho, hbecomes⟩ := hback i hmutable
      have hfinal : reply.final data i = d := by
        rw [Reply.final, hd]
        rfl
      rw [hfinal] at hbecomes
      rw [hlast, ho, if_pos rfl]
      refine .some ((d.becomes_toObject false y).alike hbecomes ?_ hy ?_)
      · rintro hplain inner rfl
        obtain ⟨p, hp, -⟩ := Method.exists_of_isMutable hmutable
        rw [Method.isErased, hp, Option.any_some, hsuits.erased i p inner hp hd] at hplain
        cases hplain
      · exact Nat.le_trans hlo (hmono (Nat.zero_le i))
  · rw [hsettled.target_eq, hrenders.state_eq, hserved.target_eq]

end Agree

/-- A dispatcher and a loop of one program, with the same methods: the invoker of each hook is the
faithful one for the method that the loop calls. Labels have 32 bits and numbers of temporaries have
16, so a program has no more operations, and a hook no more borrowing parameters, than there are. -/
structure Twins {σ : Type} (t : Trie) (r : Registry) (p : Program) (ids : Identifiers)
    (scope : DispatchLoop.Scope σ) (d : Dispatcher σ) (loop : DispatchLoop) : Prop where
  reachable : t.Reachable
  compiled : ∃ collapse typeName, (t.compile r collapse typeName).2.value = .ok p
  size_le : p.size ≤ UInt32.size
  borrowCount_le : ∀ entry ∈ r.entries, entry.2.borrowCount ≤ UInt16.size
  lowered : DispatchLoop.ofProgram p ids = .ok loop
  bound : ∃ table : HookTable σ, Dispatcher.ofProgram p table = .ok d ∧
    ∀ entry ∈ r.entries, ∀ ident, ids.lookup entry.2.name = some ident →
      table.get? entry.1 = some (entry.2.faithful (scope.methods ident) scope.kinds)
  suits : ∀ entry ∈ r.entries, ∀ ident, ids.lookup entry.2.name = some ident →
    ∀ args data, entry.2.Reads scope.kinds args data → ∀ target,
      (scope.methods ident target data).Suits entry.2

namespace Twins

variable {σ : Type} {t : Trie} {r : Registry} {p : Program} {ids : Identifiers}
  {scope : DispatchLoop.Scope σ} {d : Dispatcher σ} {loop : DispatchLoop} {name : Option String}
  {hook : MethodId} {key : Signature} {m : Method}

theorem exists_layout (h : Twins t r p ids scope d loop) :
    ∃ collapse, Nonempty (Layout t r collapse p) := by
  obtain ⟨collapse, typeName, hcompile⟩ := h.compiled
  exact ⟨collapse, Trie.exists_layout h.reachable.sound hcompile⟩

/-- What the loop does. -/
theorem dispatched (h : Twins t r p ids scope d loop) (target : σ) (supply : Supply)
    (name : Option String) (result : Option Object) (args : Array Object) :
    ∃ called, DispatchLoop.Dispatched r ids scope { result := none, args, target, supply }
      (t.get? (name.getD "")) called
      (loop.call scope.methods target supply name result args scope.kinds) := by
  obtain ⟨collapse, typeName, hcompile⟩ := h.compiled
  exact ⟨_, (DispatchLoop.exists_dispatched h.reachable hcompile h.size_le h.borrowCount_le
    h.lowered scope target supply name result args).2⟩

/-- The method of a hook that a name leads to has an identifier, or there would be no loop. -/
theorem exists_ident (h : Twins t r p ids scope d loop)
    (hfound : t.get? (name.getD "") = some hook) (hentry : r.get? hook = some (key, m))
    (target : σ) : ∃ ident, ids.lookup m.name = some ident := by
  obtain ⟨collapse, ⟨L⟩⟩ := h.exists_layout
  obtain ⟨-, -, stmts, next, body, -, -, -, -, -, hanswers, hlower⟩ :=
    DispatchLoop.exists_arrival h.lowered L h.reachable.sound h.size_le scope target 0
      (name.getD "") none #[]
  rw [hfound] at hanswers
  cases hanswers with
  | call hcalls =>
    cases hcalls.get?_eq.symm.trans hentry
    have hhook : p.hook? hook = some (key, m) := by
      rw [Program.hook?, L.hooks]
      exact hentry
    exact DispatchLoop.exists_ident hhook hlower

/-- What the program does for a name that it does not have. -/
theorem rejects (h : Twins t r p ids scope d loop) (hnone : t.get? (name.getD "") = none)
    (target : σ) (supply : Supply) (result : Option Object) (args : Array Object) :
    (d.call target supply name result args).answer = .ok false ∧
      Run.Untouched (d.start target supply none args)
        (d.call target supply name result args) := by
  obtain ⟨collapse, ⟨L⟩⟩ := h.exists_layout
  obtain ⟨table, hd, -⟩ := h.bound
  obtain ⟨rfl, -⟩ := Dispatcher.ofProgram_eq_ok hd
  have hrejects := d.rejects L h.reachable.sound h.size_le hnone target supply result args
  exact ⟨hrejects.answer_eq, hrejects.args_eq, hrejects.result_eq, hrejects.target_eq,
    hrejects.supply_eq⟩

/-- The program runs the faithful invoker of a hook that a name leads to. -/
theorem invokes (h : Twins t r p ids scope d loop) (hfound : t.get? (name.getD "") = some hook)
    (hentry : r.get? hook = some (key, m)) {ident : String}
    (hident : ids.lookup m.name = some ident) (target : σ) (supply : Supply)
    (result : Option Object) (args : Array Object) :
    d.Invokes hook m (m.faithful (scope.methods ident) scope.kinds) target supply name result
      args := by
  obtain ⟨collapse, ⟨L⟩⟩ := h.exists_layout
  obtain ⟨table, hd, hbound⟩ := h.bound
  obtain ⟨invoker, hget, hinvokes⟩ :=
    Dispatcher.exists_invokes L h.reachable.sound hd hfound hentry
  cases hget.symm.trans (hbound (key, m) (List.mem_of_getElem? hentry) ident hident)
  exact hinvokes target supply result args

/-- With all its arguments the hook sees them as cells. -/
theorem settles (h : Twins t r p ids scope d loop) (hfound : t.get? (name.getD "") = some hook)
    (hentry : r.get? hook = some (key, m)) {ident : String}
    (hident : ids.lookup m.name = some ident) {args : Array Object}
    (hlong : m.params.length ≤ args.size) (target : σ) (supply : Supply)
    (result : Option Object) :
    ∃ frame : Frame, frame.Cells m (Run.cellOf args) ∧
      Run.Settled m ((m.faithful (scope.methods ident) scope.kinds target).run frame supply)
        ((m.faithful (scope.methods ident) scope.kinds target).writes frame supply) args
        (d.call target supply name result args) := by
  obtain ⟨frame, -, -, -, hshown⟩ :=
    (h.invokes hfound hentry hident target supply result args).called hlong
  exact ⟨frame, hshown (h.borrowCount_le (key, m) (List.mem_of_getElem? hentry))⟩

/-- Both do the same if not both failures are at hand. -/
theorem agree (h : Twins t r p ids scope d loop) {args : Array Object}
    (hsingle : ∀ hook key m, t.get? (name.getD "") = some hook → r.get? hook = some (key, m) →
      ¬ m.FailsTwice scope.kinds args) (target : σ) (supply : Supply) (result : Option Object) :
    Agree supply (d.call target supply name result args)
      (loop.call scope.methods target supply name result args scope.kinds) := by
  obtain ⟨called, hdispatched⟩ := h.dispatched target supply name result args
  cases hfound : t.get? (name.getD "") with
  | none =>
    rw [hfound] at hdispatched
    obtain ⟨hanswer, huntouched⟩ := h.rejects hfound target supply result args
    cases hdispatched with
    | unknown houtcome huntouched' =>
      refine .of_untouched ?_ huntouched huntouched'
      rw [hanswer, DispatchLoop.Run.answer, houtcome]
      rfl
  | some hook =>
    rw [hfound] at hdispatched
    cases hdispatched with
    | @refused _ _ key m n e hentry hfaults hrefused =>
      have hanswer' :
          (loop.call scope.methods target supply name result args scope.kinds).answer =
            .error e := by
        rw [DispatchLoop.Run.answer, hrefused.outcome_eq]
        rfl
      obtain ⟨ident, hident⟩ := h.exists_ident hfound hentry target
      rcases Nat.lt_or_ge args.size m.params.length with hshort | hlong
      · obtain ⟨hanswer, -, huntouched⟩ :=
          (h.invokes hfound hentry hident target supply result args).starved hshort
        refine .of_untouched ?_ huntouched hrefused.toUntouched
        rcases hfaults.cases with ⟨-, -, rfl⟩ | ⟨p, -, hmistyped, -⟩
        · rw [hanswer, hanswer']
        · exact absurd ⟨hshort, n, hmistyped⟩ (hsingle hook key m hfound hentry)
      · obtain ⟨frame, hcells, hsettled⟩ :=
          h.settles hfound hentry hident hlong target supply result
        rw [Body.run_faithful_of_faults (scope.methods ident) target supply hcells
          (Run.getElem?_cellOf hlong) hfaults] at hsettled
        obtain ⟨hanswer, hresult, hargs⟩ := hsettled.failed e rfl
        have huntouched : Run.Untouched (d.start target supply none args)
            (d.call target supply name result args) :=
          ⟨hargs, hresult, hsettled.target_eq, hsettled.supply_eq⟩
        exact .of_untouched (hanswer.trans hanswer'.symm) huntouched hrefused.toUntouched
    | @served _ _ key m ident data hentry hident hreads hserved =>
      have hmem : (key, m) ∈ r.entries := List.mem_of_getElem? hentry
      have hsuits := h.suits (key, m) hmem ident hident args data hreads target
      obtain ⟨frame, hcells, hsettled⟩ :=
        h.settles hfound hentry hident hreads.length_le target supply result
      have hrenders := Body.renders_faithful (scope.methods ident) target supply hcells
        (h.borrowCount_le (key, m) hmem) (Run.getElem?_cellOf hreads.length_le) hreads
        hsuits.length_eq
      exact .of_served hsettled hrenders hserved hsuits

/-- With both failures at hand, the program reports the missing argument and the loop the first one
that has not its type. -/
theorem differ (h : Twins t r p ids scope d loop) {args : Array Object}
    (hfound : t.get? (name.getD "") = some hook) (hentry : r.get? hook = some (key, m))
    (htwice : m.FailsTwice scope.kinds args) (target : σ) (supply : Supply)
    (result : Option Object) :
    (d.call target supply name result args).answer =
        .error (.missingArgument args.size args.size) ∧
      Run.Untouched (d.start target supply none args) (d.call target supply name result args) ∧
      ∃ n p, m.params[n]? = some p ∧ m.Mistyped scope.kinds args n ∧
        (∀ i < n, ¬ m.Mistyped scope.kinds args i) ∧
        (loop.call scope.methods target supply name result args scope.kinds).answer =
          .error (.argumentType n (scope.kinds p.storage).typeName) ∧
        DispatchLoop.Untouched { result := none, args, target, supply }
          (loop.call scope.methods target supply name result args scope.kinds) := by
  obtain ⟨ident, hident⟩ := h.exists_ident hfound hentry target
  obtain ⟨hanswer, -, huntouched⟩ :=
    (h.invokes hfound hentry hident target supply result args).starved htwice.1
  obtain ⟨called, hdispatched⟩ := h.dispatched target supply name result args
  refine ⟨hanswer, huntouched, ?_⟩
  rw [hfound] at hdispatched
  cases hdispatched with
  | @refused _ _ key m n e hentry' hfaults hrefused =>
    cases hentry.symm.trans hentry'
    rcases hfaults.cases with ⟨-, hnone, -⟩ | ⟨p, hp, hmistyped, hleast, rfl⟩
    · obtain ⟨i, hi⟩ := htwice.2
      exact absurd hi (hnone i)
    · refine ⟨n, p, hp, hmistyped, hleast, ?_, hrefused.toUntouched⟩
      rw [DispatchLoop.Run.answer, hrefused.outcome_eq]
      rfl
  | @served _ _ key m ident data hentry' hident hreads hserved =>
    cases hentry.symm.trans hentry'
    have hlong := hreads.length_le
    exact absurd htwice.1 (Nat.not_lt.mpr hlong)

end Twins

namespace Specimen

theorem suits_countingMethods {m : Method} {args : Array Object} {kinds : TypeName → Kind}
    {data : List Datum} (hreads : m.Reads kinds args data) (ident : String) (count : Nat) :
    (countingMethods ident count data).Suits m where
  length_eq := by
    rw [← hreads.length_eq]
    exact List.length_map ..
  erased := by
    intro i p o _ ho
    rw [countingMethods, List.getElem?_map] at ho
    obtain ⟨d, -, hd⟩ := Option.map_eq_some_iff.mp ho
    cases hd
  returned := fun _ => ⟨_, rfl⟩
  plain := by
    intro type _ o ho
    cases ho

theorem exists_twins : ∃ p d loop,
    Twins pairTrie pairRegistry p [("p", "p")] ⟨countingMethods, .ofType⟩ d loop := by
  have ht := Trie.reachable_ofRegistry pairTrie_eq
  have hcallable := Trie.callable_ofRegistry pairTrie_eq (by decide) (by decide)
  obtain ⟨p, hp, hsize⟩ := Trie.compile_ok ht.sound hcallable true "T" (by decide)
  obtain ⟨L⟩ := Trie.exists_layout ht.sound hp
  obtain ⟨loop, hloop⟩ := exists_loop_of_lowers [("p", "p")] hp (by decide +kernel)
  have hbound : ∀ entry ∈ p.hooks, ((HookTable.ofBindings [(⟨"p(&mut i32, i32)"⟩,
      pair.faithful (countingMethods "p") .ofType)]).get? entry.1).isSome := by
    rw [L.hooks]
    decide
  obtain ⟨d, hd⟩ := Dispatcher.ofProgram_ok hbound
  refine ⟨p, d, loop, ht, ⟨true, "T", hp⟩, ?_, by decide, hloop, ⟨_, hd, ?_⟩, ?_⟩
  · rw [hsize]
    decide
  · intro entry hentry ident hident
    cases List.mem_singleton.mp hentry
    cases hident
    rfl
  · intro entry hentry ident hident args data hreads target
    cases List.mem_singleton.mp hentry
    exact suits_countingMethods hreads ident target

theorem pair_failsTwice : pair.FailsTwice .ofType #[⟨0, .bool true⟩] := by
  refine ⟨by decide, 0, _, _, rfl, rfl, ?_⟩
  rw [Parameter.Accepts]
  decide +kernel

end Specimen

/-- A dispatcher with faithful invokers and the loop of its program agree on every name and all
arguments, unless the hook has too few arguments and one of them has not its type. Then both fail
and leave everything as it was, but the dispatcher reports the missing argument, and the loop the
first one that has not its type. -/
theorem backends_agree {σ : Type} {t : Trie} {r : Registry} {p : Program} {ids : Identifiers}
    {scope : DispatchLoop.Scope σ} {d : Dispatcher σ} {loop : DispatchLoop}
    (h : Twins t r p ids scope d loop) (target : σ) (supply : Supply) (name : Option String)
    (result : Option Object) (args : Array Object) :
    ((∀ hook key m, t.get? (name.getD "") = some hook → r.get? hook = some (key, m) →
        ¬ m.FailsTwice scope.kinds args) →
      Agree supply (d.call target supply name result args)
        (loop.call scope.methods target supply name result args scope.kinds)) ∧
    ∀ hook key m, t.get? (name.getD "") = some hook → r.get? hook = some (key, m) →
      m.FailsTwice scope.kinds args →
      (d.call target supply name result args).answer =
          .error (.missingArgument args.size args.size) ∧
        Run.Untouched (d.start target supply none args) (d.call target supply name result args) ∧
        ∃ n p, m.params[n]? = some p ∧ m.Mistyped scope.kinds args n ∧
          (∀ i < n, ¬ m.Mistyped scope.kinds args i) ∧
          (loop.call scope.methods target supply name result args scope.kinds).answer =
            .error (.argumentType n (scope.kinds p.storage).typeName) ∧
          DispatchLoop.Untouched { result := none, args, target, supply }
            (loop.call scope.methods target supply name result args scope.kinds) :=
  ⟨fun hsingle => h.agree hsingle target supply result,
    fun _ _ _ hfound hentry htwice => h.differ hfound hentry htwice target supply result⟩

/-- With two numbers both backends agree; with a truth value for the first and nothing for the
second they do not. -/
theorem backends_specimen : ∃ p d loop,
    Twins Specimen.pairTrie Specimen.pairRegistry p [("p", "p")]
      ⟨Specimen.countingMethods, .ofType⟩ d loop ∧
      Agree 2 (d.call 0 2 (some "p(&mut i32, i32)") none #[⟨0, .i32 1⟩, ⟨1, .i32 2⟩])
        (loop.call Specimen.countingMethods 0 2 (some "p(&mut i32, i32)") none
          #[⟨0, .i32 1⟩, ⟨1, .i32 2⟩]) ∧
      (d.call 0 2 (some "p(&mut i32, i32)") none #[⟨0, .bool true⟩]).answer =
        .error (.missingArgument 1 1) := by
  obtain ⟨p, d, loop, h⟩ := Specimen.exists_twins
  have hfound : Specimen.pairTrie.get? "p(&mut i32, i32)" = some ⟨0⟩ := by decide
  refine ⟨p, d, loop, h, ?_, ?_⟩
  · refine (backends_agree h 0 2 (some "p(&mut i32, i32)") none _).1 ?_
    rintro hook key m hname hentry ⟨hshort, -⟩
    cases hfound.symm.trans hname
    cases hentry
    exact absurd hshort (by decide)
  · exact ((backends_agree h 0 2 (some "p(&mut i32, i32)") none _).2 ⟨0⟩ _ Specimen.pair hfound rfl
      Specimen.pair_failsTwice).1

/-- With a truth value for the first argument and nothing for the second the answers differ. -/
theorem backends_disagree : ∃ p d loop,
    Twins Specimen.pairTrie Specimen.pairRegistry p [("p", "p")]
      ⟨Specimen.countingMethods, .ofType⟩ d loop ∧
      (d.call 0 1 (some "p(&mut i32, i32)") none #[⟨0, .bool true⟩]).answer =
        .error (.missingArgument 1 1) ∧
      (loop.call Specimen.countingMethods 0 1 (some "p(&mut i32, i32)") none
        #[⟨0, .bool true⟩]).answer = .error (.argumentType 0 "i32") := by
  obtain ⟨p, d, loop, h⟩ := Specimen.exists_twins
  have hfound : Specimen.pairTrie.get? ((some "p(&mut i32, i32)").getD "") = some ⟨0⟩ := by decide
  obtain ⟨hanswer, -, n, q, hq, ⟨q', o, hq', ho, -⟩, -, hanswer', -⟩ :=
    h.differ hfound rfl Specimen.pair_failsTwice 0 1 none
  refine ⟨p, d, loop, h, hanswer, ?_⟩
  have hn : n < 1 := (Array.getElem?_eq_some_iff.mp ho).1
  obtain rfl : n = 0 := by omega
  cases hq
  rw [hanswer']
  decide +kernel

end HookDispatch
