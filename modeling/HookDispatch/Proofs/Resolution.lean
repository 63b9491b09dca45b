import HookDispatch.Proofs.CallOrder
import HookDispatch.Proofs.Collapse
import HookDispatch.Proofs.CompileOutcome

/-!
What the program of a method table does with a name. A program has one resolution for each name: all
its dispatchers enter the call of the same hook and run what they have bound to it, or all of them
reject the name. For the program of
a table this is read off the collected keys, without a word about tries or operations, so tables
with the same keys can be compared.
-/
namespace HookDispatch

/-- What a program does with a name, whichever invokers and arguments it is run with: it enters the
call of a hook, where the invoker is run that is bound under the key of the hook, or it rejects the
name. -/
def Program.Resolves (p : Program) (name : Option String) : Option MethodId → Prop
  | some hook =>
    ∃ key m, p.hook? hook = some (key, m) ∧
      (∀ (σ : Type) (d : Dispatcher σ), d.program = p → ∀ target supply result args,
        Run.Enters p.operations (d.trace target supply name result args) hook m) ∧
      ∀ (σ : Type) (table : HookTable σ) (d : Dispatcher σ),
        Dispatcher.ofProgram p table = .ok d →
        ∃ invoker, table.get? key = some invoker ∧ ∀ target supply result args,
          d.Invokes hook m invoker target supply name result args
  | none =>
    ∀ (σ : Type) (d : Dispatcher σ), d.program = p → ∀ target supply result args,
      Run.Rejects (d.call target supply name result args)
        (d.trace target supply name result args) target supply args

section Unique

variable {ops : Array Operation}

/-- Of two segments at one place one is the start of the other. -/
theorem Holds.prefix_or_prefix {pos : Nat} {seg seg' : List Operation} (h : Holds ops pos seg)
    (h' : Holds ops pos seg') : seg <+: seg' ∨ seg' <+: seg := by
  induction seg generalizing pos seg' with
  | nil => exact Or.inl (List.nil_prefix)
  | cons op seg ih =>
    cases seg' with
    | nil => exact Or.inr (List.nil_prefix)
    | cons op' seg' =>
      obtain rfl : op = op' := Option.some.inj (h.1.symm.trans h'.1)
      rcases ih h.2 h'.2 with hprefix | hprefix
      · exact Or.inl (List.cons_prefix_cons.mpr ⟨rfl, hprefix⟩)
      · exact Or.inr (List.cons_prefix_cons.mpr ⟨rfl, hprefix⟩)

theorem Method.hook_eq_of_prefix {m m' : Method} {hook hook' : MethodId}
    (h : m.callSequence hook <+: m'.callSequence hook') : hook = hook' := by
  have hcalls := h.filterMap Operation.callee?
  rw [filterMap_callee?, filterMap_callee?, List.cons_prefix_cons] at hcalls
  exact hcalls.1

namespace Run

variable {σ : Type} {done : List (Operation × Run σ)} {hook hook' : MethodId} {m m' : Method}

/-- The first operation on arguments is where the call is entered. -/
theorem Enters.exists_find? (h : Enters ops done hook m) :
    ∃ e, done.find? (·.1.marshals) = some e ∧ Holds ops e.2.pc (m.callSequence hook) := by
  obtain ⟨tests, op, s, rest, rfl, hidle, hholds, hprefix⟩ := h
  obtain ⟨first, seg, hseg, hmarshals⟩ := m.callSequence_eq_cons hook
  rw [hseg, List.cons_prefix_cons] at hprefix
  obtain ⟨rfl, -⟩ := hprefix
  refine ⟨(op, s), ?_, hholds⟩
  have hnone : tests.find? (·.1.marshals) = none := by
    rw [List.find?_eq_none]
    intro e he
    rw [hidle e he]
    exact Bool.false_ne_true
  have hfirst : ((op, s) :: rest).find? (·.1.marshals) = some (op, s) :=
    List.find?_cons_of_pos hmarshals
  rw [List.find?_append, hnone, Option.none_or, hfirst]

/-- A run enters the call of one hook only. -/
theorem Enters.unique (h : Enters ops done hook m) (h' : Enters ops done hook' m') :
    hook = hook' := by
  obtain ⟨e, hfind, hholds⟩ := h.exists_find?
  obtain ⟨e', hfind', hholds'⟩ := h'.exists_find?
  obtain rfl : e = e' := Option.some.inj (hfind.symm.trans hfind')
  rcases hholds.prefix_or_prefix hholds' with hprefix | hprefix
  · exact Method.hook_eq_of_prefix hprefix
  · exact (Method.hook_eq_of_prefix hprefix).symm

theorem Enters.not_rejects (h : Enters ops done hook m) {s : Run σ} {target : σ} {supply : Supply}
    {args : Array Object} : ¬ Rejects s done target supply args := by
  intro hrejects
  obtain ⟨e, hfind, -⟩ := h.exists_find?
  have hidle := hrejects.idle e (List.mem_of_find?_eq_some hfind)
  have hmarshals : e.1.marshals = true := by simpa using List.find?_some hfind
  rw [hidle] at hmarshals
  cases hmarshals

end Run

/-- A program has at most one resolution of a name. -/
theorem Program.Resolves.unique {p : Program} {name : Option String}
    {found found' : Option MethodId} (h : p.Resolves name found) (h' : p.Resolves name found') :
    found = found' := by
  -- Any run shows it, so one without invokers will do.
  let d : Dispatcher Unit := ⟨p, #[]⟩
  cases found with
  | none =>
    cases found' with
    | none => rfl
    | some hook' =>
      obtain ⟨key, m, -, henters, -⟩ := h'
      exact absurd (h Unit d rfl () 0 none #[]) (henters Unit d rfl () 0 none #[]).not_rejects
  | some hook =>
    obtain ⟨key, m, -, hall, -⟩ := h
    have henters := hall Unit d rfl () 0 none #[]
    cases found' with
    | none => exact absurd (h' Unit d rfl () 0 none #[]) henters.not_rejects
    | some hook' =>
      obtain ⟨key', m', -, hall', -⟩ := h'
      exact congrArg some (henters.unique (hall' Unit d rfl () 0 none #[]))

end Unique

namespace Layout

variable {t : Trie} {r : Registry} {collapse : Bool} {p : Program}

/-- A program resolves names by its trie. -/
theorem resolves_get? (L : Layout t r collapse p) (ht : t.Sound) (hsize : p.size ≤ UInt32.size)
    (name : Option String) : p.Resolves name (t.get? (name.getD "")) := by
  cases hfound : t.get? (name.getD "") with
  | none =>
    rintro σ d rfl
    exact d.rejects L ht hsize hfound
  | some hook =>
    obtain ⟨key, m, hcalls⟩ := L.exists_calls ht hfound
    refine ⟨key, m, ?_, ?_, fun σ table d hd =>
      Dispatcher.exists_invokes L ht hd hfound hcalls.get?_eq⟩
    · rw [Program.hook?, L.hooks]
      exact hcalls.get?_eq
    · rintro σ d rfl
      exact d.enters L ht hfound hcalls.get?_eq

theorem resolves_iff (L : Layout t r collapse p) (ht : t.Sound) (hsize : p.size ≤ UInt32.size)
    {name : Option String} {found : Option MethodId} :
    p.Resolves name found ↔ t.get? (name.getD "") = found := by
  constructor
  · intro h
    exact (L.resolves_get? ht hsize name).unique h
  · rintro rfl
    exact L.resolves_get? ht hsize name

end Layout

namespace Registry

variable {r r' : Registry} {withAliases : Bool} {s : String} {key : Signature} {hook : MethodId}

/-- A text stands for a collected key: it is the key, or the key is its only overload and no other
key is this text. -/
def Selects (r : Registry) (withAliases : Bool) (s : String) (key : Signature) : Prop :=
  key ∈ r.keys ∧
    (key.text = s ∨
      withAliases = true ∧ (∀ other ∈ r.keys, other.text ≠ s) ∧ r.overloadsOf s = {key})

theorem mem_trieKeys_iff_selects : (s, hook) ∈ r.trieKeys withAliases ↔
    ∃ key, (hook, key) ∈ r.idKeys ∧ r.Selects withAliases s key := by
  rw [mem_trieKeys, mem_aliases]
  constructor
  · rintro (⟨key, hid, htext⟩ | ⟨hwith, hnew, key, hsole, hid⟩)
    · exact ⟨key, hid, mem_keys_of_mem_idKeys hid, Or.inl htext⟩
    · exact ⟨key, hid, mem_keys_of_mem_idKeys hid, Or.inr ⟨hwith, hnew, hsole⟩⟩
  · rintro ⟨key, hid, -, htext | ⟨hwith, hnew, hsole⟩⟩
    · exact Or.inl ⟨key, hid, htext⟩
    · exact Or.inr ⟨hwith, hnew, key, hsole, hid⟩

end Registry

namespace Trie

variable {r : Registry} {withAliases : Bool} {t : Trie} {s : String}

theorem get?_eq_some_iff_selects (h : Trie.ofRegistry r withAliases = .ok t) {hook : MethodId} :
    t.get? s = some hook ↔ ∃ key, (hook, key) ∈ r.idKeys ∧ r.Selects withAliases s key := by
  rw [get?_ofRegistry h, Registry.mem_trieKeys_iff_selects]

theorem get?_eq_none_iff_selects (h : Trie.ofRegistry r withAliases = .ok t) :
    t.get? s = none ↔ ∀ key, ¬ r.Selects withAliases s key := by
  constructor
  · intro hnone key hselects
    obtain ⟨hook, hid⟩ := Registry.exists_mem_idKeys hselects.1
    have hsome := (get?_eq_some_iff_selects h).mpr ⟨key, hid, hselects⟩
    rw [hnone] at hsome
    cases hsome
  · intro hnone
    rw [Option.eq_none_iff_forall_ne_some]
    intro hook hsome
    obtain ⟨key, -, hselects⟩ := (get?_eq_some_iff_selects h).mp hsome
    exact hnone key hselects

end Trie

/-- The program of the table has fewer positions than there are labels. -/
def Generator.Fits (g : Generator) (table : MethodTable) : Prop :=
  ∀ t, Trie.ofRegistry table.collect.value g.config.aliases = .ok t →
    (t.emit table.collect.value g.config.collapse).length + 1 < UInt32.size

instance (g : Generator) (table : MethodTable) : Decidable (g.Fits table) :=
  match h : Trie.ofRegistry table.collect.value g.config.aliases with
  | .error _ => .isTrue fun _ ht => nomatch h.symm.trans ht
  | .ok t =>
    decidable_of_iff ((t.emit table.collect.value g.config.collapse).length + 1 < UInt32.size)
      ⟨fun hsmall _ ht => Except.ok.inj (h.symm.trans ht) ▸ hsmall, fun hfits => hfits t h⟩

structure Program.OfKeys (p : Program) (r : Registry) (withAliases : Bool) : Prop where
  hooks_eq : p.hooks = r.entries
  few : r.size ≤ UInt32.size
  resolves : ∀ name, ∃ found, ∀ x, p.Resolves name x ↔ x = found
  resolves_some : ∀ name hook, p.Resolves name (some hook) ↔
    ∃ key, (hook, key) ∈ r.idKeys ∧ r.Selects withAliases (name.getD "") key
  resolves_none : ∀ name, p.Resolves name none ↔ ∀ key, ¬ r.Selects withAliases (name.getD "") key

/-- Every table has a program, and the program resolves names by the keys of the table. -/
theorem Generator.Fits.exists_program {g : Generator} {table : MethodTable} (h : g.Fits table) :
    ∃ p, (g.compile table).value = .ok p ∧ p.OfKeys table.collect.value g.config.aliases := by
  have hadmits := table.admits_collect
  obtain ⟨t, ht⟩ := hadmits.exists_trie g.config.aliases
  have hsmall := h t ht
  have hcount := Trie.size_le_emit ht g.config.collapse
  have hcallable := Trie.callable_ofRegistry ht (by omega) hadmits.not_generic
  have hsound := (Trie.reachable_ofRegistry ht).sound
  obtain ⟨p, hp, hsize⟩ :=
    Trie.compile_ok hsound hcallable g.config.collapse table.typeName (by omega)
  obtain ⟨L⟩ := Trie.exists_layout hsound hp
  have hresolves : ∀ name found, p.Resolves name found ↔ t.get? (name.getD "") = found :=
    fun name found => L.resolves_iff hsound (by omega)
  refine ⟨p, Generator.compileRegistry_ok ht hp, L.hooks, by omega, ?_, ?_, ?_⟩
  · intro name
    exact ⟨t.get? (name.getD ""), fun x => (hresolves name x).trans eq_comm⟩
  · intro name hook
    rw [hresolves, Trie.get?_eq_some_iff_selects ht]
  · intro name
    rw [hresolves, Trie.get?_eq_none_iff_selects ht]

/-- The id of a collected key is that of a hook with this key. -/
theorem Program.OfKeys.exists_hook? {p : Program} {r : Registry} {withAliases : Bool}
    (h : p.OfKeys r withAliases) {hook : MethodId} {key : Signature}
    (hid : (hook, key) ∈ r.idKeys) : ∃ m, p.hook? hook = some (key, m) := by
  obtain ⟨i, hi, rfl⟩ := r.mem_idKeys.mp hid
  rw [Registry.keys, List.getElem?_map, Option.map_eq_some_iff] at hi
  obtain ⟨⟨key', m⟩, hentry, rfl⟩ := hi
  have hlt : i < r.size := (List.getElem?_eq_some_iff.mp hentry).1
  have hget := Registry.get?_ofNat h.few hlt
  rw [hentry] at hget
  rw [hook?, h.hooks_eq]
  exact ⟨m, hget⟩

/-- A name that stands for a key resolves to a hook with this key. -/
theorem Program.OfKeys.exists_resolves {p : Program} {r : Registry} {withAliases : Bool}
    (h : p.OfKeys r withAliases) {name : Option String} {key : Signature}
    (hselects : r.Selects withAliases (name.getD "") key) :
    ∃ hook m, p.Resolves name (some hook) ∧ p.hook? hook = some (key, m) := by
  obtain ⟨hook, hid⟩ := Registry.exists_mem_idKeys hselects.1
  obtain ⟨m, hhook⟩ := h.exists_hook? hid
  exact ⟨hook, m, (h.resolves_some name hook).mpr ⟨key, hid, hselects⟩, hhook⟩

end HookDispatch
