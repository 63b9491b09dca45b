import HookDispatch.Generation.Generator
import HookDispatch.Proofs.KeyLanguage

/-!
When a trie is compiled, and why not. The hooks of the trie are the only thing that can stand in
the way: the first that is unknown, or returns a type parameter, is reported, with the shortcut or
without it. Everything the compiler checks about its own work holds. The hooks that are collected
from a method table are never in the way, so every table has a program.
-/
namespace HookDispatch

namespace Registry

/-- What keeps a hook from being called: it is unknown, or its method returns a type parameter. -/
inductive Objects (r : Registry) (hook : MethodId) : CompileError → Prop
  | unknown (hget : r.get? hook = none) : Objects r hook (.deadEnd hook.toNat)
  | unresolved {key : Signature} {m : Method} (hget : r.get? hook = some (key, m))
      (hgeneric : m.ret.isGeneric = true) : Objects r hook (.unsupportedReturn key.text)

/-- The first hook of a trie that cannot be called, with what keeps it from being called. The
hooks of a node come before those below it, and those below its first edge come first. -/
def FirstObjection (r : Registry) (t : Trie) (e : CompileError) : Prop :=
  ∃ before path hook after, t.edges.terminals = before ++ (path, hook) :: after ∧
    (∀ entry ∈ before, r.Callable entry.2) ∧ r.Objects hook e

variable {r : Registry} {hook : MethodId} {e : CompileError}

theorem fault?_emitCall_eq_none : (r.emitCall hook).fault? = none ↔ r.Callable hook := by
  constructor
  · intro h
    obtain ⟨key, m, hcalls, -⟩ := fault?_emitCall h
    exact ⟨key, m, hcalls⟩
  · intro h
    exact h.fault?

theorem fault?_emitCall_eq_some : (r.emitCall hook).fault? = some e ↔ r.Objects hook e := by
  constructor
  · intro h
    cases hget : r.get? hook with
    | none =>
      rw [emitCall, hget] at h
      cases h
      exact .unknown hget
    | some entry =>
      obtain ⟨key, m⟩ := entry
      cases hret : m.ret.isGeneric with
      | true =>
        rw [emitCall, hget] at h
        simp only [hret, if_true] at h
        cases h
        exact .unresolved hget hret
      | false =>
        have hcallable : r.Callable hook := ⟨key, m, hget, hret⟩
        rw [hcallable.fault?] at h
        cases h
  · intro h
    cases h with
    | unknown hget =>
      rw [emitCall, hget]
      rfl
    | unresolved hget hgeneric =>
      rw [emitCall, hget]
      simp only [hgeneric, if_true]
      rfl

end Registry

namespace Trie

variable {t : Trie} {r : Registry} {collapse : Bool}

/-- Nothing else in a trie stands in the way of its emission than its hooks. -/
theorem fault?_emit (ht : t.Sound) : (t.emit r collapse).fault? =
    t.edges.terminals.findSome? fun entry => (r.emitCall entry.2).fault? := by
  rw [emit, Emission.fault?_append, Emission.fault?_append, Emission.fault?_ofItems,
    Emission.fault?_ofItems, Option.none_or, Option.or_none]
  split
  · rename_i hnone
    rw [Edges.eq_nil_of_first?_eq_none (Option.isNone_iff_eq_none.mp hnone)]
    rfl
  · rw [Emission.fault?_append, Emission.fault?_ofItems, Option.none_or,
      Edges.fault?_emit_eq ht.productive]

theorem fault?_emit_eq_none (ht : t.Sound) : (t.emit r collapse).fault? = none ↔
    ∀ entry ∈ t.edges.terminals, r.Callable entry.2 := by
  rw [fault?_emit ht, List.findSome?_eq_none_iff]
  simp only [Registry.fault?_emitCall_eq_none]

theorem fault?_emit_eq_some {e : CompileError} (ht : t.Sound) :
    (t.emit r collapse).fault? = some e ↔ r.FirstObjection t e := by
  rw [fault?_emit ht, List.findSome?_eq_some_iff]
  simp only [Registry.fault?_emitCall_eq_none, Registry.fault?_emitCall_eq_some]
  constructor
  · rintro ⟨before, ⟨path, hook⟩, after, hsplit, hobjects, hbefore⟩
    exact ⟨before, path, hook, after, hsplit, hbefore, hobjects⟩
  · rintro ⟨before, path, hook, after, hsplit, hbefore, hobjects⟩
    exact ⟨before, (path, hook), after, hsplit, hobjects, hbefore⟩

theorem compile_of_fault {e : CompileError} (h : (t.emit r collapse).fault? = some e)
    (typeName : String) :
    (t.compile r collapse typeName).2.value = .error e := by
  rw [compile]
  simp only [h]

end Trie

namespace MethodTable

variable {table : MethodTable} {r : Registry} {m : Method}

/-- No reason speaks against the methods of a registry, and each has its own key. -/
def Admits (table : MethodTable) (r : Registry) : Prop :=
  ∀ entry ∈ r.entries, table.skipReason entry.2 = none ∧ entry.1 = .ofMethod entry.2

theorem Admits.collectStep {seen : Traced Registry} (h : table.Admits seen.value) (m : Method) :
    table.Admits (table.collectStep seen m).value := by
  unfold MethodTable.collectStep
  split
  · exact h
  · rename_i hskip
    dsimp only
    split
    · exact h
    · rename_i hnew
      intro entry hentry
      rw [Registry.entries_insert_of_not_mem hnew, List.mem_append, List.mem_singleton] at hentry
      rcases hentry with hold | rfl
      · exact h entry hold
      · exact ⟨hskip, rfl⟩

/-- The hooks of a table are those that the table admits. -/
theorem admits_collect (table : MethodTable) : table.Admits table.collect.value := by
  have hrun : ∀ (ms : List Method) (seen : Traced Registry), table.Admits seen.value →
      table.Admits (ms.foldl table.collectStep seen).value := by
    intro ms
    induction ms with
    | nil =>
      intro seen h
      exact h
    | cons m ms ih =>
      intro seen h
      exact ih _ (h.collectStep m)
  apply hrun
  intro entry hentry
  cases hentry

/-- The name of an admitted method begins with a character that is no parenthesis. -/
theorem exists_head_of_skipReason (h : table.skipReason m = none) :
    ∃ c cs, m.name.toList = c :: cs ∧ c ≠ '(' := by
  have hname : isReservedName m.name = false := skipReason_eq_none_iff.mp h .reservedName
  rw [isReservedName] at hname
  split at hname
  · cases hname
  · cases hname
  · rename_i hne _
    obtain ⟨c, cs, hcs⟩ := List.exists_cons_of_ne_nil hne
    refine ⟨c, cs, hcs, ?_⟩
    rintro rfl
    rw [hcs] at hname
    cases hname

theorem Admits.exists_head (h : table.Admits r) {key : Signature} (hkey : key ∈ r.keys) :
    ∃ c cs, key.text.toList = c :: cs ∧ c ≠ '(' := by
  obtain ⟨entry, hentry, rfl⟩ := List.mem_map.mp hkey
  obtain ⟨hskip, hown⟩ := h entry hentry
  obtain ⟨c, cs, hname, hc⟩ := exists_head_of_skipReason hskip
  refine ⟨c, cs ++ (Signature.parameterList entry.2.params).toList, ?_, hc⟩
  rw [hown, Signature.ofMethod, String.toList_append, hname, List.cons_append]

/-- Admitted keys make a trie: none is empty or begins with a parenthesis. -/
theorem Admits.exists_trie (h : table.Admits r) (withAliases : Bool) :
    ∃ t, Trie.ofRegistry r withAliases = .ok t := by
  cases hbuilt : Trie.ofRegistry r withAliases with
  | ok t => exact ⟨t, rfl⟩
  | error e =>
    rw [Trie.ofRegistry, Trie.insertAll_eq_error, Registry.empty_mem_trieKeys] at hbuilt
    rcases hbuilt.2 with ⟨key, hkey, hempty⟩ | ⟨-, key, ⟨hkey, hhead⟩, -⟩
    · obtain ⟨c, cs, htext, -⟩ := h.exists_head hkey
      rw [hempty] at htext
      cases htext
    · obtain ⟨c, cs, htext, hc⟩ := h.exists_head hkey
      rw [htext, List.head?_cons] at hhead
      exact absurd (Option.some.inj hhead) hc

theorem Admits.not_generic (h : table.Admits r) :
    ∀ entry ∈ r.entries, entry.2.ret.isGeneric = false := by
  intro entry hentry
  exact skipReason_eq_none_iff.mp (h entry hentry).1 .genericReturn

end MethodTable

theorem Generator.compileRegistry_ok {g : Generator} {r : Registry} {t : Trie} {typeName : String}
    {p : Program} (ht : Trie.ofRegistry r g.config.aliases = .ok t)
    (hp : (t.compile r g.config.collapse typeName).2.value = .ok p) :
    (g.compileRegistry typeName r).value = .ok p := by
  rw [compileRegistry, ht]
  dsimp only
  cases hcompile : (t.compile r g.config.collapse typeName).2 with
  | mk events value =>
    rw [hcompile] at hp
    cases hp
    rfl

/-- A trie is compiled exactly if its hooks are known and return no type parameter, and otherwise
the first that is in the way is reported, whether names are compared at once or not. A generator
compiles every table. Programs are smaller than the largest label. -/
theorem compile_outcome :
    (∀ (t : Trie) (r : Registry) (collapse : Bool) (typeName : String), t.Reachable →
      ((∀ entry ∈ t.edges.terminals, r.Callable entry.2) →
        (t.emit r collapse).length + 1 < UInt32.size) →
      ((∃ p, (t.compile r collapse typeName).2.value = .ok p) ↔
        ∀ entry ∈ t.edges.terminals, r.Callable entry.2) ∧
      ∀ e, (t.compile r collapse typeName).2.value = .error e ↔ r.FirstObjection t e) ∧
    ∀ (g : Generator) (table : MethodTable),
      (∀ t, Trie.ofRegistry table.collect.value g.config.aliases = .ok t →
        (t.emit table.collect.value g.config.collapse).length + 1 < UInt32.size) →
      ∃ p, (g.compile table).value = .ok p := by
  constructor
  · intro t r collapse typeName ht hsize
    have hsound := ht.sound
    cases hfault : (t.emit r collapse).fault? with
    | none =>
      have hcallable := (Trie.fault?_emit_eq_none hsound).mp hfault
      have hsmall := hsize hcallable
      obtain ⟨p, hp, -⟩ := Trie.compile_ok hsound
        (fun path hook hmem => hcallable (path, hook) hmem) collapse typeName (by omega)
      constructor
      · exact ⟨fun _ => hcallable, fun _ => ⟨p, hp⟩⟩
      · intro e
        rw [hp, ← Trie.fault?_emit_eq_some hsound, hfault]
        simp
    | some e' =>
      have herror := Trie.compile_of_fault hfault typeName
      constructor
      · rw [herror, ← Trie.fault?_emit_eq_none hsound, hfault]
        simp
      · intro e
        rw [herror, ← Trie.fault?_emit_eq_some hsound, hfault, Except.error.injEq,
          Option.some.injEq]
  · intro g table hsize
    have hadmits := table.admits_collect
    obtain ⟨t, ht⟩ := hadmits.exists_trie g.config.aliases
    have hsmall := hsize t ht
    have hcount := Trie.size_le_emit ht g.config.collapse
    have hcallable := Trie.callable_ofRegistry ht (by omega) hadmits.not_generic
    obtain ⟨p, hp, -⟩ := Trie.compile_ok (Trie.reachable_ofRegistry ht).sound hcallable
      g.config.collapse table.typeName (by omega)
    exact ⟨p, Generator.compileRegistry_ok ht hp⟩

/-- The specimen is compiled with its registry. Without one, its first hook is unknown. -/
theorem outcome_specimen :
    (∃ p, (Specimen.trie.compile Specimen.registry true "T").2.value = .ok p) ∧
      (Specimen.trie.compile .empty false "T").2.value = .error (.deadEnd 0) ∧
      ∃ p, ((Generator.standard {}).compile ⟨"T", [Specimen.first]⟩).value = .ok p := by
  obtain ⟨houtcome, hgenerate⟩ := compile_outcome
  have ht := Trie.reachable_ofRegistry Specimen.trie_eq
  refine ⟨?_, ?_, ?_⟩
  · refine (houtcome Specimen.trie Specimen.registry true "T" ht fun _ => by decide).1.mpr ?_
    rintro ⟨path, hook⟩ hmem
    exact Trie.callable_ofRegistry Specimen.trie_eq (by decide) (by decide) path hook hmem
  · refine ((houtcome Specimen.trie .empty false "T" ht ?_).2 (.deadEnd 0)).mpr ?_
    · intro hcallable
      obtain ⟨key, m, hget, -⟩ := hcallable ([97], ⟨0⟩) (by decide)
      cases hget
    · exact ⟨[], [97], ⟨0⟩, _, rfl, fun _ hmem => absurd hmem List.not_mem_nil, .unknown rfl⟩
  · apply hgenerate
    have hcollect : (⟨"T", [Specimen.first]⟩ : MethodTable).collect.value =
        ⟨[(⟨"a"⟩, Specimen.first)], by decide⟩ := (Registry.mk.injEq ..).mpr (by decide +kernel)
    have hbuilt : Trie.ofRegistry ⟨[(⟨"a"⟩, Specimen.first)], by decide⟩ true =
        .ok { edges := .cons 1 97 (some ⟨0⟩) .nil .nil, size := 2, keyCount := 1 } := rfl
    rw [hcollect]
    intro t ht
    cases hbuilt.symm.trans ht
    decide

end HookDispatch
