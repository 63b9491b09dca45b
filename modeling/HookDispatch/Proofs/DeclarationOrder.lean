import HookDispatch.Proofs.Resolution

/-!
The order in which a table lists its methods. It decides the ids of the hooks, the shape of the trie
and which of several methods with one key is taken, so programs of reordered tables have little in
common. But a key is collected exactly if some eligible method has it, and the collected keys alone
decide which of them a name stands for.
-/
namespace HookDispatch

namespace MethodTable

variable {table table' : MethodTable} {key : Signature} {m : Method}

/-- Of the table only the name of its type matters to what makes a method a hook. -/
theorem skipReason_congr (h : table.typeName = table'.typeName) :
    table.skipReason m = table'.skipReason m := by
  have hrefuses : table.refuses m = table'.refuses m := by
    funext reason
    cases reason <;> simp only [refuses, h]
  rw [skipReason, skipReason, hrefuses]

theorem mem_keys_collectStep (seen : Traced Registry) :
    key ∈ (table.collectStep seen m).value.keys ↔
      key ∈ seen.value.keys ∨ table.skipReason m = none ∧ Signature.ofMethod m = key := by
  unfold collectStep
  cases hskip : table.skipReason m with
  | some reason => simp
  | none =>
    dsimp only
    split
    · rename_i htaken
      constructor
      · exact Or.inl
      · rintro (hold | ⟨-, rfl⟩)
        · exact hold
        · exact htaken
    · rename_i hnew
      rw [Registry.keys, Registry.entries_insert_of_not_mem hnew, List.map_append, List.mem_append,
        List.map_singleton, List.mem_singleton, eq_comm (a := key), Registry.keys]
      simp only [true_and]

/-- The collected keys are those of the methods that nothing speaks against. -/
theorem mem_keys_collect : key ∈ table.collect.value.keys ↔
    ∃ m ∈ table.methods, table.skipReason m = none ∧ Signature.ofMethod m = key := by
  have hrun : ∀ (ms : List Method) (seen : Traced Registry),
      key ∈ (ms.foldl table.collectStep seen).value.keys ↔
        key ∈ seen.value.keys ∨
          ∃ m ∈ ms, table.skipReason m = none ∧ Signature.ofMethod m = key := by
    intro ms
    induction ms with
    | nil => simp
    | cons m ms ih =>
      intro seen
      rw [List.foldl_cons, ih, mem_keys_collectStep, or_assoc, List.exists_mem_cons_iff]
  have hempty : key ∉ Registry.empty.keys := List.not_mem_nil
  rw [collect, hrun, or_iff_right hempty]

/-- Reordered tables have the same keys. -/
theorem mem_keys_collect_of_perm (htype : table.typeName = table'.typeName)
    (hperm : table.methods.Perm table'.methods) :
    key ∈ table.collect.value.keys ↔ key ∈ table'.collect.value.keys := by
  rw [mem_keys_collect, mem_keys_collect]
  simp only [hperm.mem_iff, skipReason_congr htype]

end MethodTable

namespace Registry

variable {r r' : Registry} {withAliases : Bool} {s : String} {key : Signature} {hook : MethodId}

/-- What a text stands for depends on the keys only. -/
theorem selects_congr (h : ∀ key, key ∈ r.keys ↔ key ∈ r'.keys) :
    r.Selects withAliases s key ↔ r'.Selects withAliases s key := by
  have hoverloads : r.overloadsOf s = r'.overloadsOf s := by
    ext other
    exact and_congr_left fun _ => h other
  simp only [Selects, h, hoverloads]

end Registry

/-- Dispatch does not depend on the order of declarations. The programs of two tables of one type
with the same methods reject the same names, and for each other name they call hooks with the same
key. -/
theorem dispatch_of_perm {g : Generator} {table table' : MethodTable}
    (htype : table.typeName = table'.typeName) (hperm : table.methods.Perm table'.methods)
    (hfits : g.Fits table) (hfits' : g.Fits table') :
    ∃ p p', (g.compile table).value = .ok p ∧ (g.compile table').value = .ok p' ∧
      ∀ name,
        (p.Resolves name none ∧ p'.Resolves name none) ∨
        ∃ key hook hook' m m', p.hook? hook = some (key, m) ∧ p'.hook? hook' = some (key, m') ∧
          p.Resolves name (some hook) ∧ p'.Resolves name (some hook') := by
  obtain ⟨p, hp, hkeys⟩ := hfits.exists_program
  obtain ⟨p', hp', hkeys'⟩ := hfits'.exists_program
  have hsame : ∀ s key, table.collect.value.Selects g.config.aliases s key ↔
      table'.collect.value.Selects g.config.aliases s key := fun s key =>
    Registry.selects_congr fun key => MethodTable.mem_keys_collect_of_perm htype hperm
  refine ⟨p, p', hp, hp', fun name => ?_⟩
  by_cases hfound : ∃ key, table.collect.value.Selects g.config.aliases (name.getD "") key
  · obtain ⟨key, hselects⟩ := hfound
    obtain ⟨hook, m, hresolves, hhook⟩ := hkeys.exists_resolves hselects
    obtain ⟨hook', m', hresolves', hhook'⟩ := hkeys'.exists_resolves ((hsame _ key).mp hselects)
    exact Or.inr ⟨key, hook, hook', m, m', hhook, hhook', hresolves, hresolves'⟩
  · rw [not_exists] at hfound
    refine Or.inl ⟨(hkeys.resolves_none name).mpr hfound, (hkeys'.resolves_none name).mpr ?_⟩
    intro key hselects
    exact hfound key ((hsame _ key).mpr hselects)

namespace Specimen

def shadow : Method := { second with ret := .void }

def static : Method := { first with flags := { isStatic := true } }

def table : MethodTable := ⟨"T", [first, second, shadow, static]⟩

def reordered : MethodTable := ⟨"T", [static, shadow, second, first]⟩

end Specimen

/-- In the reordered table the other method with the key is taken. -/
theorem dispatch_of_perm_specimen :
    Specimen.table.methods.Perm Specimen.reordered.methods ∧
      (Generator.standard {}).Fits Specimen.table ∧
      (Generator.standard {}).Fits Specimen.reordered ∧
      ∃ p p', ((Generator.standard {}).compile Specimen.table).value = .ok p ∧
        ((Generator.standard {}).compile Specimen.reordered).value = .ok p' ∧
        ∃ key hook hook' m m', p.hook? hook = some (key, m) ∧ p'.hook? hook' = some (key, m') ∧
          p.Resolves (some "ab(&mut i32)") (some hook) ∧
          p'.Resolves (some "ab(&mut i32)") (some hook') := by
  have htype : Specimen.table.typeName = Specimen.reordered.typeName := rfl
  have hperm : Specimen.table.methods.Perm Specimen.reordered.methods := by decide
  have hfits : (Generator.standard {}).Fits Specimen.table := by decide +kernel
  have hfits' : (Generator.standard {}).Fits Specimen.reordered := by decide +kernel
  refine ⟨hperm, hfits, hfits', ?_⟩
  obtain ⟨p, p', hp, hp', hresolves⟩ := dispatch_of_perm htype hperm hfits hfits'
  refine ⟨p, p', hp, hp', ?_⟩
  rcases hresolves (some "ab(&mut i32)") with ⟨hnone, -⟩ | hsame
  · obtain ⟨q, hq, hkeys⟩ := hfits.exists_program
    obtain rfl : p = q := Except.ok.inj (hp.symm.trans hq)
    have hkey : (⟨"ab(&mut i32)"⟩ : Signature) ∈ Specimen.table.collect.value.keys := by
      decide +kernel
    exact absurd ⟨hkey, Or.inl rfl⟩ ((hkeys.resolves_none _).mp hnone ⟨"ab(&mut i32)"⟩)
  · exact hsame

end HookDispatch
