import HookDispatch.Proofs.DeclarationOrder
import HookDispatch.Proofs.OverloadKeys

/-!
A method that is added to a table. If it is a hook with a key of its own, one key is added behind
the others, and what a name stands for can change only for that key and for the name before its
parameters. That name stands for the new hook, for an older one or for none, by the overloads that
it has then.
-/
namespace HookDispatch

namespace MethodTable

variable {table : MethodTable} {m : Method}

/-- A method that is collected after those of the table: nothing speaks against it, and its key is
not taken. -/
def Accepts (table : MethodTable) (m : Method) : Prop :=
  table.skipReason m = none ∧ Signature.ofMethod m ∉ table.collect.value.keys

instance (table : MethodTable) (m : Method) : Decidable (table.Accepts m) :=
  inferInstanceAs (Decidable (_ ∧ _))

theorem collect_add (table : MethodTable) (m : Method) :
    (table.add m).collect = table.collectStep table.collect m := by
  rw [collect, methods_add, List.foldl_append]
  rfl

theorem collect_add_of_not_accepts (h : ¬ table.Accepts m) :
    (table.add m).collect.value = table.collect.value := by
  rw [collect_add, collectStep]
  split
  · rfl
  · rename_i hskip
    have htaken : Signature.ofMethod m ∈ table.collect.value.keys := by
      by_contra hnew
      exact h ⟨hskip, hnew⟩
    rw [if_pos htaken]

theorem entries_collect_add (h : table.Accepts m) :
    (table.add m).collect.value.entries =
      table.collect.value.entries ++ [(.ofMethod m, m)] := by
  obtain ⟨hskip, hnew⟩ := h
  rw [collect_add, collectStep, hskip]
  dsimp only
  rw [if_neg hnew]
  exact Registry.entries_insert_of_not_mem hnew m

end MethodTable

namespace Signature

variable {m : Method}

/-- The text before a parenthesis is a whole key only if the method has no parameters. -/
theorem text_ofMethod_eq_iff {s : String} (hm : '(' ∉ m.name.toList) (hs : '(' ∉ s.toList) :
    (ofMethod m).text = s ↔ m.params = [] ∧ m.name = s := by
  have hnil : m.params = [] → (ofMethod m).text = m.name := by
    intro hparams
    rw [ofMethod, hparams, parameterList_nil, String.append_empty]
  constructor
  · rintro rfl
    have hparams : m.params = [] := by
      by_contra hparams
      exact hs (hasParams_iff.mp ((hasParams_ofMethod hm).mpr hparams))
    exact ⟨hparams, (hnil hparams).symm⟩
  · rintro ⟨hparams, rfl⟩
    exact hnil hparams

end Signature

namespace Registry

variable {r r' : Registry} {withAliases : Bool} {s : String} {key new : Signature}
  {hook : MethodId} {m : Method} {e e' : Signature × Method}

theorem eq_of_key_eq (he : e ∈ r.entries) (he' : e' ∈ r.entries) (h : e.1 = e'.1) : e = e' :=
  List.inj_on_of_nodup_map r.keys_nodup he he' h

section Append

theorem keys_append (h : r'.entries = r.entries ++ [(new, m)]) : r'.keys = r.keys ++ [new] := by
  rw [keys, h, List.map_append]
  rfl

theorem idKeys_append (h : r'.entries = r.entries ++ [(new, m)]) :
    r'.idKeys = r.idKeys ++ [(.ofNat r.keys.length, new)] := by
  rw [idKeys, keys_append h, List.zipIdx_append, List.map_append, Nat.zero_add]
  rfl

/-- Texts other than a new key and its bare name stand for what they stood for. -/
theorem selects_append_iff (h : r'.entries = r.entries ++ [(new, m)]) (htext : s ≠ new.text)
    (hname : s ≠ new.bareName) :
    r'.Selects withAliases s key ↔ r.Selects withAliases s key := by
  have hmem : ∀ key, key ∈ r'.keys ↔ key ∈ r.keys ∨ key = new := by
    intro key
    rw [keys_append h, List.mem_append, List.mem_singleton]
  have hoverloads : r'.overloadsOf s = r.overloadsOf s := by
    ext other
    simp only [overloadsOf, Set.mem_ofPred_eq, hmem]
    constructor
    · rintro ⟨hold | rfl, hparams, rfl⟩
      · exact ⟨hold, hparams, rfl⟩
      · exact absurd rfl hname
    · rintro ⟨hold, hother⟩
      exact ⟨Or.inl hold, hother⟩
  have hfree : (∀ other ∈ r'.keys, other.text ≠ s) ↔ ∀ other ∈ r.keys, other.text ≠ s := by
    simp only [hmem, or_imp, forall_and, forall_eq]
    exact and_iff_left (Ne.symm htext)
  rw [Selects, Selects, hoverloads, hfree, hmem]
  constructor
  · rintro ⟨hold | rfl, hselects⟩
    · exact ⟨hold, hselects⟩
    · rcases hselects with rfl | ⟨-, -, hsole⟩
      · exact absurd rfl htext
      · exact absurd (of_overloadsOf_eq hsole).2.2.symm hname
  · rintro ⟨hold, hselects⟩
    exact ⟨Or.inl hold, hselects⟩

/-- The ids that they lead to are the same, too. -/
theorem exists_id_append_iff (h : r'.entries = r.entries ++ [(new, m)]) (hnew : new ∉ r.keys)
    (htext : s ≠ new.text) (hname : s ≠ new.bareName) :
    (∃ key, (hook, key) ∈ r'.idKeys ∧ r'.Selects withAliases s key) ↔
      ∃ key, (hook, key) ∈ r.idKeys ∧ r.Selects withAliases s key := by
  simp only [selects_append_iff h htext hname, idKeys_append h, List.mem_append,
    List.mem_singleton, Prod.mk.injEq]
  constructor
  · rintro ⟨key, hid | ⟨-, rfl⟩, hselects⟩
    · exact ⟨key, hid, hselects⟩
    · exact absurd hselects.1 hnew
  · rintro ⟨key, hid, hselects⟩
    exact ⟨key, Or.inl hid, hselects⟩

end Append

end Registry

namespace MethodTable.Admits

variable {table : MethodTable} {r : Registry} {withAliases : Bool} {s : String} {key : Signature}
  {e e' : Signature × Method}

theorem bareName_eq (h : table.Admits r) (he : e ∈ r.entries) : e.1.bareName = e.2.name := by
  obtain ⟨hskip, hown⟩ := h e he
  rw [hown, Signature.bareName_ofMethod (paren_not_mem_name hskip)]

theorem hasParams_iff (h : table.Admits r) (he : e ∈ r.entries) :
    e.1.hasParams = true ↔ e.2.params ≠ [] := by
  obtain ⟨hskip, hown⟩ := h e he
  rw [hown, Signature.hasParams_ofMethod (paren_not_mem_name hskip)]

/-- A name is the key of a hook exactly if the hook has this name and no parameters. -/
theorem text_eq_name_iff (h : table.Admits r) (he : e ∈ r.entries) (he' : e' ∈ r.entries) :
    e'.1.text = e.2.name ↔ e'.2.params = [] ∧ e'.2.name = e.2.name := by
  obtain ⟨hskip, -⟩ := h e he
  obtain ⟨hskip', hown'⟩ := h e' he'
  rw [hown', Signature.text_ofMethod_eq_iff (paren_not_mem_name hskip')
    (paren_not_mem_name hskip)]

theorem mem_overloadsOf (h : table.Admits r) :
    key ∈ r.overloadsOf s ↔ ∃ e ∈ r.entries, e.1 = key ∧ e.2.name = s ∧ e.2.params ≠ [] := by
  constructor
  · rintro ⟨hkey, hparams, hname⟩
    obtain ⟨e, he, rfl⟩ := List.mem_map.mp hkey
    exact ⟨e, he, rfl, (h.bareName_eq he).symm.trans hname, (h.hasParams_iff he).mp hparams⟩
  · rintro ⟨e, he, rfl, hname, hparams⟩
    exact ⟨List.mem_map_of_mem he, (h.hasParams_iff he).mpr hparams,
      (h.bareName_eq he).trans hname⟩

/-- The name of a hook without parameters stands for this hook. -/
theorem selects_key (h : table.Admits r) (he : e ∈ r.entries) (hparams : e.2.params = []) :
    r.Selects withAliases e.2.name e.1 :=
  ⟨List.mem_map_of_mem he, Or.inl ((h.text_eq_name_iff he he).mpr ⟨hparams, rfl⟩)⟩

/-- With aliases a name that only one hook has stands for this hook. -/
theorem selects_sole (h : table.Admits r) (he : e ∈ r.entries)
    (hsole : ∀ e' ∈ r.entries, e'.2.name = e.2.name → e' = e) :
    r.Selects true e.2.name e.1 := by
  by_cases hparams : e.2.params = []
  · exact h.selects_key he hparams
  refine ⟨List.mem_map_of_mem he, Or.inr ⟨rfl, ?_, ?_⟩⟩
  · intro other hother htext
    obtain ⟨e', he', rfl⟩ := List.mem_map.mp hother
    obtain ⟨hparams', hname⟩ := (h.text_eq_name_iff he he').mp htext
    rw [hsole e' he' hname] at hparams'
    exact hparams hparams'
  · rw [Set.eq_singleton_iff_unique_mem]
    refine ⟨h.mem_overloadsOf.mpr ⟨e, he, rfl, rfl, hparams⟩, ?_⟩
    intro other hother
    obtain ⟨e', he', rfl, hname, -⟩ := h.mem_overloadsOf.mp hother
    rw [hsole e' he' hname]

/-- A name that two hooks have, and none without parameters, stands for nothing. -/
theorem not_selects (h : table.Admits r) (he : e ∈ r.entries) (he' : e' ∈ r.entries) (hne : e ≠ e')
    (hname : e'.2.name = e.2.name)
    (hparams : ∀ f ∈ r.entries, f.2.name = e.2.name → f.2.params ≠ []) :
    ¬ r.Selects withAliases e.2.name key := by
  rintro ⟨hkey, htext | ⟨-, -, hsole⟩⟩
  · obtain ⟨f, hf, rfl⟩ := List.mem_map.mp hkey
    obtain ⟨hnil, hsame⟩ := (h.text_eq_name_iff he hf).mp htext
    exact hparams f hf hsame hnil
  · have hfirst := h.mem_overloadsOf.mpr ⟨e, he, rfl, rfl, hparams e he rfl⟩
    have hsecond := h.mem_overloadsOf.mpr ⟨e', he', rfl, hname, hparams e' he' hname⟩
    rw [hsole, Set.mem_singleton_iff] at hfirst hsecond
    exact hne (Registry.eq_of_key_eq he he' (hfirst.trans hsecond.symm))

end MethodTable.Admits

namespace Program

variable {p p' : Program} {r r' : Registry} {withAliases : Bool} {name : Option String}

/-- Two programs have the same resolution of a name. -/
def Alike (p p' : Program) (name : Option String) : Prop :=
  ∃ found, ∀ x, (p.Resolves name x ↔ x = found) ∧ (p'.Resolves name x ↔ x = found)

/-- Programs resolve a name alike if it leads to the same ids. -/
theorem OfKeys.alike (h : p.OfKeys r withAliases) (h' : p'.OfKeys r' withAliases)
    (hsame : ∀ hook, (∃ key, (hook, key) ∈ r'.idKeys ∧ r'.Selects withAliases (name.getD "") key) ↔
      ∃ key, (hook, key) ∈ r.idKeys ∧ r.Selects withAliases (name.getD "") key) :
    p.Alike p' name := by
  obtain ⟨found, hfound⟩ := h.resolves name
  obtain ⟨found', hfound'⟩ := h'.resolves name
  have heq : found' = found := by
    apply Option.ext
    intro hook
    rw [eq_comm, ← hfound', h'.resolves_some, hsame, ← h.resolves_some, hfound, eq_comm]
  rw [heq] at hfound'
  exact ⟨found, fun x => ⟨hfound x, hfound' x⟩⟩

/-- A name that stands for the key of a hook resolves to this hook. -/
theorem OfKeys.resolves_entry (h : p.OfKeys r withAliases) {e : Signature × Method}
    (he : e ∈ r.entries) (hselects : r.Selects withAliases (name.getD "") e.1) :
    ∃ hook, p.hook? hook = some e ∧ p.Resolves name (some hook) := by
  obtain ⟨hook, m, hresolves, hhook⟩ := h.exists_resolves hselects
  have hentry : (e.1, m) ∈ r.entries := by
    rw [← h.hooks_eq]
    exact List.mem_of_getElem? hhook
  rw [Registry.eq_of_key_eq hentry he rfl] at hhook
  exact ⟨hook, hhook, hresolves⟩

end Program

/-- An added method disturbs only its own names. All ids stay, and names other than its key and its
bare name are resolved as before; if it is no hook or its key is taken, all names are. With aliases,
the bare name of a new hook with parameters then stands for the new hook if no other has this name,
for the hook of this name without parameters if there is one, and for nothing if there are only
others with parameters. -/
theorem resolution_of_add {g : Generator} {table : MethodTable} {m : Method}
    (hfits : g.Fits table) (hfits' : g.Fits (table.add m)) :
    ∃ p p', (g.compile table).value = .ok p ∧ (g.compile (table.add m)).value = .ok p' ∧
      p.hooks <+: p'.hooks ∧
      (∀ name, name.getD "" ≠ (Signature.ofMethod m).text →
        name.getD "" ≠ (Signature.ofMethod m).bareName → p.Alike p' name) ∧
      (¬ table.Accepts m → ∀ name, p.Alike p' name) ∧
      (table.Accepts m → m.params ≠ [] → g.config.aliases = true →
        ((∀ e ∈ p.hooks, e.2.name ≠ m.name) →
          ∃ hook, p'.hook? hook = some (.ofMethod m, m) ∧
            p'.Resolves (some m.name) (some hook)) ∧
        (∀ e ∈ p.hooks, e.2.name = m.name → e.2.params = [] →
          ∃ hook, p'.hook? hook = some e ∧ p'.Resolves (some m.name) (some hook)) ∧
        ((∃ e ∈ p.hooks, e.2.name = m.name) →
          (∀ e ∈ p.hooks, e.2.name = m.name → e.2.params ≠ []) →
          p'.Resolves (some m.name) none)) := by
  obtain ⟨p, hp, hkeys⟩ := hfits.exists_program
  obtain ⟨p', hp', hkeys'⟩ := hfits'.exists_program
  refine ⟨p, p', hp, hp', ?_⟩
  rw [hkeys.hooks_eq, hkeys'.hooks_eq]
  by_cases haccepts : table.Accepts m
  · have hadd := MethodTable.entries_collect_add haccepts
    have hadmits := (table.add m).admits_collect
    have hmem : ∀ e, e ∈ (table.add m).collect.value.entries ↔
        e ∈ table.collect.value.entries ∨ e = (.ofMethod m, m) := by
      intro e
      rw [hadd, List.mem_append, List.mem_singleton]
    have hnew := (hmem (.ofMethod m, m)).mpr (Or.inr rfl)
    refine ⟨?_, ?_, fun h => absurd haccepts h, fun _ hparams hwith => ⟨?_, ?_, ?_⟩⟩
    · rw [hadd]
      exact List.prefix_append _ _
    · intro name htext hname
      exact hkeys.alike hkeys' fun hook =>
        Registry.exists_id_append_iff hadd haccepts.2 htext hname
    · intro hother
      have hsole := hadmits.selects_sole hnew fun e he hname =>
        ((hmem e).mp he).resolve_left fun hold => hother e hold hname
      rw [← hwith] at hsole
      exact hkeys'.resolves_entry hnew hsole
    · intro e he hname hnil
      have hold := (hmem e).mpr (Or.inl he)
      have hkey : (table.add m).collect.value.Selects g.config.aliases e.2.name e.1 :=
        hadmits.selects_key hold hnil
      rw [hname] at hkey
      exact hkeys'.resolves_entry hold hkey
    · rintro ⟨e, he, hname⟩ hall
      have hne : (Signature.ofMethod m, m) ≠ e := by
        rintro rfl
        exact haccepts.2 (List.mem_map_of_mem he)
      rw [hkeys'.resolves_none]
      intro key
      refine hadmits.not_selects hnew ((hmem e).mpr (Or.inl he)) hne hname ?_
      intro f hf hsame
      rcases (hmem f).mp hf with hold | rfl
      · exact hall f hold hsame
      · exact hparams
  · rw [MethodTable.collect_add_of_not_accepts haccepts] at hkeys' ⊢
    have halike : ∀ name, p.Alike p' name := fun name => hkeys.alike hkeys' fun _ => Iff.rfl
    exact ⟨List.prefix_rfl, fun name _ _ => halike name, fun _ => halike,
      fun h => absurd h haccepts⟩

namespace Specimen

def third : Method := { second with params := [{ name := "y", element := ⟨"bool"⟩ }] }

end Specimen

/-- The new overload takes the bare name from the old one, and has no part in the other hook. -/
theorem resolution_of_add_specimen :
    (Generator.standard {}).Fits Specimen.table ∧
      (Generator.standard {}).Fits (Specimen.table.add Specimen.third) ∧
      Specimen.table.Accepts Specimen.third ∧
      ∃ p p', ((Generator.standard {}).compile Specimen.table).value = .ok p ∧
        ((Generator.standard {}).compile (Specimen.table.add Specimen.third)).value = .ok p' ∧
        p.Alike p' (some "a") ∧ p'.Resolves (some "ab") none := by
  have hfits : (Generator.standard {}).Fits Specimen.table := by decide +kernel
  have hfits' : (Generator.standard {}).Fits (Specimen.table.add Specimen.third) := by
    decide +kernel
  have haccepts : Specimen.table.Accepts Specimen.third := by decide +kernel
  refine ⟨hfits, hfits', haccepts, ?_⟩
  obtain ⟨p, p', hp, hp', -, hothers, -, hbare⟩ := resolution_of_add hfits hfits'
  obtain ⟨q, hq, hkeys⟩ := hfits.exists_program
  obtain rfl : p = q := Except.ok.inj (hp.symm.trans hq)
  obtain ⟨-, -, hnone⟩ := hbare haccepts (by decide) rfl
  rw [hkeys.hooks_eq] at hnone
  refine ⟨p, p', hp, hp', hothers (some "a") ?_ ?_, hnone ?_ ?_⟩
  · decide +kernel
  · decide +kernel
  · decide +kernel
  · decide +kernel

end HookDispatch
