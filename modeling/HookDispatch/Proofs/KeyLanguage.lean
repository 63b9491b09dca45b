import HookDispatch.Proofs.Specimen
import HookDispatch.Proofs.Trie.Regular
import Mathlib.Data.Set.Card

/-!
The texts that a built trie knows. They are the keys of the registry and, with aliases, the bare
names that belong to exactly one overload and are no keys themselves. A registry may hold any
texts: what is empty, or begins with a parenthesis, decides whether its trie can be built.
-/
namespace HookDispatch

namespace Trie

variable {t t' : Trie}

/-- Keys can be inserted one after the other unless one of them is empty. -/
theorem insertAll_eq_error {keys : List (String × MethodId)} {e : CompileError} :
    t.insertAll keys = .error e ↔ e = .emptyKey ∧ "" ∈ keys.map Prod.fst := by
  induction keys generalizing t with
  | nil => simp [insertAll]
  | cons entry keys ih =>
    rw [insertAll, List.map_cons, List.mem_cons]
    cases hinsert : t.insert entry.1 entry.2 with
    | error e' =>
      obtain ⟨hempty, rfl⟩ := insert_eq_error.mp hinsert
      rw [Except.error.injEq, hempty]
      constructor
      · intro he
        exact ⟨he.symm, Or.inl rfl⟩
      · intro h
        exact h.1.symm
    | ok grown =>
      have hne : "" ≠ entry.1 := by
        intro hempty
        have hrefused : t.insert entry.1 entry.2 = .error .emptyKey :=
          insert_eq_error.mpr ⟨hempty.symm, rfl⟩
        rw [hinsert] at hrefused
        cases hrefused
      simp only [ih, hne, false_or]

/-- Keys that are new and different are all counted. -/
theorem keyCount_insertAll {keys : List (String × MethodId)} (h : t.insertAll keys = .ok t')
    (hnodup : (keys.map Prod.fst).Nodup) (hnew : ∀ s ∈ keys.map Prod.fst, t.get? s = none) :
    t'.keyCount = t.keyCount + keys.length := by
  induction keys generalizing t with
  | nil =>
    rw [insertAll] at h
    cases h
    rfl
  | cons entry keys ih =>
    rw [List.map_cons] at hnodup hnew
    obtain ⟨hfresh, hnodup⟩ := List.nodup_cons.mp hnodup
    rw [insertAll] at h
    split at h
    · cases h
    · rename_i grown hgrown
      have hcount := keyCount_insert hgrown
      rw [hnew entry.1 List.mem_cons_self] at hcount
      have hstill : ∀ s ∈ keys.map Prod.fst, grown.get? s = none := by
        intro s hs
        have hother : s ≠ entry.1 := by
          rintro rfl
          exact hfresh hs
        rw [get?_insert hgrown, if_neg hother]
        exact hnew s (List.mem_cons_of_mem entry.1 hs)
      have hrest := ih h hnodup hstill
      simp only [Option.isNone_none, if_true] at hcount
      rw [List.length_cons]
      omega

end Trie

namespace Signature

theorem hasParams_iff {key : Signature} : key.hasParams = true ↔ '(' ∈ key.text.toList := by
  rw [hasParams, List.contains_iff_mem]

/-- A key with parameters has an empty name exactly if it begins with the parenthesis. -/
theorem bareName_eq_empty_iff {key : Signature} :
    key.hasParams = true ∧ key.bareName = "" ↔ key.text.toList.head? = some '(' := by
  rw [hasParams_iff, bareName, String.ofList_eq_empty_iff, bareChars]
  cases key.text.toList with
  | nil => simp
  | cons c cs =>
    by_cases hc : c = '('
    · simp [hc]
    · simp [hc]

end Signature

namespace Registry

variable (r : Registry)

def overloadsOf (name : String) : Set Signature :=
  {key | key ∈ r.keys ∧ key.hasParams = true ∧ key.bareName = name}

def aliasNames : Set String :=
  {s | (∀ key ∈ r.keys, key.text ≠ s) ∧ ∃ key, r.overloadsOf s = {key}}

variable {r} {id : MethodId} {key : Signature} {s : String} {withAliases : Bool}

theorem mem_keys_of_mem_idKeys (h : (id, key) ∈ r.idKeys) : key ∈ r.keys := by
  rw [← map_snd_idKeys]
  exact List.mem_map_of_mem h

theorem exists_mem_idKeys (h : key ∈ r.keys) : ∃ id, (id, key) ∈ r.idKeys := by
  rw [← map_snd_idKeys, List.mem_map] at h
  obtain ⟨⟨id, key'⟩, hmem, rfl⟩ := h
  exact ⟨id, hmem⟩

theorem idOf?_eq_none_iff : r.idOf? s = none ↔ ∀ key ∈ r.keys, key.text ≠ s := by
  rw [← Option.not_isSome_iff_eq_none, idOf?_isSome]
  simp only [not_exists, not_and, ne_eq]

/-- A key leads to the id at its position. -/
theorem idOf?_of_mem_idKeys (h : (id, key) ∈ r.idKeys) : r.idOf? key.text = some id := by
  obtain ⟨i, hi, rfl⟩ := r.mem_idKeys.mp h
  obtain ⟨hi', hkey⟩ := List.getElem?_eq_some_iff.mp hi
  have hlt : i < r.entries.length := by rwa [keys, List.length_map] at hi'
  have hentry : r.entries[i].1 = key := by simpa [keys] using hkey
  rw [idOf?, Option.map_eq_some_iff]
  refine ⟨i, ?_, rfl⟩
  rw [List.findIdx?_eq_some_iff_getElem]
  refine ⟨hlt, ?_, ?_⟩
  · rw [hentry]
    exact beq_self_eq_true key.text
  · intro j hj htext
    have hjlt : j < r.entries.length := by omega
    have hsame : r.entries[j].1 = key := congrArg Signature.mk (beq_iff_eq.mp htext)
    have hgot : r.keys[j]? = some key := by
      rw [keys, List.getElem?_map, List.getElem?_eq_getElem hjlt, Option.map_some, hsame]
    have hij := (List.getElem?_inj hi' r.nodup_keys).mp (hi.trans hgot.symm)
    omega

/-- A sole overload is a key with parameters and the name before them. -/
theorem of_overloadsOf_eq (hsole : r.overloadsOf s = {key}) :
    key ∈ r.keys ∧ key.hasParams = true ∧ key.bareName = s := by
  have hkey : key ∈ r.overloadsOf s := by
    rw [hsole]
    exact Set.mem_singleton key
  exact hkey

theorem mem_overloads : (id, key) ∈ r.overloads ↔ (id, key) ∈ r.idKeys ∧ key.hasParams = true := by
  rw [overloads, List.mem_filter]

/-- A name is listed once among the overloads exactly if it has one overload. -/
theorem countP_overloads_eq_one (h : (id, key) ∈ r.overloads) :
    r.overloads.countP (·.2.bareName == key.bareName) = 1 ↔ r.overloadsOf key.bareName = {key} := by
  obtain ⟨hid, hparams⟩ := mem_overloads.mp h
  rw [Set.eq_singleton_iff_unique_mem]
  constructor
  · intro hcount
    refine ⟨⟨mem_keys_of_mem_idKeys hid, hparams, rfl⟩, ?_⟩
    rintro other ⟨hother, hotherParams, hname⟩
    obtain ⟨id', hid'⟩ := exists_mem_idKeys hother
    have hlisted := mem_overloads.mpr ⟨hid', hotherParams⟩
    exact congrArg Prod.snd (r.eq_of_alias h hlisted hcount hname)
  · rintro ⟨-, hsole⟩
    have hcongr : r.overloads.countP (·.2.bareName == key.bareName) =
        r.overloads.countP (· == (id, key)) := by
      apply List.countP_congr
      rintro ⟨id', other⟩ hmem
      obtain ⟨hid', hotherParams⟩ := mem_overloads.mp hmem
      rw [beq_iff_eq, beq_iff_eq]
      constructor
      · intro hname
        have hkey := hsole other ⟨mem_keys_of_mem_idKeys hid', hotherParams, hname⟩
        subst hkey
        have hids := (idOf?_of_mem_idKeys hid').symm.trans (idOf?_of_mem_idKeys hid)
        rw [Option.some.inj hids]
      · intro heq
        rw [heq]
    rw [hcongr]
    exact List.count_eq_one_of_mem (r.nodup_idKeys.filter _) h

theorem mem_aliases : (s, id) ∈ r.aliases ↔
    (∀ key ∈ r.keys, key.text ≠ s) ∧ ∃ key, r.overloadsOf s = {key} ∧ (id, key) ∈ r.idKeys := by
  rw [aliases_eq, List.mem_map]
  constructor
  · rintro ⟨⟨id', key⟩, hmem, heq⟩
    cases heq
    rw [List.mem_filter, Bool.and_eq_true, beq_iff_eq, Option.isNone_iff_eq_none,
      idOf?_eq_none_iff] at hmem
    obtain ⟨hlisted, hcount, hnew⟩ := hmem
    exact ⟨hnew, key, (countP_overloads_eq_one hlisted).mp hcount, (mem_overloads.mp hlisted).1⟩
  · rintro ⟨hnew, key, hsole, hid⟩
    obtain ⟨-, hparams, rfl⟩ := of_overloadsOf_eq hsole
    have hlisted := mem_overloads.mpr ⟨hid, hparams⟩
    refine ⟨(id, key), ?_, rfl⟩
    rw [List.mem_filter, Bool.and_eq_true, beq_iff_eq, Option.isNone_iff_eq_none,
      idOf?_eq_none_iff]
    exact ⟨hlisted, (countP_overloads_eq_one hlisted).mpr hsole, hnew⟩

theorem mem_map_fst_aliases : s ∈ r.aliases.map Prod.fst ↔ s ∈ r.aliasNames := by
  rw [List.mem_map]
  constructor
  · rintro ⟨⟨s', id⟩, hmem, rfl⟩
    obtain ⟨hnew, key, hsole, -⟩ := mem_aliases.mp hmem
    exact ⟨hnew, key, hsole⟩
  · rintro ⟨hnew, key, hsole⟩
    obtain ⟨id, hid⟩ := exists_mem_idKeys (of_overloadsOf_eq hsole).1
    exact ⟨(s, id), mem_aliases.mpr ⟨hnew, key, hsole, hid⟩, rfl⟩

/-- Each alias is listed once. -/
theorem length_aliases : r.aliases.length = r.aliasNames.ncard := by
  have hnames : r.aliasNames = ((r.aliases.map Prod.fst).toFinset : Set String) := by
    ext s
    rw [List.coe_toFinset, Set.mem_ofPred_eq, mem_map_fst_aliases]
  rw [hnames, Set.ncard_coe_finset, List.toFinset_card_of_nodup r.nodup_map_fst_aliases,
    List.length_map]

theorem length_idKeys : r.idKeys.length = r.size := by
  rw [idKeys, List.length_map, List.length_zipIdx, keys, List.length_map, size]

theorem mem_trieKeys : (s, id) ∈ r.trieKeys withAliases ↔
    (∃ key, (id, key) ∈ r.idKeys ∧ key.text = s) ∨ withAliases = true ∧ (s, id) ∈ r.aliases := by
  rw [trieKeys, List.mem_append, List.mem_map]
  constructor
  · rintro (⟨⟨id', key⟩, hmem, heq⟩ | halias)
    · cases heq
      exact Or.inl ⟨key, hmem, rfl⟩
    · cases withAliases with
      | false => cases halias
      | true => exact Or.inr ⟨rfl, halias⟩
  · rintro (⟨key, hmem, rfl⟩ | ⟨rfl, halias⟩)
    · exact Or.inl ⟨(id, key), hmem, rfl⟩
    · exact Or.inr halias

/-- One key begins with a parenthesis exactly if the empty name has one overload. -/
theorem overloadsOf_empty_iff : (∃ key, r.overloadsOf "" = {key}) ↔
    ∃! key, key ∈ r.keys ∧ key.text.toList.head? = some '(' := by
  have hset : ∀ key, key ∈ r.overloadsOf "" ↔
      key ∈ r.keys ∧ key.text.toList.head? = some '(' := by
    intro key
    rw [← Signature.bareName_eq_empty_iff]
    exact Iff.rfl
  simp only [Set.eq_singleton_iff_unique_mem, hset, ExistsUnique]

/-- The empty text is listed as a key or as a name. -/
theorem empty_mem_trieKeys : "" ∈ (r.trieKeys withAliases).map Prod.fst ↔
    (∃ key ∈ r.keys, key.text = "") ∨
      withAliases = true ∧ ∃! key, key ∈ r.keys ∧ key.text.toList.head? = some '(' := by
  rw [← overloadsOf_empty_iff, List.mem_map]
  constructor
  · rintro ⟨⟨s, id⟩, hmem, rfl⟩
    rcases mem_trieKeys.mp hmem with ⟨key, hid, htext⟩ | ⟨hwith, halias⟩
    · exact Or.inl ⟨key, mem_keys_of_mem_idKeys hid, htext⟩
    · obtain ⟨-, key, hsole, -⟩ := mem_aliases.mp halias
      exact Or.inr ⟨hwith, key, hsole⟩
  · intro h
    by_cases hkeys : ∃ key ∈ r.keys, key.text = ""
    · obtain ⟨key, hkey, htext⟩ := hkeys
      obtain ⟨id, hid⟩ := exists_mem_idKeys hkey
      exact ⟨("", id), mem_trieKeys.mpr (Or.inl ⟨key, hid, htext⟩), rfl⟩
    · obtain ⟨hwith, hsole⟩ := h.resolve_left hkeys
      have hname : "" ∈ r.aliasNames := by
        refine ⟨?_, hsole⟩
        intro key hkey htext
        exact hkeys ⟨key, hkey, htext⟩
      obtain ⟨⟨_, id⟩, halias, rfl⟩ := List.mem_map.mp (mem_map_fst_aliases.mpr hname)
      exact ⟨("", id), mem_trieKeys.mpr (Or.inr ⟨hwith, halias⟩), rfl⟩

end Registry

/-- Building a trie fails only because of an empty text: an empty key, or the empty name of a sole
key that begins with a parenthesis. A built trie leads every key to its own id, the name of a sole
overload to the id of that overload, and all other texts nowhere; it counts keys and names. -/
theorem trie_language (r : Registry) (withAliases : Bool) :
    (∀ e, Trie.ofRegistry r withAliases = .error e ↔
      e = .emptyKey ∧ ((∃ key ∈ r.keys, key.text = "") ∨
        withAliases = true ∧ ∃! key, key ∈ r.keys ∧ key.text.toList.head? = some '(')) ∧
    ∀ t, Trie.ofRegistry r withAliases = .ok t →
      (∀ key ∈ r.keys, ∃ id, r.idOf? key.text = some id ∧ t.get? key.text = some id) ∧
      (∀ s, (∀ key ∈ r.keys, key.text ≠ s) →
        (∀ key, withAliases = true → r.overloadsOf s = {key} →
          ∃ id, r.idOf? key.text = some id ∧ t.get? s = some id) ∧
        ((withAliases = true → ∀ key, r.overloadsOf s ≠ {key}) → t.get? s = none)) ∧
      t.keyCount = r.size + if withAliases then r.aliasNames.ncard else 0 := by
  constructor
  · intro e
    rw [Trie.ofRegistry, Trie.insertAll_eq_error, Registry.empty_mem_trieKeys]
  · intro t ht
    refine ⟨?_, ?_, ?_⟩
    · intro key hkey
      obtain ⟨id, hid⟩ := Registry.exists_mem_idKeys hkey
      refine ⟨id, Registry.idOf?_of_mem_idKeys hid, ?_⟩
      rw [Trie.get?_ofRegistry ht, Registry.mem_trieKeys]
      exact Or.inl ⟨key, hid, rfl⟩
    · intro s hnew
      constructor
      · intro key hwith hsole
        have hkey := (Registry.of_overloadsOf_eq hsole).1
        obtain ⟨id, hid⟩ := Registry.exists_mem_idKeys hkey
        refine ⟨id, Registry.idOf?_of_mem_idKeys hid, ?_⟩
        rw [Trie.get?_ofRegistry ht, Registry.mem_trieKeys]
        exact Or.inr ⟨hwith, Registry.mem_aliases.mpr ⟨hnew, key, hsole, hid⟩⟩
      · intro hnone
        rw [Option.eq_none_iff_forall_ne_some]
        intro id hget
        rw [Trie.get?_ofRegistry ht, Registry.mem_trieKeys] at hget
        rcases hget with ⟨key, hid, htext⟩ | ⟨hwith, halias⟩
        · exact hnew key (Registry.mem_keys_of_mem_idKeys hid) htext
        · obtain ⟨-, key, hsole, -⟩ := Registry.mem_aliases.mp halias
          exact hnone hwith key hsole
    · have hcount := Trie.keyCount_insertAll ht (r.nodup_map_fst_trieKeys withAliases)
        fun s _ => Trie.get?_empty s
      have hlength : (if withAliases = true then r.aliases else []).length =
          if withAliases = true then r.aliasNames.ncard else 0 := by
        split
        · exact Registry.length_aliases
        · rfl
      have hzero : Trie.empty.keyCount = 0 := rfl
      rw [Registry.trieKeys, List.length_append, List.length_map, Registry.length_idKeys,
        hlength] at hcount
      omega

/-- In the trie of two hooks the bare name of the second leads to it. -/
theorem language_specimen : Specimen.trie.get? "ab(i32)" = some ⟨1⟩ ∧
    Specimen.trie.get? "ab" = some ⟨1⟩ ∧ Specimen.trie.get? "ab(" = none := by
  obtain ⟨-, hbuilt⟩ := trie_language Specimen.registry true
  obtain ⟨hkeys, htexts, -⟩ := hbuilt Specimen.trie Specimen.trie_eq
  have hsole : Specimen.registry.overloadsOf "ab" = {⟨"ab(i32)"⟩} := by
    have honly : ∀ key ∈ Specimen.registry.keys, key.hasParams = true → key = ⟨"ab(i32)"⟩ := by
      decide
    ext key
    constructor
    · rintro ⟨hkey, hparams, -⟩
      exact honly key hkey hparams
    · rintro rfl
      exact ⟨by decide, by decide, by decide⟩
  have hfree : ∀ key, Specimen.registry.overloadsOf "ab(" ≠ {key} := by
    intro key hsole
    obtain ⟨hkey, -, hname⟩ := Registry.of_overloadsOf_eq hsole
    have hother : ∀ key ∈ Specimen.registry.keys, key.bareName ≠ "ab(" := by decide
    exact hother key hkey hname
  refine ⟨?_, ?_, ?_⟩
  · obtain ⟨id, hid, hget⟩ := hkeys ⟨"ab(i32)"⟩ (by decide)
    cases hid
    exact hget
  · obtain ⟨id, hid, hget⟩ := (htexts "ab" (by decide)).1 ⟨"ab(i32)"⟩ rfl hsole
    cases hid
    exact hget
  · exact (htexts "ab(" (by decide)).2 fun _ => hfree

end HookDispatch
