import HookDispatch.Proofs.Trie.Sound
import HookDispatch.Proofs.Trie.Aliases

/-!
Looking texts up in a trie. The first hook inserted under a text is found, and nothing else. In
the trie of a registry every text that leads to a hook is listed once, so looking up and being
listed are the same.
-/
namespace HookDispatch

/-- In a list of things with different keys, each is the first with its key. -/
theorem find?_of_nodup_map {α β : Type*} [DecidableEq β] {f : α → β} {things : List α} {a : α}
    (hnodup : (things.map f).Nodup) (hmem : a ∈ things) :
    things.find? (f · == f a) = some a := by
  obtain ⟨b, hfind⟩ : ∃ b, things.find? (f · == f a) = some b := by
    rw [← Option.isSome_iff_exists, List.find?_isSome]
    exact ⟨a, hmem, beq_self_eq_true _⟩
  have hb := List.mem_of_find?_eq_some hfind
  have hkey : f b = f a := by simpa using List.find?_some hfind
  rw [hfind, List.inj_on_of_nodup_map hnodup hb hmem hkey]

namespace Trie

theorem get?_eq (t : Trie) (key : String) : t.get? key = t.edges.get? (Text.bytes key) := by
  unfold get? seek
  cases h : Text.bytes key with
  | nil => simp
  | cons b path => rfl

theorem get?_insert {t t' : Trie} {key : String} {hook : MethodId}
    (h : t.insert key hook = .ok t') (s : String) :
    t'.get? s = if s = key then (t.get? key).or (some hook) else t.get? s := by
  obtain ⟨hkey, hedges, -⟩ := insert_eq_ok h
  rw [get?_eq, get?_eq, get?_eq, hedges, Edges.get?_insert hkey]
  by_cases hs : s = key
  · rw [if_pos hs, if_pos (by rw [hs])]
  · rw [if_neg hs, if_neg fun hbytes => hs (Text.bytes_injective hbytes)]

theorem get?_insertAll {keys : List (String × MethodId)} {t t' : Trie}
    (h : t.insertAll keys = .ok t') (s : String) :
    t'.get? s = (t.get? s).or ((keys.find? (·.1 == s)).map Prod.snd) := by
  induction keys generalizing t with
  | nil =>
    rw [insertAll] at h
    cases h
    simp
  | cons entry keys ih =>
    rw [insertAll] at h
    split at h
    · cases h
    · rename_i grown hgrown
      rw [ih h, get?_insert hgrown]
      by_cases hs : s = entry.1
      · subst hs
        simp
      · rw [if_neg hs, List.find?_cons_of_neg (by simpa using Ne.symm hs)]

theorem get?_empty (s : String) : Trie.empty.get? s = none := by
  rw [get?_eq]
  exact Edges.get?_nil _

end Trie

namespace Registry

variable (r : Registry)

theorem nodup_keys : r.keys.Nodup := r.keys_nodup

theorem map_snd_idKeys : r.idKeys.map Prod.snd = r.keys := by
  rw [idKeys, List.map_map]
  exact List.zipIdx_map_fst 0 r.keys

theorem nodup_idKeys : r.idKeys.Nodup := by
  apply List.Nodup.of_map Prod.snd
  rw [map_snd_idKeys]
  exact r.nodup_keys

theorem mem_idKeys {id : MethodId} {key : Signature} :
    (id, key) ∈ r.idKeys ↔ ∃ i, r.keys[i]? = some key ∧ id = .ofNat i := by
  rw [idKeys, List.mem_map]
  constructor
  · rintro ⟨⟨key', i⟩, hmem, heq⟩
    cases heq
    exact ⟨i, List.mem_zipIdx_iff_getElem?.mp hmem, rfl⟩
  · rintro ⟨i, hkey, rfl⟩
    exact ⟨(key, i), List.mem_zipIdx_iff_getElem?.mpr hkey, rfl⟩

theorem idOf?_isSome {text : String} : (r.idOf? text).isSome ↔ ∃ key ∈ r.keys, key.text = text := by
  rw [idOf?, Option.isSome_map, List.findIdx?_isSome, List.any_eq_true, keys]
  simp

/-- An overload with an alias is the only one with its bare name. -/
theorem eq_of_alias {a b : MethodId × Signature} (ha : a ∈ r.overloads) (hb : b ∈ r.overloads)
    (hcount : r.overloads.countP (·.2.bareName == a.2.bareName) = 1)
    (hname : b.2.bareName = a.2.bareName) : b = a := by
  rw [List.countP_eq_length_filter, List.length_eq_one_iff] at hcount
  obtain ⟨c, hc⟩ := hcount
  have ha' : a ∈ r.overloads.filter (·.2.bareName == a.2.bareName) :=
    List.mem_filter.mpr ⟨ha, by simp⟩
  have hb' : b ∈ r.overloads.filter (·.2.bareName == a.2.bareName) :=
    List.mem_filter.mpr ⟨hb, by simpa using hname⟩
  rw [hc, List.mem_singleton] at ha' hb'
  rw [ha', hb']

theorem nodup_map_fst_aliases : (r.aliases.map Prod.fst).Nodup := by
  rw [aliases_eq, List.map_map]
  apply List.Nodup.map_on
  · intro a ha b hb hname
    rw [List.mem_filter, Bool.and_eq_true, beq_iff_eq] at ha hb
    exact r.eq_of_alias hb.1 ha.1 hb.2.1 hname
  · exact (r.nodup_idKeys.filter _).filter _

/-- The texts that lead to hooks are listed once each. -/
theorem nodup_map_fst_trieKeys (withAliases : Bool) :
    ((r.trieKeys withAliases).map Prod.fst).Nodup := by
  have hkeys : (r.idKeys.map (Signature.text ∘ Prod.snd)).Nodup := by
    rw [← List.map_map, map_snd_idKeys]
    refine r.nodup_keys.map ?_
    rintro ⟨a⟩ ⟨b⟩ h
    exact congrArg Signature.mk h
  rw [trieKeys, List.map_append, List.map_map]
  cases withAliases with
  | false =>
    rw [if_neg Bool.false_ne_true, List.map_nil, List.append_nil]
    exact hkeys
  | true =>
    rw [List.nodup_append]
    refine ⟨hkeys, r.nodup_map_fst_aliases, ?_⟩
    rintro a ha b hb rfl
    rw [List.mem_map] at ha
    rw [if_pos rfl, aliases_eq, List.map_map, List.mem_map] at hb
    obtain ⟨⟨id, key⟩, hkey, rfl⟩ := ha
    obtain ⟨other, hother, hname⟩ := hb
    rw [List.mem_filter, Bool.and_eq_true] at hother
    obtain ⟨i, hi, -⟩ := r.mem_idKeys.mp hkey
    have hsome : (r.idOf? other.2.bareName).isSome := by
      rw [idOf?_isSome]
      exact ⟨key, List.mem_of_getElem? hi, hname.symm⟩
    rw [Option.isNone_iff_eq_none.mp hother.2.2] at hsome
    cases hsome

/-- The hooks that texts lead to are hooks of the registry. -/
theorem mem_trieKeys_id {withAliases : Bool} {s : String} {id : MethodId}
    (h : (s, id) ∈ r.trieKeys withAliases) :
    ∃ i key, r.keys[i]? = some key ∧ id = .ofNat i ∧
      (s = key.text ∨ withAliases = true ∧ s = key.bareName) := by
  rw [trieKeys, List.mem_append, List.mem_map] at h
  rcases h with ⟨⟨id', key⟩, hmem, heq⟩ | halias
  · cases heq
    obtain ⟨i, hi, rfl⟩ := r.mem_idKeys.mp hmem
    exact ⟨i, key, hi, rfl, Or.inl rfl⟩
  · cases withAliases with
    | false => simp at halias
    | true =>
      rw [if_pos rfl, aliases_eq, List.mem_map] at halias
      obtain ⟨⟨id', key⟩, hmem, heq⟩ := halias
      cases heq
      rw [List.mem_filter, overloads, List.mem_filter] at hmem
      obtain ⟨i, hi, rfl⟩ := r.mem_idKeys.mp hmem.1.1
      exact ⟨i, key, hi, rfl, Or.inr ⟨rfl, rfl⟩⟩

end Registry

namespace Trie

/-- A text leads to a hook exactly if the registry lists it with that hook. -/
theorem get?_ofRegistry {r : Registry} {withAliases : Bool} {t : Trie}
    (h : Trie.ofRegistry r withAliases = .ok t) {s : String} {id : MethodId} :
    t.get? s = some id ↔ (s, id) ∈ r.trieKeys withAliases := by
  rw [get?_insertAll h, get?_empty, Option.none_or, Option.map_eq_some_iff]
  constructor
  · rintro ⟨⟨s', id'⟩, hfind, rfl⟩
    obtain rfl : s' = s := by simpa using List.find?_some hfind
    exact List.mem_of_find?_eq_some hfind
  · intro hmem
    exact ⟨(s, id), find?_of_nodup_map (r.nodup_map_fst_trieKeys withAliases) hmem, rfl⟩

theorem reachable_ofRegistry {r : Registry} {withAliases : Bool} {t : Trie}
    (h : Trie.ofRegistry r withAliases = .ok t) : t.Reachable :=
  Reachable.empty.insertAll h

end Trie

end HookDispatch
