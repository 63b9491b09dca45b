import HookDispatch.Proofs.Program.Targets
import HookDispatch.Proofs.Trie.Lookup
import Mathlib.Data.List.Perm.Subperm

/-!
The hooks of the trie of a registry. Each of them was inserted under a text that the registry lists,
and a program has an operation for each, so that in a program whose positions have labels the ids of
hooks are their positions in the registry.
-/
namespace HookDispatch

namespace Trie

theorem mem_terminals_insertAll {keys : List (String × MethodId)} {t t' : Trie}
    (h : t.insertAll keys = .ok t') {path : List UInt8} {hook : MethodId}
    (hmem : (path, hook) ∈ t'.edges.terminals) :
    (path, hook) ∈ t.edges.terminals ∨ ∃ key, (key, hook) ∈ keys ∧ Text.bytes key = path := by
  induction keys generalizing t with
  | nil =>
    rw [insertAll] at h
    cases h
    exact Or.inl hmem
  | cons entry keys ih =>
    rw [insertAll] at h
    split at h
    · cases h
    · rename_i grown hgrown
      obtain ⟨-, hedges, -⟩ := insert_eq_ok hgrown
      rcases ih h with hold | ⟨key, hkey, hpath⟩
      · rw [hedges] at hold
        rcases Edges.mem_terminals_insert hold with hold | ⟨rfl, rfl⟩
        · exact Or.inl hold
        · exact Or.inr ⟨entry.1, List.mem_cons_self, rfl⟩
      · exact Or.inr ⟨key, List.mem_cons_of_mem entry hkey, hpath⟩

end Trie

namespace Edges

/-- Every hook of a group has operations of its own. -/
theorem length_terminals_le (r : Registry) (collapse : Bool) (path : List UInt8) (edges : Edges) :
    edges.terminals.length ≤ (edges.emit r collapse path).length := by
  induction edges generalizing path with
  | nil => exact Nat.zero_le _
  | cons id byte terminal below rest ihBelow ihRest =>
    have hinside : terminal.toList.length + below.terminals.length ≤
        3 + (below.emitInside r collapse (path ++ [byte]) id terminal).length := by
      have hbelow := ihBelow (path ++ [byte])
      unfold emitInside
      split
      · rename_i leaf hleaf
        split at hleaf
        · rename_i hcollapse
          rw [Bool.and_eq_true, Option.isNone_iff_eq_none] at hcollapse
          rw [hcollapse.2, terminals_of_soleLeaf hleaf]
          simp only [Option.toList_none, List.length_nil, List.length_singleton]
          omega
        · cases hleaf
      · cases hfirst : below.first? with
        | none =>
          rw [eq_nil_of_first?_eq_none hfirst]
          cases terminal <;> simp [terminals]
          omega
        | some first =>
          cases terminal <;> simp [Emission.ofItems] <;> omega
    have hrest := ihRest path
    rw [emit_cons, terminals]
    simp only [List.length_append, List.length_map, Emission.ofItems, testItems, List.length_cons,
      List.length_nil]
    omega

end Edges

namespace Trie

variable {r : Registry} {withAliases : Bool} {t : Trie}

/-- Different keys of a registry lead to different hooks of its trie. -/
theorem size_le_terminals (h : Trie.ofRegistry r withAliases = .ok t) :
    r.size ≤ t.edges.terminals.length := by
  have hnodup : (r.keys.map fun key => Text.bytes key.text).Nodup := by
    refine r.nodup_keys.map ?_
    rintro ⟨a⟩ ⟨b⟩ hab
    exact congrArg Signature.mk (Text.bytes_injective hab)
  have hsubset : (r.keys.map fun key => Text.bytes key.text) ⊆ t.edges.terminals.map Prod.fst := by
    intro path hpath
    obtain ⟨key, hkey, rfl⟩ := List.mem_map.mp hpath
    obtain ⟨i, hi⟩ := List.mem_iff_getElem?.mp hkey
    have hlisted : (key.text, MethodId.ofNat i) ∈ r.trieKeys withAliases := by
      rw [Registry.trieKeys, List.mem_append, List.mem_map]
      exact Or.inl ⟨(.ofNat i, key), r.mem_idKeys.mpr ⟨i, hi, rfl⟩, rfl⟩
    have hfound := (get?_ofRegistry h).mpr hlisted
    rw [get?_eq] at hfound
    exact List.mem_map.mpr ⟨_, Edges.mem_terminals_of_get? hfound, rfl⟩
  have hlength := (List.subperm_of_subset hnodup hsubset).length_le
  rw [List.length_map, List.length_map, Registry.keys, List.length_map] at hlength
  exact hlength

theorem size_le_emit (h : Trie.ofRegistry r withAliases = .ok t) (collapse : Bool) :
    r.size ≤ (t.emit r collapse).length := by
  have hterminals := size_le_terminals h
  have hgroup := t.edges.length_terminals_le r collapse []
  rw [emit, List.length_append, List.length_append]
  split
  · rename_i hnone
    rw [Edges.eq_nil_of_first?_eq_none (Option.isNone_iff_eq_none.mp hnone)] at hterminals
    exact Nat.le_trans hterminals (Nat.zero_le _)
  · rw [List.length_append]
    omega

end Trie

theorem MethodId.toNat_ofNat {n : Nat} (h : n < UInt32.size) : (MethodId.ofNat n).toNat = n := by
  unfold ofNat toNat
  rw [Nat.toUInt32, UInt32.toNat_ofNat']
  exact Nat.mod_eq_of_lt h

namespace Registry

variable {r : Registry} {withAliases : Bool}

/-- The ids of not too many hooks are their positions. -/
theorem get?_ofNat {i : Nat} (hsize : r.size ≤ UInt32.size) (hi : i < r.size) :
    r.get? (.ofNat i) = r.entries[i]? := by
  rw [get?, MethodId.toNat_ofNat (Nat.lt_of_lt_of_le hi hsize)]

/-- A text that leads to a hook is its key, or its bare name. -/
theorem get?_of_mem_trieKeys (hsize : r.size ≤ UInt32.size) {s : String} {hook : MethodId}
    (h : (s, hook) ∈ r.trieKeys withAliases) :
    ∃ key m, r.get? hook = some (key, m) ∧
      (s = key.text ∨ withAliases = true ∧ s = key.bareName) := by
  obtain ⟨i, key, hi, rfl, hs⟩ := r.mem_trieKeys_id h
  rw [keys, List.getElem?_map, Option.map_eq_some_iff] at hi
  obtain ⟨⟨key', m⟩, hentry, rfl⟩ := hi
  have hlt : i < r.size := (List.getElem?_eq_some_iff.mp hentry).1
  exact ⟨key', m, by rw [get?_ofNat hsize hlt, hentry], hs⟩

end Registry

/-- The hooks of a trie can be called if none of the registry returns a type parameter. -/
theorem Trie.callable_ofRegistry {r : Registry} {withAliases : Bool} {t : Trie}
    (h : Trie.ofRegistry r withAliases = .ok t) (hsize : r.size ≤ UInt32.size)
    (hgeneric : ∀ entry ∈ r.entries, entry.2.ret.isGeneric = false) :
    ∀ path hook, (path, hook) ∈ t.edges.terminals → r.Callable hook := by
  intro path hook hmem
  rcases mem_terminals_insertAll h hmem with hold | ⟨s, hlisted, -⟩
  · exact absurd hold List.not_mem_nil
  · obtain ⟨key, m, hget, -⟩ := Registry.get?_of_mem_trieKeys hsize hlisted
    exact ⟨key, m, hget, hgeneric _ (List.mem_of_getElem? hget)⟩

end HookDispatch
