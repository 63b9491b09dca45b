import HookDispatch.Program.Compile
import HookDispatch.Proofs.Trie.Growth

/-!
The tries that programs are compiled from. They grow from the empty trie by insertions, and every
compilation leaves marks on them. Node numbers never clash, every path leads to a hook, and the
bytes on the way to a hook spell a text.
-/
namespace HookDispatch.Trie

/-- Grown from the empty trie by insertions and compilations, in any order. -/
inductive Reachable : Trie → Prop
  | empty : Reachable Trie.empty
  | insert {t t' : Trie} {key : String} {hook : MethodId} (ht : Reachable t)
      (hinsert : t.insert key hook = .ok t') : Reachable t'
  | compile {t : Trie} (r : Registry) (collapse : Bool) (typeName : String) (ht : Reachable t) :
      Reachable (t.compile r collapse typeName).1

/-- What holds of every trie that programs are compiled from. -/
structure Sound (t : Trie) : Prop where
  numbers_nodup : t.edges.numbers.Nodup
  numbers_lt : ∀ n : Nat, n ∈ t.edges.numbers → n < t.size
  productive : t.edges.Productive
  spelled : ∀ path hook, (path, hook) ∈ t.edges.terminals → ∃ key, Text.bytes key = path

theorem bytes_ne_nil {key : String} (h : key.isEmpty = false) : Text.bytes key ≠ [] := by
  intro hnil
  rw [Text.bytes_eq_nil_iff] at hnil
  subst hnil
  simp at h

/-- An insertion is refused for the empty key only. -/
theorem insert_eq_ok {t t' : Trie} {key : String} {hook : MethodId}
    (h : t.insert key hook = .ok t') :
    Text.bytes key ≠ [] ∧ t'.edges = t.edges.insert t.size hook (Text.bytes key) ∧
      t'.size = t.size + t.edges.missing (Text.bytes key) := by
  rw [insert] at h
  split at h
  · cases h
  · rename_i hkey
    cases h
    exact ⟨bytes_ne_nil (by simpa using hkey), rfl, rfl⟩

@[simp]
theorem edges_compile (t : Trie) (r : Registry) (collapse : Bool) (typeName : String) :
    (t.compile r collapse typeName).1.edges = t.edges := by
  rw [compile]
  split <;> rfl

@[simp]
theorem size_compile (t : Trie) (r : Registry) (collapse : Bool) (typeName : String) :
    (t.compile r collapse typeName).1.size = t.size := by
  rw [compile]
  split <;> rfl

theorem sound_empty : Trie.empty.Sound where
  numbers_nodup := List.nodup_nil
  numbers_lt := fun _ h => absurd h List.not_mem_nil
  productive := trivial
  spelled := fun _ _ h => absurd h List.not_mem_nil

theorem Sound.insert {t t' : Trie} {key : String} {hook : MethodId} (ht : t.Sound)
    (h : t.insert key hook = .ok t') : t'.Sound := by
  obtain ⟨hkey, hedges, hsize⟩ := insert_eq_ok h
  have hperm : t'.edges.numbers.Perm
      (t.edges.numbers ++ List.range' t.size (t.edges.missing (Text.bytes key))) := by
    rw [hedges]
    exact Edges.numbers_insert (Text.bytes key) t.edges
  refine ⟨?_, ?_, ?_, ?_⟩
  · rw [hperm.nodup_iff, List.nodup_append]
    refine ⟨ht.numbers_nodup, List.nodup_range', ?_⟩
    intro a ha b hb hab
    subst hab
    have hlt := ht.numbers_lt a ha
    have hge := (List.mem_range'_1.mp hb).1
    exact absurd hlt (Nat.not_lt.mpr hge)
  · intro n hn
    rw [hperm.mem_iff, List.mem_append, List.mem_range'_1] at hn
    rw [hsize]
    rcases hn with hold | hnew
    · exact Nat.lt_add_right _ (ht.numbers_lt n hold)
    · exact hnew.2
  · rw [hedges]
    exact Edges.productive_insert ht.productive
  · intro path h hmem
    rw [hedges] at hmem
    rcases Edges.mem_terminals_insert hmem with hold | ⟨rfl, rfl⟩
    · exact ht.spelled path h hold
    · exact ⟨key, rfl⟩

theorem Sound.compile {t : Trie} (ht : t.Sound) (r : Registry) (collapse : Bool)
    (typeName : String) : (t.compile r collapse typeName).1.Sound := by
  refine ⟨?_, ?_, ?_, ?_⟩
  · rw [edges_compile]
    exact ht.numbers_nodup
  · rw [edges_compile, size_compile]
    exact ht.numbers_lt
  · rw [edges_compile]
    exact ht.productive
  · rw [edges_compile]
    exact ht.spelled

theorem Reachable.sound {t : Trie} (ht : t.Reachable) : t.Sound := by
  induction ht with
  | empty => exact sound_empty
  | insert _ hinsert ih => exact ih.insert hinsert
  | compile r collapse typeName _ ih => exact ih.compile r collapse typeName

theorem Reachable.insertAll {keys : List (String × MethodId)} {t t' : Trie} (ht : t.Reachable)
    (h : t.insertAll keys = .ok t') : t'.Reachable := by
  induction keys generalizing t with
  | nil =>
    rw [Trie.insertAll] at h
    cases h
    exact ht
  | cons entry keys ih =>
    rw [Trie.insertAll] at h
    split at h
    · cases h
    · rename_i grown hgrown
      exact ih (ht.insert hgrown) h

end HookDispatch.Trie
