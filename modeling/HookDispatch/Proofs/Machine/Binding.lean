import HookDispatch.Machine.Dispatcher
import Mathlib.Data.List.Basic

/-!
Binding invokers. In a table the last invoker bound under a key is found, and a dispatcher has, at
the position of each hook of its program, the invoker found for its key.
-/
namespace HookDispatch

variable {σ : Type}

namespace HookTable

def ofBindings (bindings : List (Signature × Invoker σ)) : HookTable σ :=
  bindings.foldl (fun table binding => table.bind binding.1 binding.2) {}

def lastBound (bindings : List (Signature × Invoker σ)) (key : Signature) : Option (Invoker σ) :=
  (bindings.reverse.find? (·.1 == key)).map Prod.snd

section Rebound
variable {entries : List (Signature × Invoker σ)} {key k : Signature} (invoker : Invoker σ)

theorem find?_rebound (h : entries.any (·.1 == key)) :
    ((entries.map fun (k, old) => if k = key then (k, invoker) else (k, old)).find?
      (·.1 == key)).map Prod.snd = some invoker := by
  induction entries with
  | nil => cases h
  | cons entry entries ih =>
    obtain ⟨k', old⟩ := entry
    rw [List.any_cons, Bool.or_eq_true, beq_iff_eq] at h
    by_cases hkey : k' = key
    · simp [hkey]
    · simpa [hkey] using ih (h.resolve_left hkey)

theorem find?_rebound_of_ne (hk : k ≠ key) :
    ((entries.map fun (k, old) => if k = key then (k, invoker) else (k, old)).find?
      (·.1 == k)).map Prod.snd = (entries.find? (·.1 == k)).map Prod.snd := by
  induction entries with
  | nil => rfl
  | cons entry entries ih =>
    obtain ⟨k', old⟩ := entry
    by_cases hk' : k' = k
    · subst hk'
      simp [hk]
    · by_cases hkey : k' = key
      · subst hkey
        simpa [Ne.symm hk] using ih
      · simpa [hk', hkey] using ih

end Rebound

theorem get?_bind (table : HookTable σ) (key k : Signature) (invoker : Invoker σ) :
    (table.bind key invoker).get? k = if k = key then some invoker else table.get? k := by
  rw [bind]
  split
  · rename_i hbound
    by_cases hk : k = key
    · subst hk
      rw [if_pos rfl]
      exact find?_rebound invoker hbound
    · rw [if_neg hk]
      exact find?_rebound_of_ne invoker hk
  · rename_i hfree
    have hnone : table.entries.find? (·.1 == key) = none :=
      List.find?_eq_none.mpr fun entry hmem hkey =>
        hfree (List.any_eq_true.mpr ⟨entry, hmem, hkey⟩)
    by_cases hk : k = key
    · subst hk
      simp [get?, List.find?_append, hnone]
    · simp [get?, List.find?_append, hk, Ne.symm hk]

/-- Later bindings replace earlier ones. -/
theorem get?_ofBindings (bindings : List (Signature × Invoker σ)) (key : Signature) :
    (ofBindings bindings).get? key = lastBound bindings key := by
  have hfold : ∀ table : HookTable σ,
      (bindings.foldl (fun table binding => table.bind binding.1 binding.2) table).get? key =
        (lastBound bindings key).or (table.get? key) := by
    intro table
    induction bindings generalizing table with
    | nil => rfl
    | cons binding bindings ih =>
      rw [List.foldl_cons, ih, get?_bind, lastBound, lastBound, List.reverse_cons,
        List.find?_append]
      by_cases hk : key = binding.1
      · subst hk
        cases bindings.reverse.find? (·.1 == binding.1) <;> simp
      · cases bindings.reverse.find? (·.1 == key) <;> simp [hk, Ne.symm hk]
  rw [ofBindings, hfold]
  exact Option.or_none

theorem isSome_lastBound {bindings : List (Signature × Invoker σ)} {key : Signature}
    (h : key ∈ bindings.map Prod.fst) : (lastBound bindings key).isSome := by
  obtain ⟨binding, hmem, rfl⟩ := List.mem_map.mp h
  rw [lastBound, Option.isSome_map, List.find?_isSome]
  exact ⟨binding, List.mem_reverse.mpr hmem, beq_self_eq_true _⟩

end HookTable

namespace Dispatcher

theorem bindAll_ok {table : HookTable σ} {keys : List Signature}
    (h : ∀ key ∈ keys, (table.get? key).isSome) :
    ∃ invokers, bindAll table keys = .ok invokers := by
  induction keys with
  | nil => exact ⟨[], rfl⟩
  | cons key keys ih =>
    obtain ⟨invoker, hinvoker⟩ := Option.isSome_iff_exists.mp (h key List.mem_cons_self)
    obtain ⟨invokers, hrest⟩ := ih fun k hmem => h k (List.mem_cons_of_mem key hmem)
    exact ⟨invoker :: invokers, by rw [bindAll, hinvoker]; simp only [hrest]; rfl⟩

theorem isSome_of_bindAll {table : HookTable σ} {keys : List Signature}
    {invokers : List (Invoker σ)} (h : bindAll table keys = .ok invokers) :
    ∀ key ∈ keys, (table.get? key).isSome := by
  induction keys generalizing invokers with
  | nil => exact fun key hmem => absurd hmem List.not_mem_nil
  | cons key keys ih =>
    rw [bindAll] at h
    split at h
    · cases h
    · rename_i invoker hinvoker
      cases hrest : bindAll table keys with
      | error e =>
        rw [hrest] at h
        cases h
      | ok rest =>
        intro k hmem
        rcases List.mem_cons.mp hmem with rfl | hmem
        · rw [hinvoker]
          rfl
        · exact ih hrest k hmem

theorem getElem?_bindAll {table : HookTable σ} {keys : List Signature}
    {invokers : List (Invoker σ)} (h : bindAll table keys = .ok invokers) (i : Nat) :
    invokers[i]? = keys[i]?.bind table.get? := by
  induction keys generalizing invokers i with
  | nil =>
    cases h
    rfl
  | cons key keys ih =>
    rw [bindAll] at h
    split at h
    · cases h
    · rename_i invoker hinvoker
      cases hrest : bindAll table keys with
      | error e =>
        rw [hrest] at h
        cases h
      | ok rest =>
        rw [hrest] at h
        cases h
        cases i with
        | zero => exact hinvoker.symm
        | succ i => exact ih hrest i

/-- A dispatcher has the program and, for each of its hooks, the invoker of its key. -/
theorem ofProgram_eq_ok {p : Program} {table : HookTable σ} {d : Dispatcher σ}
    (h : ofProgram p table = .ok d) :
    d.program = p ∧
      ∀ i : Nat, d.invokers[i]? = (p.hooks[i]?).bind fun entry => table.get? entry.1 := by
  rw [ofProgram] at h
  cases hbind : bindAll table (p.hooks.map Prod.fst) with
  | error e =>
    rw [hbind] at h
    cases h
  | ok invokers =>
    rw [hbind] at h
    cases h
    refine ⟨rfl, fun i => ?_⟩
    rw [List.getElem?_toArray, getElem?_bindAll hbind, List.getElem?_map]
    cases p.hooks[i]? <;> rfl

/-- The keys of a dispatcher's program are bound. -/
theorem isSome_of_ofProgram {p : Program} {table : HookTable σ} {d : Dispatcher σ}
    (h : ofProgram p table = .ok d) : ∀ entry ∈ p.hooks, (table.get? entry.1).isSome := by
  rw [ofProgram] at h
  cases hbind : bindAll table (p.hooks.map Prod.fst) with
  | error e =>
    rw [hbind] at h
    cases h
  | ok invokers =>
    intro entry hentry
    exact isSome_of_bindAll hbind entry.1 (List.mem_map_of_mem hentry)

theorem ofProgram_ok {p : Program} {table : HookTable σ}
    (h : ∀ entry ∈ p.hooks, (table.get? entry.1).isSome) : ∃ d, ofProgram p table = .ok d := by
  have hkeys : ∀ key ∈ p.hooks.map Prod.fst, (table.get? key).isSome := by
    intro key hmem
    obtain ⟨entry, hentry, rfl⟩ := List.mem_map.mp hmem
    exact h entry hentry
  obtain ⟨invokers, hbind⟩ := bindAll_ok hkeys
  exact ⟨⟨p, invokers.toArray⟩, by rw [ofProgram, hbind]; rfl⟩

end Dispatcher

end HookDispatch
