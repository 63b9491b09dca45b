import HookDispatch.Trie.OfRegistry
import Mathlib.Data.List.Basic

/-!
The pass over the bare names finds those with one overload, in the order of the hooks. A tally grows
by one name at a time: a new name goes to the end with its hook, a name read before loses its hook.
-/
namespace HookDispatch

namespace NameTally

variable {names : List (String × MethodId)} {tally : NameTally} {name s : String} {id : MethodId}

/-- The tally has read these names, each with a hook, and kept the hooks of those read once. -/
structure HasRead (tally : NameTally) (names : List (String × MethodId)) : Prop where
  slots_eq_none : ∀ s, tally.slots s = none ↔ s ∉ names.map Prod.fst
  mem_order : ∀ s, s ∈ tally.order ↔ s ∈ names.map Prod.fst
  soles_eq : tally.soles = names.filter fun e => names.countP (·.1 == e.1) == 1

theorem slots_set {slot : Option MethodId} :
    (tally.set name slot).slots s = if s = name then some slot else tally.slots s := rfl

/-- A slot is read for its own name only. -/
theorem soles_set_of_not_mem {slot : Option MethodId} (h : name ∉ tally.order) :
    (tally.set name slot).soles = tally.soles := by
  apply List.filterMap_congr
  intro s hs
  rw [slots_set, if_neg (ne_of_mem_of_not_mem hs h)]

/-- A name whose slot is emptied is left out, and no other. -/
theorem soles_set_none :
    (tally.set name none).soles = tally.soles.filter (·.1 != name) := by
  rw [soles, soles, List.filter_filterMap]
  apply List.filterMap_congr
  intro s _
  rw [slots_set]
  by_cases hs : s = name
  · cases hslot : (tally.slots s).join with
    | none => simp [hs]
    | some id => simp [hs, Option.filter]
  · cases hslot : (tally.slots s).join with
    | none => simp [hs, hslot]
    | some id => simp [hs, hslot, Option.filter]

theorem hasRead_nil : HasRead {} [] := by
  constructor <;> simp [soles]

/-- One more entry under a name leaves the other names' counts as they are. -/
theorem countP_append_of_ne (h : s ≠ name) :
    (names ++ [(name, id)]).countP (·.1 == s) = names.countP (·.1 == s) := by
  simp [h.symm]

theorem countP_append_self :
    (names ++ [(name, id)]).countP (·.1 == name) = names.countP (·.1 == name) + 1 := by
  simp

theorem HasRead.add_new (h : HasRead tally names) (hnew : tally.slots name = none) :
    HasRead (tally.add name id) (names ++ [(name, id)]) := by
  have hfresh : name ∉ names.map Prod.fst := (h.slots_eq_none name).mp hnew
  have hadd : tally.add name id =
      { tally.set name (some id) with order := tally.order ++ [name] } := by
    rw [add, hnew]
  rw [hadd]
  refine ⟨fun s => ?_, fun s => by simp [h.mem_order], ?_⟩
  · rw [slots_set]
    by_cases hs : s = name
    · simp [hs]
    · simp [hs, h.slots_eq_none s]
  · have hcount : names.countP (·.1 == name) = 0 := by
      rw [List.countP_eq_zero]
      intro e he
      simpa using fun hname => hfresh (List.mem_map.mpr ⟨e, he, hname⟩)
    have hold : names.filter (fun e => (names ++ [(name, id)]).countP (·.1 == e.1) == 1) =
        names.filter fun e => names.countP (·.1 == e.1) == 1 := by
      apply List.filter_congr
      intro e he
      rw [countP_append_of_ne (fun hname => hfresh (List.mem_map.mpr ⟨e, he, hname⟩))]
    have hsoles : tally.order.filterMap (fun s =>
        ((tally.set name (some id)).slots s).join.map (s, ·)) = tally.soles :=
      soles_set_of_not_mem fun hmem => hfresh ((h.mem_order name).mp hmem)
    rw [List.filter_append, hold, ← h.soles_eq, soles, List.filterMap_append, hsoles]
    simp [slots_set, hcount]

theorem HasRead.add_known (h : HasRead tally names) {slot : Option MethodId}
    (hknown : tally.slots name = some slot) :
    HasRead (tally.add name id) (names ++ [(name, id)]) := by
  have hmem : name ∈ names.map Prod.fst := by
    by_contra hfresh
    rw [(h.slots_eq_none name).mpr hfresh] at hknown
    cases hknown
  have hadd : tally.add name id = tally.set name none := by
    rw [add, hknown]
  rw [hadd]
  refine ⟨fun s => ?_, fun s => ?_, ?_⟩
  · rw [slots_set]
    by_cases hs : s = name
    · simp [hs]
    · simp [hs, h.slots_eq_none s]
  · change s ∈ tally.order ↔ _
    rw [h.mem_order, List.map_append, List.mem_append]
    refine ⟨Or.inl, ?_⟩
    rintro (hs | hs)
    · exact hs
    · rw [List.map_singleton, List.mem_singleton] at hs
      exact hs ▸ hmem
  · have htwice : (names.countP (·.1 == name) + 1 == 1) = false := by
      obtain ⟨e, he, hname⟩ := List.mem_map.mp hmem
      have hcount : 0 < names.countP (·.1 == name) :=
        List.countP_pos_iff.mpr ⟨e, he, by simpa using hname⟩
      rw [beq_eq_false_iff_ne]
      omega
    rw [soles_set_none, h.soles_eq, List.filter_filter, List.filter_append]
    have hlast : [(name, id)].filter
        (fun e => (names ++ [(name, id)]).countP (·.1 == e.1) == 1) = [] := by
      rw [List.filter_singleton, countP_append_self, htwice, cond_false]
    rw [hlast, List.append_nil]
    apply List.filter_congr
    intro e _
    by_cases hname : e.1 = name
    · rw [hname, countP_append_self, htwice]
      simp
    · rw [countP_append_of_ne hname]
      simp [hname]

theorem HasRead.add (h : HasRead tally names) :
    HasRead (tally.add name id) (names ++ [(name, id)]) := by
  cases hslot : tally.slots name with
  | none => exact h.add_new hslot
  | some slot => exact h.add_known hslot

end NameTally

namespace Registry

variable (r : Registry)

def overloads : List (MethodId × Signature) := r.idKeys.filter (·.2.hasParams)

theorem hasRead_foldl (hooks : List (MethodId × Signature)) {tally : NameTally}
    {names : List (String × MethodId)} (h : tally.HasRead names) :
    (hooks.foldl .read tally).HasRead
      (names ++ (hooks.filter (·.2.hasParams)).map fun (id, key) => (key.bareName, id)) := by
  induction hooks generalizing tally names with
  | nil => simpa using h
  | cons hook hooks ih =>
    rw [List.foldl_cons, NameTally.read]
    cases hparams : hook.2.hasParams with
    | true => simpa [hparams] using ih h.add
    | false => simpa [hparams] using ih h

theorem hasRead_nameTally :
    r.nameTally.HasRead (r.overloads.map fun (id, key) => (key.bareName, id)) :=
  hasRead_foldl r.idKeys NameTally.hasRead_nil

/-- A bare name is an alias if one overload has it and it is no key. -/
theorem aliases_eq : r.aliases =
    (r.overloads.filter fun (_, key) =>
      r.overloads.countP (·.2.bareName == key.bareName) == 1 &&
        (r.idOf? key.bareName).isNone).map fun (id, key) => (key.bareName, id) := by
  rw [aliases, r.hasRead_nameTally.soles_eq, List.filter_filter, List.filter_map]
  congr 1
  apply List.filter_congr
  intro hook _
  simp [List.countP_map, Function.comp_def, Bool.and_comm]

end Registry

end HookDispatch
