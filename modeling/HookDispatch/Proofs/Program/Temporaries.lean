import HookDispatch.Proofs.Program.Layout

/-!
The number of temporaries of a program. Every call begins with no temporary in use and fills one for
each borrowing parameter, so the program needs as many as the call with the most of them. This
depends on the hooks of the trie only, not on the code that leads to their calls.
-/
namespace HookDispatch

def Registry.borrowing (r : Registry) (hook : MethodId) : Nat :=
  ((r.get? hook).map (·.2.borrowCount)).getD 0

def Registry.demand (r : Registry) (hooks : List (List UInt8 × MethodId)) : Nat :=
  hooks.foldr (fun entry n => max (r.borrowing entry.2) n) 0

namespace Registry

variable {r : Registry}

theorem Calls.borrowing_eq {hook : MethodId} {key : Signature} {m : Method}
    (h : r.Calls hook key m) : r.borrowing hook = m.borrowCount := by
  rw [borrowing, h.get?_eq]
  rfl

theorem demand_cons (entry : List UInt8 × MethodId) (hooks : List (List UInt8 × MethodId)) :
    r.demand (entry :: hooks) = max (r.borrowing entry.2) (r.demand hooks) := rfl

theorem demand_append (a b : List (List UInt8 × MethodId)) :
    r.demand (a ++ b) = max (r.demand a) (r.demand b) := by
  induction a with
  | nil => exact (Nat.zero_max _).symm
  | cons entry a ih => rw [List.cons_append, demand_cons, demand_cons, ih, Nat.max_assoc]

/-- What leads to the hooks does not matter. -/
theorem demand_map_path (f : List UInt8 → List UInt8) (hooks : List (List UInt8 × MethodId)) :
    r.demand (hooks.map (Prod.map f id)) = r.demand hooks := by
  induction hooks with
  | nil => rfl
  | cons entry hooks ih => rw [List.map_cons, demand_cons, demand_cons, ih, Prod.map_snd, id]

theorem le_demand {hooks : List (List UInt8 × MethodId)} {entry : List UInt8 × MethodId}
    (h : entry ∈ hooks) : r.borrowing entry.2 ≤ r.demand hooks := by
  induction hooks with
  | nil => cases h
  | cons first hooks ih =>
    rw [demand_cons]
    rcases List.mem_cons.mp h with rfl | h
    · exact Nat.le_max_left _ _
    · exact Nat.le_trans (ih h) (Nat.le_max_right _ _)

end Registry

section Demand
variable {rest : List Operation}

theorem tempDemand_unpackFrom (inUse index temp : Nat) (ps : List Parameter) :
    tempDemand inUse (Method.unpackFrom index temp ps ++ rest) =
      tempDemand (inUse + ps.countP Parameter.isBorrowing) rest := by
  induction ps generalizing inUse index temp with
  | nil => rfl
  | cons p ps ih =>
    rw [Method.unpackFrom]
    by_cases h : p.isBorrowing = true
    · rw [if_pos h, List.countP_cons_of_pos h, ← Nat.add_assoc, Nat.add_right_comm]
      exact ih (inUse + 1) (index + 1) (temp + 1)
    · rw [if_neg h, List.countP_cons_of_neg h]
      exact ih inUse (index + 1) temp

/-- Operations that fill no temporaries and call nothing. -/
theorem tempDemand_idle (inUse : Nat) (rest : List Operation) {seg : List Operation}
    (h : ∀ op ∈ seg, (∀ hook, op ≠ .call hook) ∧ ∀ i type temp, op ≠ .unboxTemp i type temp) :
    tempDemand inUse (seg ++ rest) = tempDemand inUse rest := by
  induction seg with
  | nil => rfl
  | cons op seg ih =>
    have htail := ih fun op' hmem => h op' (List.mem_cons_of_mem op hmem)
    obtain ⟨hcall, hfill⟩ := h op List.mem_cons_self
    cases op with
    | call hook => exact absurd rfl (hcall hook)
    | unboxTemp i type temp => exact absurd rfl (hfill i type temp)
    | _ => exact htail

theorem tempDemand_callSequence (m : Method) (hook : MethodId) :
    tempDemand 0 (m.callSequence hook ++ rest) = max m.borrowCount (tempDemand 0 rest) := by
  have hidle : ∀ op ∈ m.storeReturn ++ Method.writeBackFrom 0 0 m.params ++
      [.setHandled true, .ret],
      (∀ hook, op ≠ .call hook) ∧ ∀ i type temp, op ≠ .unboxTemp i type temp := by
    intro op hop
    rw [List.mem_append, List.mem_append] at hop
    rcases hop with (hstore | hback) | hend
    · obtain ⟨type, boxed, rfl⟩ := Method.mem_storeReturn hstore
      simp
    · obtain ⟨i, temp, type, rfl⟩ := Method.mem_writeBackFrom hback
      simp
    · simp only [List.mem_cons, List.not_mem_nil, or_false] at hend
      rcases hend with rfl | rfl <;> simp
  rw [Method.callSequence, List.append_assoc, List.append_assoc, List.append_assoc,
    List.append_assoc, tempDemand_unpackFrom, Nat.zero_add]
  have hcall := tempDemand_idle 0 rest hidle
  rw [List.append_assoc, List.append_assoc] at hcall
  exact congrArg (max m.borrowCount) hcall

theorem operation_callItems (m : Method) (hook : MethodId) :
    (m.callItems hook).map Item.operation = m.callSequence hook :=
  map_callItems (fun _ => rfl) m hook

end Demand

namespace Edges

variable {r : Registry} {collapse : Bool} {path : List UInt8} {edges : Edges} {items : List Item}

theorem tempDemand_test (id : NodeId) (byte : UInt8) (group : Edges) (a tail items : List Item)
    (rest : List Operation) (ha : ∀ more, tempDemand 0 (a.map Item.operation ++ more) =
      tempDemand 0 more) :
    tempDemand 0 ((testItems id byte group ++ (a ++ tail) ++ items).map Item.operation ++ rest) =
      tempDemand 0 (tail.map Item.operation ++ (items.map Item.operation ++ rest)) := by
  simp only [List.map_append, List.append_assoc]
  exact ha _

/-- The calls in the code of a group are those of its hooks. -/
theorem Emitted.tempDemand (h : Emitted r collapse path edges items) (rest : List Operation) :
    tempDemand 0 (items.map Item.operation ++ rest) =
      max (r.demand edges.terminals) (HookDispatch.tempDemand 0 rest) := by
  induction h generalizing rest with
  | nil => exact (Nat.zero_max _).symm
  | collapsed _ hleaf hcalls _ ih =>
    rw [tempDemand_test _ _ _ _ _ _ _ fun _ => rfl, operation_callItems, tempDemand_callSequence,
      ih, terminals, terminals_of_soleLeaf hleaf, Registry.demand_append, Registry.demand_append,
      Registry.demand_map_path, Registry.demand_cons, hcalls.borrowing_eq]
    simp [Registry.demand, Nat.max_assoc]
  | leaf hcalls _ ih =>
    rw [tempDemand_test _ _ _ _ _ _ _ fun _ => rfl, operation_callItems, tempDemand_callSequence,
      ih, terminals, Registry.demand_append, Registry.demand_append]
    simp [Registry.demand, terminals, hcalls.borrowing_eq, Nat.max_assoc]
  | inner _ hcalls _ _ ihBelow ihRest =>
    rw [List.append_assoc _ (Method.callItems _ _), tempDemand_test _ _ _ _ _ _ _ fun _ => rfl,
      List.map_append, List.append_assoc, operation_callItems, tempDemand_callSequence, ihBelow,
      ihRest, terminals, Registry.demand_append, Registry.demand_append, Registry.demand_map_path]
    simp [Registry.demand, hcalls.borrowing_eq, Nat.max_assoc]
  | passing _ _ _ _ ihBelow ihRest =>
    rw [tempDemand_test _ _ _ _ _ _ _ fun _ => rfl, ihBelow, ihRest, terminals,
      Registry.demand_append, Registry.demand_append, Registry.demand_map_path]
    simp [Registry.demand, Nat.max_assoc]

end Edges

/-- A program needs the temporaries of the most demanding hook of its trie. -/
theorem Layout.temps_eq {t : Trie} {r : Registry} {collapse : Bool} {p : Program}
    (L : Layout t r collapse p) : p.temps = r.demand t.edges.terminals := by
  have hopening : ∀ rest, tempDemand 0 (t.opening.map Item.operation ++ rest) =
      tempDemand 0 rest := by
    intro rest
    rw [Trie.opening]
    split <;> rfl
  rw [L.temps, Trie.methodItems, List.map_append, List.map_append, List.append_assoc, hopening,
    L.emitted.tempDemand]
  exact Nat.max_zero _

end HookDispatch
