import HookDispatch.Program.Compile
import HookDispatch.Proofs.Program.Targets

/-!
Patching emitted items. The queue holds every branch once, at its own position, so each is patched
when its turn comes and keeps its target. Positions beyond 32 bits have no label: a branch there is
never patched, and the final look for pending branches finds it.
-/
namespace HookDispatch

def Item.patched (place : JumpTarget → Label) : Item → Operation
  | plain op => op
  | jump c t => .branch c (place t)
  | entry _ => .loadByte

def jumpsFrom (start : Nat) (items : List Item) : List PendingJump :=
  (items.zipIdx start).filterMap fun (item, i) => item.target?.map (⟨.ofNat i, ·⟩)

theorem jumpsFrom_cons (start : Nat) (item : Item) (items : List Item) :
    jumpsFrom start (item :: items) =
      (item.target?.map (⟨.ofNat start, ·⟩ : JumpTarget → PendingJump)).toList ++
        jumpsFrom (start + 1) items := by
  rw [jumpsFrom, List.zipIdx_cons, List.filterMap_cons]
  cases item <;> rfl

namespace PendingJump

variable {firstOp : NodeId → Option Label} {epilogue : Label}

theorem destination_node {op l : Label} {id : NodeId} (h : firstOp id = some l) :
    destination ⟨op, .node id⟩ firstOp epilogue = .ok l := by
  simp only [destination, h]

theorem modify_at (pre suf : List Operation) (op : Operation) (f : Operation → Operation) :
    (pre ++ op :: suf).toArray.modify pre.length f = (pre ++ f op :: suf).toArray := by
  rw [List.modify_toArray]
  congr 1
  induction pre with
  | nil => rfl
  | cons x pre ih => exact congrArg (x :: ·) ih

/-- One queued branch gets its target, and nothing else changes. -/
theorem patch_at (pre suf : List Operation) {c : Condition} {t : JumpTarget} {l : Label}
    (hlabel : (Label.ofNat pre.length).toNat = pre.length)
    (hdest : destination ⟨.ofNat pre.length, t⟩ firstOp epilogue = .ok l) :
    patch ⟨.ofNat pre.length, t⟩ firstOp epilogue (pre ++ .branch c .pending :: suf).toArray =
      .ok (pre ++ .branch c l :: suf).toArray := by
  have hop : (pre ++ Operation.branch c .pending :: suf).toArray[pre.length]? =
      some (.branch c .pending) := by simp
  have hfree :
      obstacle ⟨.ofNat pre.length, t⟩ (pre ++ .branch c .pending :: suf).toArray = none := by
    rw [obstacle]
    simp only [hlabel, hop]
    rfl
  rw [patch, hdest]
  simp only [hfree, hlabel, modify_at]
  rfl

theorem patchAll_cons {jump : PendingJump} {queue : List PendingJump} {ops ops' : Array Operation}
    (h : jump.patch firstOp epilogue ops = .ok ops') :
    patchAll firstOp epilogue (jump :: queue) ops = patchAll firstOp epilogue queue ops' := by
  rw [patchAll, h]

/-- All branches from a position on get their targets. -/
theorem patchAll_items {place : JumpTarget → Label} (pre suf : List Item)
    (hsmall : ∀ i c t, suf[i]? = some (.jump c t) → pre.length + i < UInt32.size)
    (hplace : ∀ op c t, .jump c t ∈ suf → destination ⟨op, t⟩ firstOp epilogue = .ok (place t)) :
    patchAll firstOp epilogue (jumpsFrom pre.length suf)
      (pre.map (Item.patched place) ++ suf.map Item.operation).toArray =
        (((pre ++ suf).map (Item.patched place)).toArray, none) := by
  induction suf generalizing pre with
  | nil => simp [jumpsFrom, patchAll]
  | cons item suf ih =>
    have hstep := ih (pre ++ [item])
      (fun i c t h => by
        have hi := hsmall (i + 1) c t (by simpa using h)
        rw [List.length_append, List.length_singleton]
        omega)
      (fun op c t h => hplace op c t (List.mem_cons_of_mem item h))
    rw [List.length_append, List.length_singleton, List.map_append, List.append_assoc,
      List.append_assoc, List.map_singleton] at hstep
    rw [jumpsFrom_cons]
    cases item with
    | plain op => exact hstep
    | entry id => exact hstep
    | jump c t =>
      have hlabel : (Label.ofNat pre.length).toNat = pre.length :=
        Label.toNat_ofNat (hsmall 0 c t rfl)
      have hpatch := patch_at (pre.map (Item.patched place)) (suf.map Item.operation) (c := c)
        (by rw [List.length_map]; exact hlabel)
        (hplace (.ofNat (pre.map (Item.patched place)).length) c t List.mem_cons_self)
      rw [List.length_map] at hpatch
      exact (patchAll_cons hpatch).trans hstep

/-- Resolving succeeds if everything queued is patched and nothing else was pending. -/
theorem resolveJumps_eq_ok {queue : List PendingJump} {ops resolved : Array Operation}
    {count : Nat} :
    resolveJumps queue firstOp epilogue ops = (resolved, .ok count) ↔
      patchAll firstOp epilogue queue ops = (resolved, none) ∧
        resolved.findIdx? Operation.isPendingBranch = none ∧ queue.length = count := by
  rw [resolveJumps]
  split
  · rename_i patched e hpatch
    simp [hpatch]
  · rename_i patched hpatch
    rw [hpatch]
    split
    · rename_i i hpending
      constructor
      · rintro ⟨⟩
      · rintro ⟨⟨⟩, hnone, -⟩
        rw [hnone] at hpending
        cases hpending
    · rename_i hnone
      constructor
      · rintro ⟨⟩
        exact ⟨rfl, hnone, rfl⟩
      · rintro ⟨⟨⟩, -, rfl⟩
        rfl

variable (firstOp epilogue) in
/-- Patching keeps the number of operations, and what no label points at. -/
theorem patchAll_untouched (queue : List PendingJump) (ops : Array Operation) :
    (patchAll firstOp epilogue queue ops).1.size = ops.size ∧
      ∀ i, UInt32.size ≤ i → (patchAll firstOp epilogue queue ops).1[i]? = ops[i]? := by
  induction queue generalizing ops with
  | nil => exact ⟨rfl, fun _ _ => rfl⟩
  | cons jump queue ih =>
    rw [patchAll]
    cases hpatch : jump.patch firstOp epilogue ops with
    | error e => exact ⟨rfl, fun _ _ => rfl⟩
    | ok ops' =>
      have hops : ∃ l, ops' = ops.modify jump.op.toNat (Operation.withTarget l) := by
        rw [patch] at hpatch
        split at hpatch
        · cases hpatch
        · split at hpatch
          · cases hpatch
          · cases hpatch
            exact ⟨_, rfl⟩
      obtain ⟨l, rfl⟩ := hops
      obtain ⟨hsize, hkeep⟩ := ih (ops.modify jump.op.toNat (Operation.withTarget l))
      refine ⟨by rw [hsize, Array.size_modify], ?_⟩
      intro i hi
      have hlt : jump.op.toNat < UInt32.size := jump.op.index.toNat_lt
      rw [hkeep i hi, Array.getElem?_modify, if_neg (by omega)]

end PendingJump

end HookDispatch
