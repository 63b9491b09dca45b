import HookDispatch.Machine.Body
import HookDispatch.Program.Emission

/-!
The parameters of a call as cells. Borrowing parameters have temporaries of their own as long as the
numbers of temporaries suffice, so a write to one parameter is never seen through another, and what
a parameter holds after a body is what was written to it last.
-/
namespace HookDispatch

theorem TempId.toNat_ofNat {n : Nat} (h : n < UInt16.size) : (TempId.ofNat n).toNat = n := by
  simp only [TempId.ofNat, TempId.toNat, Nat.toUInt16, UInt16.toNat_ofNat']
  exact Nat.mod_eq_of_lt h

theorem TempId.toNat_ofNat_le (n : Nat) : (TempId.ofNat n).toNat ≤ n := by
  simp only [TempId.ofNat, TempId.toNat, Nat.toUInt16, UInt16.toNat_ofNat']
  exact Nat.mod_le n _

theorem Parameter.isBorrowing_of_mutable {p : Parameter} (h : p.passing = .mutable) :
    p.isBorrowing = true := by
  rw [isBorrowing, h]
  rfl

namespace Method

variable (m : Method)

def borrowed (n : Nat) : Nat := (m.params.take n).countP Parameter.isBorrowing

def slot (n : Nat) : Nat := (TempId.ofNat (m.borrowed n)).toNat

def operand? (n : Nat) : Option Operand :=
  m.params[n]?.map fun p =>
    if p.isBorrowing then .temp (m.slot n) (p.passing == .mutable) else .arg n

def isMutable (n : Nat) : Bool := m.params[n]?.any (·.passing == .mutable)

variable {m}

theorem isMutable_eq {n : Nat} {p : Parameter} (hp : m.params[n]? = some p) :
    m.isMutable n = (p.passing == .mutable) := by
  rw [isMutable, hp, Option.any_some]

theorem exists_of_isMutable {n : Nat} (h : m.isMutable n = true) :
    ∃ p, m.params[n]? = some p ∧ p.passing = .mutable := by
  cases hp : m.params[n]? with
  | none =>
    rw [isMutable, hp] at h
    cases h
  | some p =>
    rw [isMutable_eq hp, beq_iff_eq] at h
    exact ⟨p, rfl, h⟩

theorem lt_of_isMutable {n : Nat} (h : m.isMutable n = true) : n < m.params.length := by
  obtain ⟨p, hp, -⟩ := exists_of_isMutable h
  exact (List.getElem?_eq_some_iff.mp hp).1

section Count
variable (f : Parameter → Bool)

theorem countP_take_succ {n : Nat} {p : Parameter} (hp : m.params[n]? = some p) :
    (m.params.take (n + 1)).countP f = (m.params.take n).countP f + if f p then 1 else 0 := by
  rw [List.take_add_one, hp, List.countP_append]
  simp [List.countP_cons]

theorem countP_take_le {n k : Nat} (h : n ≤ k) :
    (m.params.take n).countP f ≤ (m.params.take k).countP f :=
  (List.take_sublist_take_left h).countP_le

/-- A parameter that is counted makes the count larger. -/
theorem countP_lt {n k : Nat} {p : Parameter} (hp : m.params[n]? = some p) (hf : f p = true)
    (h : n < k) : (m.params.take n).countP f < (m.params.take k).countP f := by
  have hle := countP_take_le (m := m) f h
  rw [countP_take_succ f hp, if_pos hf] at hle
  omega

end Count

theorem borrowed_succ {n : Nat} {p : Parameter} (hp : m.params[n]? = some p) :
    m.borrowed (n + 1) = m.borrowed n + if p.isBorrowing then 1 else 0 :=
  countP_take_succ Parameter.isBorrowing hp

theorem borrowed_lt {n k : Nat} {p : Parameter} (hp : m.params[n]? = some p)
    (hborrow : p.isBorrowing = true) (h : n < k) : m.borrowed n < m.borrowed k :=
  countP_lt Parameter.isBorrowing hp hborrow h

theorem borrowed_le_borrowCount (n : Nat) : m.borrowed n ≤ m.borrowCount :=
  (List.take_sublist n m.params).countP_le

theorem slot_eq {n : Nat} {p : Parameter} (hp : m.params[n]? = some p)
    (hborrow : p.isBorrowing = true) (hcount : m.borrowCount ≤ UInt16.size) :
    m.slot n = m.borrowed n := by
  have hlt := borrowed_lt hp hborrow (Nat.lt_add_one n)
  have hle := borrowed_le_borrowCount (m := m) (n + 1)
  exact TempId.toNat_ofNat (by omega)

theorem slot_lt {n : Nat} {p : Parameter} (hp : m.params[n]? = some p)
    (hborrow : p.isBorrowing = true) : m.slot n < m.borrowCount := by
  have hlt := borrowed_lt hp hborrow (Nat.lt_add_one n)
  have hle := borrowed_le_borrowCount (m := m) (n + 1)
  have hslot : m.slot n ≤ m.borrowed n := TempId.toNat_ofNat_le (m.borrowed n)
  omega

/-- Borrowing parameters have different temporaries. -/
theorem slot_ne {n k : Nat} {p q : Parameter} (hp : m.params[n]? = some p)
    (hq : m.params[k]? = some q) (hborrow : p.isBorrowing = true)
    (hborrow' : q.isBorrowing = true) (hcount : m.borrowCount ≤ UInt16.size) (h : n ≠ k) :
    m.slot n ≠ m.slot k := by
  rw [slot_eq hp hborrow hcount, slot_eq hq hborrow' hcount]
  rcases Nat.lt_or_gt_of_ne h with hlt | hlt
  · have := borrowed_lt hp hborrow hlt
    omega
  · have := borrowed_lt hq hborrow' hlt
    omega

end Method

namespace Frame

/-- The frame shows each parameter as a cell. -/
structure Cells (m : Method) (cell : Nat → Object) (f : Frame) : Prop where
  size_eq : f.size = m.params.length
  operand_eq : ∀ n, f.operands[n]? = m.operand? n
  passed : ∀ n p, m.params[n]? = some p → p.isBorrowing = false → f.args[n]? = some (cell n)
  held : ∀ n p, m.params[n]? = some p → p.isBorrowing = true →
    f.temps[m.slot n]? = some (some ⟨n, cell n⟩)

variable {m : Method} {cell : Nat → Object} {f f' : Frame} {n : Nat} {o : Object}

theorem Cells.slotAt_eq {p : Parameter} (h : f.Cells m cell) (hp : m.params[n]? = some p)
    (hborrow : p.isBorrowing = true) : f.slotAt (m.slot n) n = .ok ⟨n, cell n⟩ := by
  rw [slotAt, Array.getD_eq_getD_getElem?, h.held n p hp hborrow]
  rfl

/-- A write goes to a mutably borrowed parameter, and to no other. -/
theorem Cells.write (h : f.Cells m cell) (hcount : m.borrowCount ≤ UInt16.size)
    (hwrite : f.write n o = .ok f') :
    m.isMutable n = true ∧ f'.Cells m fun k => if k = n then o else cell k := by
  rw [Frame.write, h.operand_eq, Method.operand?] at hwrite
  cases hp : m.params[n]? with
  | none =>
    rw [hp] at hwrite
    cases hwrite
  | some p =>
    cases hborrow : p.isBorrowing with
    | false =>
      simp only [hp, hborrow, Option.map_some, Bool.false_eq_true, if_false] at hwrite
      cases hwrite
    | true =>
      cases hmutable : p.passing == .mutable with
      | false =>
        simp only [hp, hborrow, hmutable, Option.map_some, if_true] at hwrite
        cases hwrite
      | true =>
        simp only [hp, hborrow, hmutable, Option.map_some, if_true, h.slotAt_eq hp hborrow,
          Except.ok.injEq] at hwrite
        subst hwrite
        refine ⟨by rw [Method.isMutable_eq hp, hmutable], h.size_eq, h.operand_eq,
          ?_, ?_⟩
        · intro k q hq hvalue
          rw [if_neg]
          · exact h.passed k q hq hvalue
          · rintro rfl
            cases hp.symm.trans hq
            rw [hborrow] at hvalue
            cases hvalue
        · intro k q hq hborrow'
          by_cases hk : k = n
          · subst hk
            have hlt := (Array.getElem?_eq_some_iff.mp (h.held k p hp hborrow)).1
            rw [if_pos rfl, Array.getElem?_setIfInBounds_self_of_lt hlt]
          · rw [if_neg hk, Array.getElem?_setIfInBounds_ne]
            · exact h.held k q hq hborrow'
            · exact Method.slot_ne hp hq hborrow hborrow' hcount (Ne.symm hk)

theorem Cells.object_eq {p : Parameter} (h : f.Cells m cell) (hp : m.params[n]? = some p) :
    f.object n = .ok (cell n) := by
  rw [object, h.operand_eq, Method.operand?, hp]
  cases hborrow : p.isBorrowing with
  | false =>
    simp only [Option.map_some, hborrow, Bool.false_eq_true, if_false]
    rw [objectAt, h.passed n p hp hborrow]
  | true =>
    simp only [Option.map_some, hborrow, if_true]
    rw [h.slotAt_eq hp hborrow]
    rfl

theorem Cells.arg_eq {p : Parameter} (h : f.Cells m cell) (hp : m.params[n]? = some p)
    (kind : Kind) : f.arg n kind = (cell n).downcast n kind := by
  rw [arg, h.operand_eq, Method.operand?, hp]
  cases hborrow : p.isBorrowing with
  | false =>
    simp only [Option.map_some, hborrow, Bool.false_eq_true, if_false]
    rw [unbox, objectAt, h.passed n p hp hborrow]
  | true =>
    simp only [Option.map_some, hborrow, if_true]
    rw [h.slotAt_eq hp hborrow]

/-- A parameter that is borrowed mutably can be written. -/
theorem Cells.exists_write (h : f.Cells m cell) (hmutable : m.isMutable n = true) (o : Object) :
    ∃ f', f.write n o = .ok f' := by
  obtain ⟨p, hp, hpassing⟩ := Method.exists_of_isMutable hmutable
  have hborrow := Parameter.isBorrowing_of_mutable hpassing
  have hoperand : f.operands[n]? = some (.temp (m.slot n) true) := by
    rw [h.operand_eq, Method.operand?, hp, Option.map_some, if_pos hborrow, hpassing]
    rfl
  rw [Frame.write, hoperand]
  simp only [h.slotAt_eq hp hborrow]
  exact ⟨_, rfl⟩

end Frame

/-- What was written last to a parameter. -/
def lastWritten (writes : List (Nat × Object)) (n : Nat) : Option Object :=
  (writes.reverse.find? (·.1 == n)).map Prod.snd

theorem lastWritten_cons (k : Nat) (o : Object) (writes : List (Nat × Object)) (n : Nat) :
    lastWritten ((k, o) :: writes) n =
      (lastWritten writes n).or (if n = k then some o else none) := by
  rw [lastWritten, lastWritten, List.reverse_cons, List.find?_append]
  by_cases hk : n = k
  · subst hk
    cases writes.reverse.find? (·.1 == n) <;> simp
  · cases writes.reverse.find? (·.1 == n) <;> simp [hk, Ne.symm hk]

namespace Body

variable {σ : Type} {m : Method}

def writes (frame : Frame) (supply : Supply) : Body σ → List (Nat × Object)
  | done .. => []
  | size next => (next frame.size).writes frame supply
  | arg n kind next => (next (frame.arg n kind)).writes frame supply
  | object n next => (next (frame.object n)).writes frame supply
  | write n o next =>
    match frame.write n o with
    | .ok written => (n, o) :: (next (.ok ())).writes written supply
    | .error e => (next (.error e)).writes frame supply
  | box v next => (next (supply.box v).1).writes frame (supply.box v).2

/-- After a body each parameter holds what was written to it last. -/
theorem cells_run (body : Body σ) {cell : Nat → Object} {frame : Frame} (supply : Supply)
    (h : frame.Cells m cell) (hcount : m.borrowCount ≤ UInt16.size) :
    (body.run frame supply).frame.Cells m fun n =>
      (lastWritten (body.writes frame supply) n).getD (cell n) := by
  induction body generalizing cell frame supply with
  | done state result => exact h
  | size next ih => exact ih frame.size supply h
  | arg n kind next ih => exact ih (frame.arg n kind) supply h
  | object n next ih => exact ih (frame.object n) supply h
  | write n o next ih =>
    rw [run, writes]
    cases hwrite : frame.write n o with
    | error e => exact ih (.error e) supply h
    | ok written =>
      have hcells := ih (.ok ()) supply (h.write hcount hwrite).2
      have hlast : (fun k => (lastWritten ((n, o) :: (next (.ok ())).writes written supply) k).getD
          (cell k)) = fun k => (lastWritten ((next (.ok ())).writes written supply) k).getD
            (if k = n then o else cell k) := by
        funext k
        rw [lastWritten_cons]
        by_cases hk : k = n
        · simp [hk, Option.or_some]
        · simp [hk]
      exact hlast ▸ hcells
  | box v next ih => exact ih (supply.box v).1 (supply.box v).2 h

end Body

end HookDispatch
