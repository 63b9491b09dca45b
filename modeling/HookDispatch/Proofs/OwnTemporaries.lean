import HookDispatch.Proofs.CallEffect
import HookDispatch.Proofs.CallOrder
import HookDispatch.Proofs.FrameCells

/-!
Which temporaries a call uses. The borrowing parameters of a method are numbered in order, and each
is unpacked into the temporary with its number; afterwards the mutably borrowed ones are put back
from there. Numbers are kept in 16 bits, so the temporaries are different as long as there are no
more than fit, and then each holds the argument of its own parameter. With more parameters the
numbers begin again, and two parameters share a temporary.
-/
namespace HookDispatch

namespace TempId

/-- The numbers of temporaries begin again where 16 bits are used up. -/
theorem ofNat_size : ofNat UInt16.size = ofNat 0 := rfl

theorem nodup_map_ofNat_iff {k : Nat} :
    ((List.range k).map ofNat).Nodup ↔ k ≤ UInt16.size := by
  constructor
  · intro h
    by_contra hmany
    have hlast : UInt16.size ∈ List.range k := List.mem_range.mpr (by omega)
    have hfirst : 0 ∈ List.range k := List.mem_range.mpr (by omega)
    have heq : UInt16.size = 0 := List.inj_on_of_nodup_map h hlast hfirst ofNat_size
    cases heq
  · intro hfew
    apply List.nodup_range.map_on
    intro i hi j hj heq
    rw [List.mem_range] at hi hj
    have hsame := congrArg toNat heq
    rwa [toNat_ofNat (by omega), toNat_ofNat (by omega)] at hsame

end TempId

namespace Operation

def fill? : Operation → Option (Nat × TempId)
  | unboxTemp index _ temp => some (index, temp)
  | _ => none

def pass? : Operation → Option TempId
  | pushTemp temp _ => some temp
  | _ => none

def putBack? : Operation → Option (Nat × TempId)
  | storeArg index temp _ => some (index, temp)
  | _ => none

end Operation

namespace Method

section Lists
variable {i temp : Nat} {ps : List Parameter} {n : Nat} {used : TempId}

theorem filterMap_fill?_cons (i temp : Nat) (p : Parameter) (ps : List Parameter) :
    (unpackFrom i temp (p :: ps)).filterMap Operation.fill? =
      if p.isBorrowing then
        (i, .ofNat temp) :: (unpackFrom (i + 1) (temp + 1) ps).filterMap Operation.fill?
      else (unpackFrom (i + 1) temp ps).filterMap Operation.fill? := by
  rw [unpackFrom]
  split <;> rfl

theorem filterMap_putBack?_cons (i temp : Nat) (p : Parameter) (ps : List Parameter) :
    (writeBackFrom i temp (p :: ps)).filterMap Operation.putBack? =
      (if p.passing = .mutable then [(i, .ofNat temp)] else []) ++
        (writeBackFrom (i + 1) (if p.isBorrowing then temp + 1 else temp) ps).filterMap
          Operation.putBack? := by
  rw [writeBackFrom, List.filterMap_append]
  split <;> rfl

/-- The temporaries are filled in the order of their numbers. -/
theorem map_fill?_unpackFrom (i temp : Nat) (ps : List Parameter) :
    ((unpackFrom i temp ps).filterMap Operation.fill?).map Prod.snd =
      (List.range' temp (ps.countP Parameter.isBorrowing)).map TempId.ofNat := by
  induction ps generalizing i temp with
  | nil => rfl
  | cons p ps ih =>
    rw [filterMap_fill?_cons]
    by_cases hborrow : p.isBorrowing = true
    · rw [if_pos hborrow, List.countP_cons_of_pos hborrow, List.range'_succ, List.map_cons,
        List.map_cons, ih]
    · rw [if_neg hborrow, List.countP_cons_of_neg hborrow, ih]

theorem filterMap_pass?_unpackFrom (i temp : Nat) (ps : List Parameter) :
    (unpackFrom i temp ps).filterMap Operation.pass? =
      ((unpackFrom i temp ps).filterMap Operation.fill?).map Prod.snd := by
  induction ps generalizing i temp with
  | nil => rfl
  | cons p ps ih =>
    rw [unpackFrom]
    split
    · exact congrArg (TempId.ofNat temp :: ·) (ih (i + 1) (temp + 1))
    · exact ih (i + 1) temp

theorem exists_getElem?_cons {q : Parameter} {P : Nat → Parameter → Prop} :
    (∃ k p, (q :: ps)[k]? = some p ∧ P k p) ↔
      P 0 q ∨ ∃ k p, ps[k]? = some p ∧ P (k + 1) p := by
  constructor
  · rintro ⟨k, p, hp, h⟩
    cases k with
    | zero =>
      cases hp
      exact Or.inl h
    | succ k => exact Or.inr ⟨k, p, hp, h⟩
  · rintro (h | ⟨k, p, hp, h⟩)
    · exact ⟨0, q, rfl, h⟩
    · exact ⟨k + 1, p, hp, h⟩

/-- A parameter is unpacked into the temporary that counts the borrowing ones before it. -/
theorem mem_fill?_unpackFrom :
    (n, used) ∈ (unpackFrom i temp ps).filterMap Operation.fill? ↔
      ∃ k p, ps[k]? = some p ∧ p.isBorrowing ∧ n = i + k ∧
        used = .ofNat (temp + (ps.take k).countP Parameter.isBorrowing) := by
  induction ps generalizing i temp with
  | nil => simp [unpackFrom]
  | cons p ps ih =>
    rw [exists_getElem?_cons, filterMap_fill?_cons]
    have hnext : ∀ k, i + 1 + k = i + (k + 1) := fun k => by omega
    cases hborrow : p.isBorrowing with
    | true =>
      have hcount : ∀ k, temp + 1 + (ps.take k).countP Parameter.isBorrowing =
          temp + ((p :: ps).take (k + 1)).countP Parameter.isBorrowing := by
        intro k
        rw [List.take_succ_cons, List.countP_cons_of_pos hborrow]
        omega
      rw [if_pos rfl, List.mem_cons, ih]
      simp [hnext, hcount]
    | false =>
      have hcount : ∀ k, (ps.take k).countP Parameter.isBorrowing =
          ((p :: ps).take (k + 1)).countP Parameter.isBorrowing := by
        intro k
        rw [List.take_succ_cons, List.countP_cons_of_neg (by simp [hborrow])]
      rw [if_neg (by simp), ih]
      simp [hnext, hcount]

/-- What is put back are the temporaries of the mutably borrowed parameters. -/
theorem filterMap_putBack?_writeBackFrom (i temp : Nat) (ps : List Parameter) :
    (writeBackFrom i temp ps).filterMap Operation.putBack? =
      ((unpackFrom i temp ps).filterMap Operation.fill?).filter
        fun e => ps[e.1 - i]?.any (·.passing == .mutable) := by
  induction ps generalizing i temp with
  | nil => rfl
  | cons p ps ih =>
    -- Behind the first parameter the positions are counted from the next one.
    have hrest : ∀ temp, ((unpackFrom (i + 1) temp ps).filterMap Operation.fill?).filter
          (fun e => (p :: ps)[e.1 - i]?.any (·.passing == .mutable)) =
        ((unpackFrom (i + 1) temp ps).filterMap Operation.fill?).filter
          fun e => ps[e.1 - (i + 1)]?.any (·.passing == .mutable) := by
      intro temp
      apply List.filter_congr
      rintro ⟨n, used⟩ hmem
      obtain ⟨k, -, -, -, rfl, -⟩ := mem_fill?_unpackFrom.mp hmem
      have hback : i + 1 + k - i = i + 1 + k - (i + 1) + 1 := by omega
      simp only [hback, List.getElem?_cons_succ]
    rw [filterMap_putBack?_cons, filterMap_fill?_cons, ih]
    cases hborrow : p.isBorrowing with
    | false =>
      have hkept : p.passing ≠ .mutable := by
        intro hmutable
        rw [Parameter.isBorrowing_of_mutable hmutable] at hborrow
        cases hborrow
      rw [if_neg hkept, if_neg (by simp), if_neg (by simp), List.nil_append, hrest]
    | true =>
      rw [if_pos rfl, if_pos rfl, List.filter_cons, hrest]
      by_cases hmutable : p.passing = .mutable <;> simp [hmutable]

end Lists

def fills (m : Method) (hook : MethodId) : List (Nat × TempId) :=
  (m.callSequence hook).filterMap Operation.fill?

def passes (m : Method) (hook : MethodId) : List TempId :=
  (m.callSequence hook).filterMap Operation.pass?

def putBacks (m : Method) (hook : MethodId) : List (Nat × TempId) :=
  (m.callSequence hook).filterMap Operation.putBack?

variable {m : Method} {hook : MethodId}

theorem filterMap_afterCall {β : Type} {f : Operation → Option β}
    (hresult : ∀ type boxed, f (.storeResult type boxed) = none)
    (hstore : ∀ index temp type, f (.storeArg index temp type) = none)
    (hhandled : f (.setHandled true) = none) (hret : f .ret = none) :
    m.afterCall.filterMap f = [] := by
  rw [List.filterMap_eq_nil_iff]
  intro op hop
  simp only [afterCall, List.mem_append, List.mem_cons, List.not_mem_nil, or_false] at hop
  rcases hop with (hop | hop) | rfl | rfl
  · obtain ⟨type, boxed, rfl⟩ := mem_storeReturn hop
    exact hresult type boxed
  · obtain ⟨index, temp, type, rfl⟩ := mem_writeBackFrom hop
    exact hstore index temp type
  · exact hhandled
  · exact hret

theorem fills_eq : m.fills hook = (unpackFrom 0 0 m.params).filterMap Operation.fill? := by
  have hafter : m.afterCall.filterMap Operation.fill? = [] :=
    filterMap_afterCall (fun _ _ => rfl) (fun _ _ _ => rfl) rfl rfl
  rw [fills, callSequence_eq, List.filterMap_append, List.filterMap_cons_none rfl, hafter,
    List.append_nil]

theorem passes_eq : m.passes hook = (m.fills hook).map Prod.snd := by
  have hafter : m.afterCall.filterMap Operation.pass? = [] :=
    filterMap_afterCall (fun _ _ => rfl) (fun _ _ _ => rfl) rfl rfl
  rw [passes, callSequence_eq, List.filterMap_append, List.filterMap_cons_none rfl, hafter,
    List.append_nil, filterMap_pass?_unpackFrom, fills_eq]

theorem putBacks_eq : m.putBacks hook = (m.fills hook).filter (m.isMutable ·.1) := by
  have hbefore : (unpackFrom 0 0 m.params).filterMap Operation.putBack? = [] := by
    rw [List.filterMap_eq_nil_iff]
    intro op hop
    cases op with
    | storeArg index temp type => exact absurd hop (storeArg_not_mem_unpackFrom 0 0 m.params)
    | _ => rfl
  have hresult : m.storeReturn.filterMap Operation.putBack? = [] := by
    rw [List.filterMap_eq_nil_iff]
    intro op hop
    obtain ⟨type, boxed, rfl⟩ := mem_storeReturn hop
    rfl
  have hend : [Operation.setHandled true, .ret].filterMap Operation.putBack? = [] := rfl
  rw [putBacks, callSequence_eq, List.filterMap_append, hbefore, List.filterMap_cons_none rfl,
    afterCall, List.filterMap_append, List.filterMap_append, hresult, hend, List.nil_append,
    List.nil_append, List.append_nil, filterMap_putBack?_writeBackFrom, fills_eq]
  rfl

theorem mem_fills {n : Nat} {used : TempId} : (n, used) ∈ m.fills hook ↔
    (∃ p, m.params[n]? = some p ∧ p.isBorrowing) ∧ used = .ofNat (m.borrowed n) := by
  rw [fills_eq, mem_fill?_unpackFrom]
  simp only [Nat.zero_add]
  constructor
  · rintro ⟨k, p, hp, hborrow, rfl, rfl⟩
    exact ⟨⟨p, hp, hborrow⟩, rfl⟩
  · rintro ⟨⟨p, hp, hborrow⟩, rfl⟩
    exact ⟨n, p, hp, hborrow, rfl, rfl⟩

theorem map_snd_fills :
    (m.fills hook).map Prod.snd = (List.range m.borrowCount).map TempId.ofNat := by
  rw [fills_eq, map_fill?_unpackFrom, ← List.range_eq_range']
  rfl

theorem toNat_lt_of_mem_fills {e : Nat × TempId} (h : e ∈ m.fills hook) :
    e.2.toNat < m.borrowCount := by
  obtain ⟨⟨p, hp, hborrow⟩, hused⟩ := mem_fills.mp h
  have hkept := TempId.toNat_ofNat_le (m.borrowed e.1)
  have hlt := borrowed_lt hp hborrow (Nat.lt_add_one e.1)
  have hle := borrowed_le_borrowCount (m := m) (e.1 + 1)
  rw [hused]
  omega

/-- What the temporaries of a call are. -/
structure OwnTemps (m : Method) (hook : MethodId) : Prop where
  /-- Exactly the borrowing parameters are unpacked into temporaries. -/
  mem_fills : ∀ n used, (n, used) ∈ m.fills hook ↔
    (∃ p, m.params[n]? = some p ∧ p.isBorrowing) ∧ used = .ofNat (m.borrowed n)
  /-- They are filled in the order of their numbers, and these are passed. -/
  temps_eq : (m.fills hook).map Prod.snd = (List.range m.borrowCount).map TempId.ofNat
  passes_eq : m.passes hook = (m.fills hook).map Prod.snd
  /-- A mutably borrowed parameter is put back from its own temporary, in the same order. -/
  putBacks_eq : m.putBacks hook = (m.fills hook).filter (m.isMutable ·.1)
  toNat_lt : ∀ e ∈ m.fills hook, e.2.toNat < m.borrowCount
  /-- The temporaries are different exactly as long as 16 bits suffice for them. -/
  nodup_iff : ((m.fills hook).map Prod.snd).Nodup ↔ m.borrowCount ≤ UInt16.size

theorem ownTemps (m : Method) (hook : MethodId) : m.OwnTemps hook where
  mem_fills _ _ := Method.mem_fills
  temps_eq := map_snd_fills
  passes_eq := Method.passes_eq
  putBacks_eq := Method.putBacks_eq
  toNat_lt _ h := toNat_lt_of_mem_fills h
  nodup_iff := by
    rw [map_snd_fills]
    exact TempId.nodup_map_ofNat_iff

end Method

namespace Layout

variable {t : Trie} {r : Registry} {collapse : Bool} {p : Program}

theorem filterMap_callee? (L : Layout t r collapse p) :
    p.operations.toList.filterMap Operation.callee? = t.edges.terminals.map Prod.snd := by
  obtain ⟨body, hbody, hserves⟩ := L.exists_serves
  rw [hbody, List.filterMap_append, hserves.filterMap_callee?, t.filterMap_terminal_places]
  exact List.append_nil _

/-- A program has the temporaries of the most demanding hook that it calls. -/
theorem temps_eq_foldr (L : Layout t r collapse p) :
    p.temps = ((p.operations.toList.filterMap Operation.callee?).map r.borrowing).foldr max 0 := by
  rw [L.temps_eq, L.filterMap_callee?, List.foldr_map, List.foldr_map]
  rfl

/-- The temporaries of a called hook are in the program. -/
theorem borrowCount_le_temps (L : Layout t r collapse p) {hook : MethodId} {key : Signature}
    {m : Method} (hcalls : r.Calls hook key m) {before after : List Operation}
    (hcode : p.operations.toList = before ++ m.callSequence hook ++ after) :
    m.borrowCount ≤ p.temps := by
  have hcalled : hook ∈ t.edges.terminals.map Prod.snd := by
    rw [← L.filterMap_callee?, hcode, List.filterMap_append, List.filterMap_append,
      m.filterMap_callee? hook]
    exact List.mem_append_left _ (List.mem_append_right _ List.mem_cons_self)
  obtain ⟨entry, hentry, rfl⟩ := List.mem_map.mp hcalled
  rw [L.temps_eq, ← hcalls.borrowing_eq]
  exact r.le_demand hentry

end Layout

namespace Run

variable {σ : Type} {m : Method} {hook : MethodId} {invoker : Invoker σ}
  {invokers : Array (Invoker σ)} {name : List UInt8} {start s : Run σ} {n : Nat}
  {cell : Nat → Object} {e : Operation × Run σ}

/-- Before the call each temporary holds the argument of its own parameter, and what is put back
for a parameter was unpacked for it. -/
structure OwnSlots (m : Method) (args : Array Object) (e : Operation × Run σ) : Prop where
  at_call : ∀ hook, e.1 = .call hook → ∀ n used, (n, used) ∈ m.fills hook →
    ∃ o, args[n]? = some o ∧ e.2.temps[used.toNat]? = some (some ⟨n, o⟩)
  at_store : ∀ n used type, e.1 = .storeArg n used type →
    ∃ o, e.2.temps[used.toNat]? = some (some ⟨n, o⟩)

/-- Other operations than calls and stores need nothing of the temporaries. -/
theorem ownSlots_of_ne (hcall : ∀ hook, e.1 ≠ .call hook)
    (hstore : ∀ n used type, e.1 ≠ .storeArg n used type) (m : Method) (args : Array Object) :
    OwnSlots m args e where
  at_call hook h := absurd h (hcall hook)
  at_store n used type h := absurd h (hstore n used type)

/-- While parameters are put back, each store finds the temporary of its own parameter. -/
theorem Stored.ownSlots_along {k : Nat} (h : Stored m cell n start s)
    (hcount : m.borrowCount ≤ UInt16.size) (hn : n + k = m.params.length)
    (hsize : m.params.length ≤ start.args.size) (args : Array Object)
    (he : e ∈ along invokers name (Method.writeBackFrom n (m.borrowed n) (m.params.drop n)) s) :
    OwnSlots m args e := by
  induction k generalizing n s with
  | zero =>
    rw [List.drop_eq_nil_of_le (by omega)] at he
    cases he
  | succ k ih =>
    have hp : m.params[n]? = some m.params[n] := List.getElem?_eq_getElem (by omega)
    rw [Method.writeBackFrom_drop hp, along_append, List.mem_append] at he
    rcases he with he | he
    · rw [Method.storeOne] at he
      split at he
      · rename_i hmutable
        rw [along_cons h.running] at he
        obtain rfl := List.mem_singleton.mp he
        have hheld := h.held n _ (Nat.le_refl n) hp (Parameter.isBorrowing_of_mutable hmutable)
        constructor
        · intro hook heq
          cases heq
        · intro i used type heq
          cases heq
          exact ⟨cell n, hheld⟩
      · cases he
    · exact ih (h.succ invokers name hp hcount (by omega)) (by omega) he

/-- After the call, the temporaries that the hook left are put back. -/
theorem ownSlots_afterCall (hret : m.ret.isGeneric = false) (hrunning : s.outcome = none)
    (hresult : s.result = none)
    (hheld : ∀ i p, m.params[i]? = some p → p.isBorrowing = true →
      s.temps[m.slot i]? = some (some ⟨i, cell i⟩))
    (hcount : m.borrowCount ≤ UInt16.size) (hsize : m.params.length ≤ s.args.size)
    (args : Array Object) (he : e ∈ along invokers name m.afterCall s) : OwnSlots m args e := by
  obtain ⟨w, hw, hopen, -, hargs, htemps, -, -⟩ :=
    straight_storeReturn invokers name hret hrunning hresult
  have hbegin : Stored m cell 0 w w := stored_zero hopen (by rw [htemps]; exact hheld)
  rw [Method.afterCall, along_append, along_append, List.mem_append, List.mem_append, hw] at he
  rcases he with (he | he) | he
  · obtain ⟨type, boxed, heq⟩ :=
      Method.mem_storeReturn ((map_along _ s).subset (List.mem_map_of_mem he))
    apply ownSlots_of_ne <;> simp [heq]
  · exact hbegin.ownSlots_along hcount (Nat.zero_add _) (hargs ▸ hsize) args he
  · have hmem := (map_along _ _).subset (List.mem_map_of_mem he)
    simp only [List.mem_cons, List.not_mem_nil, or_false] at hmem
    apply ownSlots_of_ne <;> rcases hmem with heq | heq <;> simp [heq]

/-- On entry to the hook the temporaries hold the arguments of their parameters. -/
theorem ownSlots_call {u : Run σ} (h : Unpacked m m.params.length s u)
    (hcount : m.borrowCount ≤ UInt16.size) (hsize : m.params.length ≤ s.args.size) :
    OwnSlots m s.args (.call hook, u) := by
  constructor
  · intro hook' heq n used hfill
    obtain ⟨⟨p, hp, hborrow⟩, rfl⟩ := Method.mem_fills.mp hfill
    exact ⟨cellOf s.args n, getElem?_cellOf hsize n p hp,
      (h.cells hcount hsize).held n p hp hborrow⟩
  · intro n used type heq
    cases heq

/-- What follows the hook puts the temporaries back that it left, if it succeeded. -/
theorem ownSlots_called {u : Run σ} (h : Unpacked m m.params.length s u)
    (hret : m.ret.isGeneric = false) (hresult : s.result = none)
    (hcount : m.borrowCount ≤ UInt16.size) (hsize : m.params.length ≤ s.args.size)
    (hinvoker : invokers[hook.toNat]? = some invoker)
    (he : e ∈ along invokers name m.afterCall (exec invokers name u.tick (.call hook))) :
    OwnSlots m s.args e := by
  cases hending : ((invoker u.target).run u.frame u.supply).result with
  | error e' =>
    rw [exec_call_error name hinvoker hending, along_of_ended rfl] at he
    cases he
  | ok returned =>
    have hcells := Body.cells_run (invoker u.target) u.supply (h.cells hcount hsize) hcount
    have hdone := exec_call_ok name hinvoker hending
    obtain ⟨v, hv⟩ : ∃ v, exec invokers name u.tick (.call hook) = v := ⟨_, rfl⟩
    rw [hv] at hdone he
    have hopen : v.outcome = none := by
      rw [hdone]
      exact h.running
    have hempty : v.result = none := by
      rw [hdone]
      exact h.result_eq.trans hresult
    have hargs : v.args = s.args := by
      rw [hdone]
      exact h.args_eq
    have hleft : v.temps = ((invoker u.target).run u.frame u.supply).frame.temps := by
      rw [hdone]
    exact ownSlots_afterCall hret hopen hempty (hleft ▸ hcells.held) hcount (hargs ▸ hsize)
      s.args he

/-- In a whole call sequence the temporaries belong to their parameters. -/
theorem ownSlots_callSequence (hret : m.ret.isGeneric = false) (hrunning : s.outcome = none)
    (hoperands : s.operands = #[]) (hresult : s.result = none)
    (hcount : m.borrowCount ≤ UInt16.size) (htemps : m.borrowCount ≤ s.temps.size)
    (hinvoker : invokers[hook.toNat]? = some invoker)
    (he : e ∈ along invokers name (m.callSequence hook) s) : OwnSlots m s.args e := by
  rw [Method.callSequence_eq, along_append, List.mem_append] at he
  rcases he with he | he
  · have hmem := (map_along _ s).subset (List.mem_map_of_mem he)
    apply ownSlots_of_ne
    · intro hook' heq
      exact Method.call_not_mem_unpackFrom 0 0 m.params (heq ▸ hmem)
    · intro n used type heq
      exact Method.storeArg_not_mem_unpackFrom 0 0 m.params (heq ▸ hmem)
  obtain ⟨hlong, hshort⟩ := unpacked_all invokers name hrunning hoperands htemps
  rcases Nat.lt_or_ge s.args.size m.params.length with hmissing | hsize
  · -- The run has ended at the missing argument.
    rw [along_of_ended (by rw [(hshort hmissing).outcome_eq]; rfl)] at he
    cases he
  have hunpacked := hlong hsize
  rw [along_cons hunpacked.running] at he
  rcases List.mem_cons.mp he with rfl | he
  · exact ownSlots_call hunpacked hcount hsize
  · exact ownSlots_called hunpacked hret hresult hcount hsize hinvoker he

end Run

/-- The temporaries of a compiled program. There are as many as the most demanding of its calls
needs, and they are only used inside of calls. There each borrowing parameter is unpacked into the
temporary with its number and put back from there. If a method has no more borrowing parameters than
there are numbers of 16 bits, and only then, its parameters have temporaries of their own; in every
run each temporary then holds the argument of its own parameter. -/
theorem own_temporaries {t : Trie} {r : Registry} {collapse : Bool} {typeName : String}
    {p : Program} (ht : t.Reachable)
    (hcompile : (t.compile r collapse typeName).2.value = .ok p) :
    (∀ (m : Method) (hook : MethodId), m.OwnTemps hook) ∧
    p.temps = ((p.operations.toList.filterMap Operation.callee?).map r.borrowing).foldr max 0 ∧
    (∀ pos op, p.operations[pos]? = some op → op.marshals = true →
      ∃ hook key m before after i, r.get? hook = some (key, m) ∧
        p.operations.toList = before ++ m.callSequence hook ++ after ∧
        pos = before.length + i ∧ (m.callSequence hook)[i]? = some op ∧
        m.borrowCount ≤ p.temps) ∧
    ∀ (σ : Type) (table : HookTable σ) (d : Dispatcher σ), Dispatcher.ofProgram p table = .ok d →
      ∀ (name : Option String) (hook : MethodId) (key : Signature) (m : Method),
        t.get? (name.getD "") = some hook → r.get? hook = some (key, m) →
        m.borrowCount ≤ UInt16.size →
        ∀ (target : σ) (supply : Supply) (result : Option Object) (args : Array Object),
          ∀ e ∈ d.trace target supply name result args, Run.OwnSlots m args e := by
  obtain ⟨L⟩ := Trie.exists_layout ht.sound hcompile
  refine ⟨Method.ownTemps, L.temps_eq_foldr, ?_, ?_⟩
  · intro pos op hop hmarshals
    obtain ⟨hook, key, m, before, after, i, hcalls, hcode, hpos, hop'⟩ :=
      L.exists_call_at hop hmarshals
    exact ⟨hook, key, m, before, after, i, hcalls.get?_eq, hcode, hpos, hop',
      L.borrowCount_le_temps hcalls hcode⟩
  · intro σ table d hd name hook key m hfound hentry hcount target supply result args e he
    obtain ⟨invoker, tests, s, -, hinvoker, hret, hidle, hpoised, -, htrace⟩ :=
      Dispatcher.exists_poised L ht.sound hd hfound hentry target supply result args
    rw [htrace, List.mem_append] at he
    rcases he with he | he
    · have hquiet := hidle e he
      apply Run.ownSlots_of_ne
      · intro hook' heq
        rw [heq] at hquiet
        cases hquiet
      · intro n used type heq
        rw [heq] at hquiet
        cases hquiet
    · have hargs : s.args = args := hpoised.args_eq
      rw [← hargs]
      exact Run.ownSlots_callSequence hret hpoised.running hpoised.operands_eq hpoised.result_eq
        hcount hpoised.room hinvoker he

/-- The second hook has one temporary, also in a run. -/
theorem own_temporaries_specimen :
    ∃ p d, (Specimen.trie.compile Specimen.registry true "T").2.value = .ok p ∧
      Dispatcher.ofProgram p (.ofBindings Specimen.bindings) = .ok d ∧
      Specimen.second.OwnTemps ⟨1⟩ ∧ Specimen.second.fills ⟨1⟩ = [(0, .ofNat 0)] ∧
      ∀ e ∈ d.trace 0 20 (some "ab") none #[⟨3, .i32 1⟩],
        Run.OwnSlots Specimen.second #[⟨3, .i32 1⟩] e := by
  have ht : Specimen.trie.Reachable := Trie.reachable_ofRegistry Specimen.trie_eq
  obtain ⟨p, d, hp, hd⟩ := Specimen.exists_dispatcher true
  have hentry : Specimen.registry.get? ⟨1⟩ = some (⟨"ab(i32)"⟩, Specimen.second) := rfl
  obtain ⟨htemps, -, -, hrun⟩ := own_temporaries ht hp
  exact ⟨p, d, hp, hd, htemps Specimen.second ⟨1⟩, rfl, hrun Nat _ d hd (some "ab") ⟨1⟩ _ _
    (by decide) hentry (by decide) 0 20 none #[⟨3, .i32 1⟩]⟩

namespace Crowd

def crowd (k : Nat) : Method where
  name := "a"
  owner := "P"
  params := List.replicate k { name := "p", element := ⟨"u8"⟩, passing := .shared }

def registry (k : Nat) : Registry := Registry.empty.insert (.ofMethod (crowd k)) (crowd k)

def trie : Trie where
  edges := .cons 1 97 (some ⟨0⟩) .nil .nil
  size := 2
  keyCount := 1

variable {k : Nat}

theorem reachable_trie : trie.Reachable :=
  @Trie.Reachable.insert Trie.empty trie "a" ⟨0⟩ .empty rfl

theorem borrowCount_crowd (k : Nat) : (crowd k).borrowCount = k := by
  simp [Method.borrowCount, crowd, List.countP_replicate, Parameter.isBorrowing]

theorem borrowed_crowd {n : Nat} (h : n ≤ k) : (crowd k).borrowed n = n := by
  rw [Method.borrowed, crowd, List.take_replicate, Nat.min_eq_left h]
  simp [List.countP_replicate, Parameter.isBorrowing]

/-- Every parameter has the temporary with its position. -/
theorem mem_fills_crowd {n : Nat} (h : n < k) : (n, .ofNat n) ∈ (crowd k).fills ⟨0⟩ := by
  apply Method.mem_fills.mpr
  rw [borrowed_crowd (by omega)]
  exact ⟨⟨_, List.getElem?_replicate_of_lt h, rfl⟩, rfl⟩

theorem calls_crowd (k : Nat) :
    (registry k).Calls ⟨0⟩ (.ofMethod (crowd k)) (crowd k) := by
  have hnew : Signature.ofMethod (crowd k) ∉ Registry.empty.keys := List.not_mem_nil
  have hentries : (registry k).entries = [(.ofMethod (crowd k), crowd k)] :=
    Registry.entries_insert_of_not_mem hnew (crowd k)
  refine ⟨?_, rfl⟩
  rw [Registry.get?, hentries]
  rfl

theorem length_unpackFrom_le (i temp : Nat) (ps : List Parameter) :
    (Method.unpackFrom i temp ps).length ≤ 2 * ps.length := by
  induction ps generalizing i temp with
  | nil => exact Nat.le_refl _
  | cons p ps ih =>
    rw [Method.unpackFrom]
    split
    · have hrest := ih (i + 1) (temp + 1)
      simp only [List.length_cons]
      omega
    · have hrest := ih (i + 1) temp
      simp only [List.length_cons]
      omega

/-- Nothing is put back and nothing is returned. -/
theorem length_callSequence_le (k : Nat) (hook : MethodId) :
    ((crowd k).callSequence hook).length ≤ 2 * k + 3 := by
  have hback : ∀ i temp, Method.writeBackFrom i temp (crowd k).params = [] := by
    rw [crowd]
    induction k with
    | zero => exact fun i temp => rfl
    | succ k ih => exact fun i temp => ih (i + 1) (temp + 1)
  have hunpack := length_unpackFrom_le 0 0 (crowd k).params
  have hparams : (crowd k).params.length = k := List.length_replicate
  have hreturn : (crowd k).storeReturn = [] := rfl
  rw [Method.callSequence, hback, hreturn]
  simp only [List.append_nil, List.length_append, List.length_cons, List.length_nil]
  omega

/-- The method with many arguments can be compiled, as long as labels reach. -/
theorem exists_compiled (hk : 2 * k + 16 ≤ UInt32.size) :
    ∃ p, (trie.compile (registry k) true "P").2.value = .ok p := by
  have hcallable : ∀ path hook, (path, hook) ∈ trie.edges.terminals →
      (registry k).Callable hook := by
    intro path hook hmem
    obtain ⟨-, rfl⟩ := Prod.mk.inj (List.mem_singleton.mp hmem)
    exact ⟨_, _, calls_crowd k⟩
  have hlength : (trie.emit (registry k) true).length ≤ UInt32.size := by
    have hcall := length_callSequence_le k ⟨0⟩
    have hemit : (trie.emit (registry k) true).length =
        11 + ((crowd k).callSequence ⟨0⟩).length := by
      simp [Trie.emit, Edges.emit, trie, (calls_crowd k).emitCall_eq, Emission.ofItems,
        Edges.first?, Method.callItems]
      omega
    omega
  obtain ⟨p, hp, -⟩ := Trie.compile_ok reachable_trie.sound hcallable true "P" hlength
  exact ⟨p, hp⟩

end Crowd

/-- With one borrowing parameter too many, the first one and the last one share a temporary, though
the program has enough temporaries. -/
theorem temporaries_shared :
    ∃ p before after,
      (Crowd.trie.compile (Crowd.registry (UInt16.size + 1)) true "P").2.value = .ok p ∧
      p.operations.toList =
        before ++ (Crowd.crowd (UInt16.size + 1)).callSequence ⟨0⟩ ++ after ∧
      p.temps = UInt16.size + 1 ∧
      (0, .ofNat 0) ∈ (Crowd.crowd (UInt16.size + 1)).fills ⟨0⟩ ∧
      (UInt16.size, .ofNat 0) ∈ (Crowd.crowd (UInt16.size + 1)).fills ⟨0⟩ ∧
      ¬ (((Crowd.crowd (UInt16.size + 1)).fills ⟨0⟩).map Prod.snd).Nodup := by
  obtain ⟨p, hp⟩ := Crowd.exists_compiled (k := UInt16.size + 1) (by decide)
  obtain ⟨L⟩ := Trie.exists_layout Crowd.reachable_trie.sound hp
  have hcalls := Crowd.calls_crowd (UInt16.size + 1)
  have htemps : p.temps = UInt16.size + 1 := by
    have hterminals : Crowd.trie.edges.terminals = [([97], ⟨0⟩)] := rfl
    rw [L.temps_eq, hterminals, Registry.demand_cons, hcalls.borrowing_eq, Crowd.borrowCount_crowd]
    rfl
  have hlast : (UInt16.size, TempId.ofNat 0) ∈ (Crowd.crowd (UInt16.size + 1)).fills ⟨0⟩ := by
    have hmem := Crowd.mem_fills_crowd (Nat.lt_add_one UInt16.size)
    rwa [TempId.ofNat_size] at hmem
  obtain ⟨body, hbody, hserves⟩ := L.exists_serves
  have hhooks : Crowd.trie.places.filterMap Node.terminal = [⟨0⟩] := rfl
  rw [hhooks] at hserves
  cases hserves with
  | @call hook key m hooks seg call code hseg hcalls' hcall hcode =>
    cases hcalls'.get?_eq.symm.trans hcalls.get?_eq
    rw [Method.wholeCall_iff hcalls.resolved] at hcall
    subst hcall
    refine ⟨p, seg, code ++ rejection, hp, ?_, htemps, Crowd.mem_fills_crowd (by omega), hlast, ?_⟩
    · rw [hbody, List.append_assoc]
    · rw [Method.map_snd_fills, TempId.nodup_map_ofNat_iff, Crowd.borrowCount_crowd]
      omega

end HookDispatch
