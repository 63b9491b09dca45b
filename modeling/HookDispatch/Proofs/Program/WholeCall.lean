import HookDispatch.Proofs.Machine.Marshal
import HookDispatch.Proofs.Program.Targets

/-!
What the call of a hook consists of, read off its parameters by their positions. Each parameter has
its own operations before the call, and a mutably borrowed one has an operation after it; the
borrowing parameters take the temporaries in order. The emitted call sequence is this and no other.
-/
namespace HookDispatch

inductive ReturnType.StoredBy : ReturnType → List Operation → Prop
  | void : StoredBy .void []
  | value (type : TypeName) : StoredBy (.value type) [.storeResult type true]
  | object : StoredBy .object [.storeResult .object false]

namespace Method

variable {m : Method} {hook : MethodId} {ops : List Operation} {n : Nat} {p : Parameter}

def unpacking (m : Method) (n : Nat) (p : Parameter) : List Operation :=
  let temp := TempId.ofNat (m.borrowed n)
  match p.passing with
  | .byValue => [.unboxArg n p.element]
  | .shared => [.unboxTemp n p.element.storage temp, .pushTemp temp false]
  | .mutable => [.unboxTemp n p.element.storage temp, .pushTemp temp true]

def puttingBack (m : Method) (n : Nat) (p : Parameter) : List Operation :=
  match p.passing with
  | .byValue | .shared => []
  | .mutable => [.storeArg n (.ofNat (m.borrowed n)) p.element.storage]

/-- The operations unpack the arguments in the order of the parameters, call the hook, store what it
returns, put the mutably borrowed arguments back and report the name as handled. -/
inductive WholeCall (m : Method) (hook : MethodId) : List Operation → Prop
  | intro {stores : List Operation} (hstores : m.ret.StoredBy stores) :
      WholeCall m hook
        ((m.params.zipIdx.flatMap fun (p, n) => m.unpacking n p) ++ [.call hook] ++ stores ++
          (m.params.zipIdx.flatMap fun (p, n) => m.puttingBack n p) ++ [.setHandled true, .ret])

theorem unpackOne_eq : unpackOne n (m.borrowed n) p = m.unpacking n p := by
  unfold unpackOne unpacking Parameter.storage Parameter.isBorrowing Parameter.type
  cases p.passing <;> rfl

theorem storeOne_eq : storeOne n (m.borrowed n) p = m.puttingBack n p := by
  unfold storeOne puttingBack Parameter.storage Parameter.isBorrowing Parameter.type
  cases p.passing <;> rfl

/-- What goes on from each parameter to the next is done for all of them in order. -/
theorem eq_flatMap_zipIdx (rest : Nat → List Operation) {one : Nat → Parameter → List Operation}
    (hend : rest m.params.length = [])
    (hstep : ∀ n p, m.params[n]? = some p → rest n = one n p ++ rest (n + 1)) :
    rest 0 = m.params.zipIdx.flatMap fun (p, n) => one n p := by
  have hfrom : ∀ k n, n + k = m.params.length →
      rest n = ((m.params.drop n).zipIdx n).flatMap fun (p, n) => one n p := by
    intro k
    induction k with
    | zero =>
      rintro n rfl
      rw [hend, List.drop_eq_nil_of_le (Nat.le_refl _)]
      rfl
    | succ k ih =>
      intro n hn
      have hp : m.params[n]? = some m.params[n] := List.getElem?_eq_getElem (by omega)
      rw [hstep n _ hp, ih (n + 1) (by omega), drop_params hp]
      rfl
  exact hfrom m.params.length 0 (Nat.zero_add _)

theorem unpackFrom_eq :
    unpackFrom 0 0 m.params = m.params.zipIdx.flatMap fun (p, n) => m.unpacking n p := by
  refine eq_flatMap_zipIdx (fun n => unpackFrom n (m.borrowed n) (m.params.drop n)) ?_ ?_
  · rw [List.drop_length]
    rfl
  · intro n p hp
    rw [unpackFrom_drop hp, unpackOne_eq]

theorem writeBackFrom_eq :
    writeBackFrom 0 0 m.params = m.params.zipIdx.flatMap fun (p, n) => m.puttingBack n p := by
  refine eq_flatMap_zipIdx (fun n => writeBackFrom n (m.borrowed n) (m.params.drop n)) ?_ ?_
  · rw [List.drop_length]
    rfl
  · intro n p hp
    rw [writeBackFrom_drop hp, storeOne_eq]

theorem storedBy_iff (h : m.ret.isGeneric = false) :
    m.ret.StoredBy ops ↔ ops = m.storeReturn := by
  unfold storeReturn
  constructor
  · intro hstored
    cases hret : m.ret with
    | generic text =>
      rw [hret] at h
      cases h
    | _ =>
      rw [hret] at hstored
      cases hstored
      rfl
  · rintro rfl
    cases hret : m.ret with
    | void => exact .void
    | value type => exact .value type
    | object => exact .object
    | generic text =>
      rw [hret] at h
      cases h

/-- What is emitted for a hook is its whole call. -/
theorem wholeCall_iff (h : m.ret.isGeneric = false) :
    m.WholeCall hook ops ↔ ops = m.callSequence hook := by
  rw [callSequence, unpackFrom_eq, writeBackFrom_eq]
  constructor
  · rintro ⟨hstores⟩
    rw [(storedBy_iff h).mp hstores]
  · rintro rfl
    exact .intro ((storedBy_iff h).mpr rfl)

end Method

end HookDispatch
