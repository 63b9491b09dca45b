import HookDispatch.Method.Signature

/-!
Which methods are hooks. A hook is an instance method, private or tagged, without type parameters
of its own or an unresolved return type, without a borrow that outlives the call, declared on the
type itself, no accessor, with a name that no synthesised method has, and without a parameter that
takes all remaining arguments. The reasons against a method are ranked: the first that holds is
reported.
-/
namespace HookDispatch

inductive SkipReason where
  | isStatic | isPublic | generic | genericReturn | borrowed | inherited | accessor | reservedName
  | variadic
deriving DecidableEq, Repr

namespace SkipReason

def name : SkipReason → String
  | isStatic => "Static"
  | isPublic => "Public"
  | generic => "Generic"
  | genericReturn => "GenericReturn"
  | borrowed => "Borrowed"
  | inherited => "Inherited"
  | accessor => "Accessor"
  | reservedName => "ReservedName"
  | variadic => "Variadic"

/-- The reasons in the order in which they are looked for. -/
def all : List SkipReason :=
  [isStatic, isPublic, generic, genericReturn, borrowed, inherited, accessor, reservedName,
    variadic]

end SkipReason

/-- The characters that only names of synthesised methods have. -/
def reservedChars : List Char := ['<', '>', '$', '#', '.', '(', ')', ',']

/-- Whether a name is empty or kept for synthesised methods. -/
def isReservedName (name : String) : Bool :=
  match name.toList with
  | [] => true
  | '_' :: '_' :: _ => true
  | cs => cs.any reservedChars.contains

namespace MethodTable

def refuses (t : MethodTable) (m : Method) : SkipReason → Bool
  | .isStatic => m.flags.isStatic
  | .isPublic => m.flags.isPublic && !m.flags.isHook
  | .generic => 0 < m.genericParams
  | .genericReturn => m.ret.isGeneric
  | .borrowed => m.flags.isBorrowed
  | .inherited => m.owner != t.typeName
  | .accessor => m.flags.isAccessor
  | .reservedName => isReservedName m.name
  | .variadic => m.params.any (·.variadic)

def skipReason (t : MethodTable) (m : Method) : Option SkipReason :=
  SkipReason.all.find? (t.refuses m)

theorem skipReason_eq_none_iff {t : MethodTable} {m : Method} :
    t.skipReason m = none ↔ ∀ r, t.refuses m r = false := by
  simp only [skipReason, List.find?_eq_none]
  constructor
  · intro h r
    have := h r (by cases r <;> decide)
    simpa using this
  · intro h r _
    simp [h r]

/-- Nothing speaks against a method if one reason does not and no other does. -/
theorem skipReason_eq_none_iff_of_reason (t : MethodTable) (m : Method) (r : SkipReason) :
    t.skipReason m = none ↔
      t.refuses m r = false ∧ ∀ other ≠ r, t.refuses m other = false := by
  rw [skipReason_eq_none_iff]
  constructor
  · exact fun h => ⟨h r, fun other _ => h other⟩
  · rintro ⟨hr, hothers⟩ other
    by_cases heq : other = r
    · rwa [heq]
    · exact hothers other heq

end MethodTable

end HookDispatch
