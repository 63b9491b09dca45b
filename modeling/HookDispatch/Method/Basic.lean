import HookDispatch.Method.Flags
import HookDispatch.TypeName.Basic

/-!
Method tables. A method has parameters, each tagged with the way its argument is passed, a return
type and a set of flags; the table of a type lists its methods in discovery order, inherited ones
included.
-/
namespace HookDispatch

/-- How an argument reaches the method: moved in, borrowed from a temporary, or borrowed mutably
from a temporary whose final value goes back into the argument array. -/
inductive Passing where
  | byValue | shared | mutable
deriving DecidableEq, Repr

structure Parameter where
  name : String
  /-- The borrowed type, or the declared type of a value. -/
  element : TypeName
  passing : Passing := .byValue
  /-- Whether the parameter takes all remaining arguments. -/
  variadic : Bool := false
deriving DecidableEq, Repr

namespace Parameter

def type (p : Parameter) : TypeName :=
  match p.passing with
  | .byValue => p.element
  | .shared => ⟨"&" ++ p.element.source⟩
  | .mutable => ⟨"&mut " ++ p.element.source⟩

def isBorrowing (p : Parameter) : Bool := p.passing != .byValue

/-- The type that an argument is unboxed to. -/
def storage (p : Parameter) : TypeName := if p.isBorrowing then p.element.storage else p.type

end Parameter

inductive ReturnType where
  | void
  /-- A value that is boxed when it is stored. -/
  | value (type : TypeName)
  /-- A value that is an erased object already. -/
  | object
  /-- A type parameter that is not resolved. -/
  | generic (text : String)
deriving DecidableEq, Repr

namespace ReturnType

def ofType (t : TypeName) : ReturnType :=
  if t.canonical = "()" then .void else if t.isObject then .object else .value t

def isVoid : ReturnType → Bool
  | .void => true
  | _ => false

def isGeneric : ReturnType → Bool
  | .generic _ => true
  | _ => false

end ReturnType

structure Method where
  name : String
  /-- The type that declares the method. -/
  owner : String
  params : List Parameter := []
  ret : ReturnType := .void
  flags : Flags := {}
  /-- The number of generic type parameters. -/
  genericParams : Nat := 0
deriving DecidableEq, Repr

def Method.borrowCount (m : Method) : Nat := m.params.countP Parameter.isBorrowing

/-- The methods of one type. -/
structure MethodTable where
  typeName : String
  methods : List Method := []
deriving DecidableEq, Repr

namespace MethodTable

def add (t : MethodTable) (m : Method) : MethodTable := { t with methods := t.methods ++ [m] }

/-- The methods that the type declares itself. -/
def declared (t : MethodTable) : List Method := t.methods.filter (·.owner == t.typeName)

def findDeclared (t : MethodTable) (name : String) : Option Method :=
  t.declared.find? (·.name == name)

@[simp]
theorem methods_add (t : MethodTable) (m : Method) : (t.add m).methods = t.methods ++ [m] := rfl

@[simp]
theorem typeName_add (t : MethodTable) (m : Method) : (t.add m).typeName = t.typeName := rfl

end MethodTable

end HookDispatch
