import HookDispatch.Error
import HookDispatch.Object.Value

/-!
Objects: boxed values with an identity. A copy of an object is the same object; boxing a value
makes a new one, with an identity that no object had before. Unboxing reads an argument as a value
of an expected kind and leaves the argument where it is.
-/
namespace HookDispatch

structure Object where
  id : Nat
  value : Value
deriving DecidableEq, Repr

namespace Object

/-- The position of the first identical object. -/
def indexIn (objects : Array Object) (o : Object) : Option Nat := objects.findIdx? (·.id == o.id)

def downcast (o : Object) (index : Nat) (kind : Kind) : Except MarshalError Value :=
  if o.value.kind = kind then .ok o.value else .error (.argumentType index kind.typeName)

end Object

def objectAt (args : Array Object) (index : Nat) : Except MarshalError Object :=
  match args[index]? with
  | some o => .ok o
  | none => .error (.missingArgument index args.size)

def unbox (args : Array Object) (index : Nat) (kind : Kind) : Except MarshalError Value :=
  match objectAt args index with
  | .error e => .error e
  | .ok o => o.downcast index kind

/-- The next unused identity. -/
abbrev Supply := Nat

def Supply.box (supply : Supply) (v : Value) : Object × Supply := (⟨supply, v⟩, supply + 1)

namespace Supply

variable (supply : Supply) (v : Value)

@[simp]
theorem value_box : (supply.box v).1.value = v := rfl

@[simp]
theorem id_box : (supply.box v).1.id = supply := rfl

/-- An identity that was given away is not given away again. -/
theorem id_box_lt : (supply.box v).1.id < (supply.box v).2 := Nat.lt_add_one supply

end Supply

end HookDispatch
