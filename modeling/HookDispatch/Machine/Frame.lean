import HookDispatch.Object.Basic

/-!
The frame of a hook call: the arguments in parameter order, as a hook body sees them. A parameter
is an argument of the array or a temporary; only mutably borrowed temporaries can be written, and
what is written stays in the frame until the call succeeds.
-/
namespace HookDispatch

inductive Operand where
  | arg (index : Nat)
  | temp (slot : Nat) (mutable : Bool)
deriving DecidableEq, Repr

/-- A filled temporary, with the position of the argument that it came from. -/
structure Slot where
  index : Nat
  object : Object
deriving DecidableEq, Repr

structure Frame where
  args : Array Object
  operands : Array Operand
  temps : Array (Option Slot)
deriving DecidableEq, Repr

namespace Frame

def size (f : Frame) : Nat := f.operands.size

def missing (f : Frame) (n : Nat) : MarshalError := .missingArgument n f.size

def slotAt (f : Frame) (slot n : Nat) : Except MarshalError Slot :=
  match f.temps.getD slot none with
  | some s => .ok s
  | none => .error (f.missing n)

def object (f : Frame) (n : Nat) : Except MarshalError Object :=
  match f.operands[n]? with
  | none => .error (f.missing n)
  | some (.arg index) => objectAt f.args index
  | some (.temp slot _) => (f.slotAt slot n).map Slot.object

def arg (f : Frame) (n : Nat) (kind : Kind) : Except MarshalError Value :=
  match f.operands[n]? with
  | none => .error (f.missing n)
  | some (.arg index) => unbox f.args index kind
  | some (.temp slot _) =>
    match f.slotAt slot n with
    | .error e => .error e
    | .ok s => s.object.downcast s.index kind

def write (f : Frame) (n : Nat) (o : Object) : Except MarshalError Frame :=
  match f.operands[n]? with
  | none => .error (f.missing n)
  | some (.temp slot true) =>
    match f.slotAt slot n with
    | .error e => .error e
    | .ok s => .ok { f with temps := f.temps.setIfInBounds slot (some { s with object := o }) }
  | some _ => .error (.notByRef n)

end Frame

end HookDispatch
