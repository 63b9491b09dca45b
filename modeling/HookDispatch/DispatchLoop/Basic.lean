import HookDispatch.Program.Operation
import HookDispatch.Source.TypeExpr

/-!
Dispatch methods as loops over a state. Every block of a program is an arm of one match on the
state, and each arm but a returning one sets the state that comes next. Arguments are bound to
local variables of the arm: values are numbered in the order of their binding, temporaries by
their ids.
-/
namespace HookDispatch

namespace DispatchLoop

inductive Read where
  /-- The argument as the erased object that it is. -/
  | object (index : Nat)
  /-- The argument unboxed to a type, given with the way it is written. -/
  | typed (index : Nat) (type : TypeName) (written : Source.TypeExpr)

def Read.index : Read → Nat
  | object index | typed index _ _ => index

inductive Actual where
  | value (n : Nat)
  | address (temp : Nat) (mutable : Bool)
  | constant (b : Bool)
deriving DecidableEq, Repr

inductive Stmt where
  | clearResult
  | initCursor
  | loadByte
  | compareByte (byte : UInt8)
  | compareName (key : String)
  | advance
  /-- Sets the next state by a condition. -/
  | select (condition : Condition) (target otherwise : Nat)
  | goto (target : Nat)
  | bindValue (n : Nat) (read : Read)
  | bindTemp (temp : Nat) (read : Read)
  /-- Calls a method of the target, and keeps what it returns if it returns something. -/
  | call (ident : String) (actuals : List Actual) (keeps : Bool)
  | storeResult (boxed : Bool)
  | storeArg (index temp : Nat) (boxed : Bool)
  | ret (handled : Actual)

structure Arm where
  state : Nat
  body : List Stmt

end DispatchLoop

/-- The arms of a loop, in ascending order of their states. In any other state the answer is that
the name was not handled. -/
structure DispatchLoop where
  arms : List DispatchLoop.Arm

namespace DispatchLoop

def body? (loop : DispatchLoop) (state : Nat) : Option (List Stmt) :=
  (loop.arms.find? (·.state == state)).map Arm.body

end DispatchLoop

end HookDispatch
