import HookDispatch.Machine.Frame

/-!
Hook bodies. A body works on the state of its target and talks to its frame: it may ask for the
number of parameters, read a parameter, write one back and box values, any finite number of times
and depending on the answers, and it ends with a new state and a result. This is all that a body
can do, so a law about all bodies is proved by induction.
-/
namespace HookDispatch

inductive Body (σ : Type) where
  | done (state : σ) (result : Except MarshalError (Option Object))
  | size (next : Nat → Body σ)
  | arg (n : Nat) (kind : Kind) (next : Except MarshalError Value → Body σ)
  | object (n : Nat) (next : Except MarshalError Object → Body σ)
  | write (n : Nat) (o : Object) (next : Except MarshalError Unit → Body σ)
  | box (v : Value) (next : Object → Body σ)

namespace Body

structure Ending (σ : Type) where
  state : σ
  result : Except MarshalError (Option Object)
  frame : Frame
  supply : Supply

variable {σ : Type}

/-- Runs a body on a frame. A failed write leaves the frame as it was. -/
def run (frame : Frame) (supply : Supply) : Body σ → Ending σ
  | done state result => ⟨state, result, frame, supply⟩
  | size next => (next frame.size).run frame supply
  | arg n kind next => (next (frame.arg n kind)).run frame supply
  | object n next => (next (frame.object n)).run frame supply
  | write n o next =>
    match frame.write n o with
    | .ok written => (next (.ok ())).run written supply
    | .error e => (next (.error e)).run frame supply
  | box v next => (next (supply.box v).1).run frame (supply.box v).2

def writeBack (n : Nat) (v : Value) (next : Except MarshalError Unit → Body σ) : Body σ :=
  .box v fun o => .write n o next

def ofResult (state : σ) (result : Option Object) : Body σ := .done state (.ok result)

end Body

/-- The typed half of a hook: what it does on a target. -/
abbrev Invoker (σ : Type) := σ → Body σ

end HookDispatch
