import HookDispatch.Machine.Body
import HookDispatch.Program.Basic
import HookDispatch.Text.Utf8

/-!
Running a dispatch program. The machine does one operation at a time. A run ends when it returns,
when an argument is missing or a hook fails, or when control is past the last operation, which
counts as not handled. A hook's changes to its temporaries reach the argument array only after it
succeeded.
-/
namespace HookDispatch

/-- What a run did: operations, comparisons, and one past the last byte of the name looked at. -/
structure Stats where
  steps : Nat := 0
  compares : Nat := 0
  inspected : Nat := 0
deriving DecidableEq, Repr

structure Run (σ : Type) where
  pc : Nat := 0
  length : Nat := 0
  position : Nat := 0
  loaded : Option UInt8 := none
  flag : Bool := false
  handled : Bool := false
  operands : Array Operand := #[]
  temps : Array (Option Slot)
  returned : Option Object := none
  result : Option Object
  args : Array Object
  target : σ
  supply : Supply
  stats : Stats := {}
  /-- The answer, once the run has ended. -/
  outcome : Option (Except MarshalError Bool) := none

namespace Run

variable {σ : Type}

def frame (s : Run σ) : Frame := ⟨s.args, s.operands, s.temps⟩

def fail (s : Run σ) (e : MarshalError) : Run σ := { s with outcome := some (.error e) }

def holds (s : Run σ) (name : List UInt8) : Condition → Bool
  | .nameEmpty => name.isEmpty
  | .exhausted => s.length ≤ s.position
  | .remaining => s.position < s.length
  | .different => !s.flag

/-- Looks at the bytes of the name before a position. -/
def inspect (s : Run σ) (upTo : Nat) : Stats :=
  { s.stats with inspected := max s.stats.inspected upTo }

/-- Compares the whole name. All of it is looked at only if the lengths agree. -/
def compareName (s : Run σ) (name : List UInt8) (key : String) : Run σ :=
  let stats := if name.length = key.utf8ByteSize then s.inspect s.length else s.stats
  { s with flag := name == Text.bytes key, stats := { stats with compares := stats.compares + 1 } }

def fillTemp (s : Run σ) (index slot : Nat) : Run σ :=
  match objectAt s.args index with
  | .error e => s.fail e
  | .ok o =>
    if slot < s.temps.size then
      { s with temps := s.temps.setIfInBounds slot (some ⟨index, o⟩) }
    else s.fail (.missingArgument index s.args.size)

def callHook (s : Run σ) (invoker : Option (Invoker σ)) : Run σ :=
  -- A dispatcher has invokers for all hooks of its program, so there is one.
  let body := (invoker.getD fun state => .ofResult state none) s.target
  let ending := body.run s.frame s.supply
  let s := { s with target := ending.state, supply := ending.supply, temps := ending.frame.temps }
  match ending.result with
  | .error e => s.fail e
  | .ok returned => { s with returned, operands := #[] }

/-- Puts a temporary back into the argument array; the temporary is empty afterwards. -/
def storeArg (s : Run σ) (index slot : Nat) : Run σ :=
  match s.temps.getD slot none with
  | none => s
  | some filled =>
    { s with
      temps := s.temps.setIfInBounds slot none
      args := s.args.setIfInBounds index filled.object }

/-- Does one operation; the program counter is already past it. -/
def exec (invokers : Array (Invoker σ)) (name : List UInt8) (s : Run σ) : Operation → Run σ
  | .clearResult => { s with result := none }
  | .branch c l => if s.holds name c then { s with pc := l.toNat } else s
  | .initCursor => { s with length := name.length, position := 0 }
  | .loadByte => { s with loaded := name[s.position]?, stats := s.inspect (s.position + 1) }
  | .compareByte b =>
    { s with
      flag := s.loaded == some b, stats := { s.stats with compares := s.stats.compares + 1 } }
  | .compareName key => s.compareName name key
  | .advance => { s with position := s.position + 1 }
  | .unboxArg index _ =>
    match objectAt s.args index with
    | .error e => s.fail e
    | .ok _ => { s with operands := s.operands.push (.arg index) }
  | .unboxTemp index _ temp => s.fillTemp index temp.toNat
  | .pushTemp temp mutable => { s with operands := s.operands.push (.temp temp.toNat mutable) }
  | .call hook => s.callHook invokers[hook.toNat]?
  | .storeResult .. => { s with result := s.returned, returned := none }
  | .storeArg index temp _ => s.storeArg index temp.toNat
  | .setHandled value => { s with handled := value }
  | .ret => { s with outcome := some (.ok s.handled) }

def step (ops : Array Operation) (invokers : Array (Invoker σ)) (name : List UInt8) (s : Run σ) :
    Run σ :=
  match ops[s.pc]? with
  | none => { s with outcome := some (.ok false) }
  | some op =>
    exec invokers name
      { s with pc := s.pc + 1, stats := { s.stats with steps := s.stats.steps + 1 } } op

/-- Goes on until the run has ended, for a number of steps at most. -/
def go (ops : Array Operation) (invokers : Array (Invoker σ)) (name : List UInt8) :
    Nat → Run σ → Run σ
  | 0, s => s
  | n + 1, s => if s.outcome.isSome then s else go ops invokers name n (s.step ops invokers name)

def answer (s : Run σ) : Except MarshalError Bool := s.outcome.getD (.ok false)

end Run

end HookDispatch
