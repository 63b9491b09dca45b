import HookDispatch.DispatchLoop.Basic
import HookDispatch.Machine.Behaviour
import HookDispatch.Text.Utf8

/-!
Running a loop. Statements work on the variables of the loop, on the local variables of the arm
that is being run, on the argument array and the output slot, and on the target, whose methods are
given by their identifiers. A read that fails ends the run at once. The states of compiled loops
only grow, so a run does not enter more arms than there are.
-/
namespace HookDispatch

/-- Makes an object of a datum. Boxing an object puts it inside another one. -/
def Datum.toObject (d : Datum) (boxed : Bool) (supply : Supply) : Object × Supply :=
  match d, boxed with
  | .plain v, _ => supply.box v
  | .erased o, true => supply.box (.object o.value)
  | .erased o, false => (o, supply)

namespace DispatchLoop

/-- The local variables of an arm. Those that were never bound are empty tuples. -/
structure Locals where
  values : Nat → Datum := fun _ => .plain .unit
  temps : Nat → Datum := fun _ => .plain .unit
  ret : Datum := .plain .unit

namespace Locals

def bindValue (ls : Locals) (n : Nat) (d : Datum) : Locals :=
  { ls with values := fun k => if k = n then d else ls.values k }

def bindTemp (ls : Locals) (temp : Nat) (d : Datum) : Locals :=
  { ls with temps := fun k => if k = temp then d else ls.temps k }

def datum (ls : Locals) : Actual → Datum
  | .value n => ls.values n
  | .address temp _ => ls.temps temp
  | .constant b => .plain (.bool b)

/-- Takes over what a method left in the temporaries that it borrowed mutably. -/
def update (ls : Locals) : List Actual → List Datum → Locals
  | .address temp true :: actuals, d :: ds => (ls.bindTemp temp d).update actuals ds
  | _ :: actuals, _ :: ds => ls.update actuals ds
  | _, _ => ls

def isTrue (ls : Locals) (a : Actual) : Bool := ls.datum a == .plain (.bool true)

end Locals

/-- What the names in a loop stand for: the methods of the target, and the types. -/
structure Scope (σ : Type) where
  methods : String → Behaviour σ
  kinds : TypeName → Kind

structure Run (σ : Type) where
  state : Nat := 0
  length : Nat := 0
  position : Nat := 0
  loaded : Option UInt8 := none
  flag : Bool := false
  locals : Locals := {}
  result : Option Object
  args : Array Object
  target : σ
  supply : Supply
  /-- The answer, once the run has ended. -/
  outcome : Option (Except MarshalError Bool) := none

def Read.eval (kinds : TypeName → Kind) (args : Array Object) : Read → Except MarshalError Datum
  | .object index => (objectAt args index).map .erased
  | .typed index type _ => (unbox args index (kinds type)).map .plain

namespace Run

variable {σ : Type}

def fail (s : Run σ) (e : MarshalError) : Run σ := { s with outcome := some (.error e) }

def holds (s : Run σ) (name : List UInt8) : Condition → Bool
  | .nameEmpty => name.isEmpty
  | .exhausted => s.length ≤ s.position
  | .remaining => s.position < s.length
  | .different => !s.flag

def reading (s : Run σ) (kinds : TypeName → Kind) (read : Read) (bind : Datum → Locals) : Run σ :=
  match read.eval kinds s.args with
  | .error e => s.fail e
  | .ok d => { s with locals := bind d }

def callMethod (s : Run σ) (behaviour : Behaviour σ) (actuals : List Actual) : Run σ :=
  let reply := behaviour s.target (actuals.map s.locals.datum)
  let locals := s.locals.update actuals reply.params
  { s with target := reply.state, locals := { locals with ret := reply.ret.getD (.plain .unit) } }

def exec (scope : Scope σ) (name : List UInt8) (s : Run σ) : Stmt → Run σ
  | .clearResult => { s with result := none }
  | .initCursor => { s with length := name.length, position := 0 }
  | .loadByte => { s with loaded := name[s.position]? }
  | .compareByte b => { s with flag := s.loaded == some b }
  | .compareName key => { s with flag := name == Text.bytes key }
  | .advance => { s with position := s.position + 1 }
  | .select c target otherwise =>
    { s with state := if s.holds name c then target else otherwise }
  | .goto target => { s with state := target }
  | .bindValue n read => s.reading scope.kinds read (s.locals.bindValue n)
  | .bindTemp temp read => s.reading scope.kinds read (s.locals.bindTemp temp)
  | .call ident actuals _ => s.callMethod (scope.methods ident) actuals
  | .storeResult boxed =>
    let (o, supply) := s.locals.ret.toObject boxed s.supply
    { s with result := some o, supply }
  | .storeArg index temp boxed =>
    let (o, supply) := (s.locals.temps temp).toObject boxed s.supply
    { s with args := s.args.setIfInBounds index o, supply }
  | .ret handled => { s with outcome := some (.ok (s.locals.isTrue handled)) }

def execAll (scope : Scope σ) (name : List UInt8) (s : Run σ) :
    List Stmt → Run σ
  | [] => s
  | stmt :: rest =>
    if s.outcome.isSome then s else (s.exec scope name stmt).execAll scope name rest

def step (loop : DispatchLoop) (scope : Scope σ) (name : List UInt8)
    (s : Run σ) : Run σ :=
  match loop.body? s.state with
  | none => { s with outcome := some (.ok false) }
  | some body => { s with locals := {} }.execAll scope name body

/-- Goes on until the run has ended, for a number of arms at most. -/
def go (loop : DispatchLoop) (scope : Scope σ) (name : List UInt8) :
    Nat → Run σ → Run σ
  | 0, s => s
  | n + 1, s => if s.outcome.isSome then s else go loop scope name n (s.step loop scope name)

def answer (s : Run σ) : Except MarshalError Bool := s.outcome.getD (.ok false)

end Run

/-- Invokes the hook with the given name; a missing name is like the empty one. -/
def call {σ : Type} (loop : DispatchLoop) (methods : String → Behaviour σ) (target : σ)
    (supply : Supply) (name : Option String) (result : Option Object) (args : Array Object)
    (kinds : TypeName → Kind := .ofType) : Run σ :=
  Run.go loop ⟨methods, kinds⟩ (Text.bytes (name.getD "")) (loop.arms.length + 1)
    { result, args, target, supply }

end DispatchLoop

end HookDispatch
