import HookDispatch.Machine.Dispatcher

/-!
Methods as functions, and the bodies that call them faithfully: every parameter is read in order
at the type it is stored as, the method is called, the mutably borrowed parameters are written
back and the result is boxed. Erased objects pass through unboxed.
-/
namespace HookDispatch

/-- What a method gets for a parameter, or gives back. -/
inductive Datum where
  | plain (v : Value)
  /-- An erased object, as it is. -/
  | erased (o : Object)
deriving DecidableEq, Repr

/-- What a method did: its target, all its parameters afterwards, and its result. -/
structure Reply (σ : Type) where
  state : σ
  params : List Datum
  ret : Option Datum := none

/-- A method as a function of its target and its parameters. -/
abbrev Behaviour (σ : Type) := σ → List Datum → Reply σ

namespace Body

variable {σ : Type}

/-- Boxes a datum, unless it is an object already. -/
def boxed (d : Datum) (next : Object → Body σ) : Body σ :=
  match d with
  | .plain v => .box v next
  | .erased o => next o

def orFail {α : Type} (state : σ) (next : α → Body σ) : Except MarshalError α → Body σ
  | .ok a => next a
  | .error e => .done state (.error e)

def readFrom (kinds : TypeName → Kind) (state : σ) (i : Nat) :
    List Parameter → (List Datum → Body σ) → Body σ
  | [], next => next []
  | p :: ps, next =>
    let onward (d : Datum) := readFrom kinds state (i + 1) ps fun ds => next (d :: ds)
    if p.storage.isObject then .object i (orFail state fun o => onward (.erased o))
    else .arg i (kinds p.storage) (orFail state fun v => onward (.plain v))

/-- Writes the mutably borrowed parameters from position `i` on back. -/
def writeFrom (state : σ) (i : Nat) : List Parameter → List Datum → Body σ → Body σ
  | p :: ps, d :: ds, next =>
    let rest := writeFrom state (i + 1) ps ds next
    if p.passing = .mutable then boxed d fun o => .write i o (orFail state fun _ => rest)
    else rest
  | _, _, next => next

def finish (state : σ) : Option Datum → Body σ
  | none => .done state (.ok none)
  | some d => boxed d fun o => .done state (.ok (some o))

end Body

def Method.faithful {σ : Type} (m : Method) (behaviour : Behaviour σ)
    (kinds : TypeName → Kind := .ofType) : Invoker σ := fun state =>
  Body.readFrom kinds state 0 m.params fun ds =>
    let reply := behaviour state ds
    Body.writeFrom reply.state 0 m.params reply.params (Body.finish reply.state reply.ret)

end HookDispatch
