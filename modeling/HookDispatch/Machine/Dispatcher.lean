import HookDispatch.Machine.Run

/-!
Dispatchers: a program paired with the invokers of all its hooks. Invokers are bound in a table by
signature key, a later one in place of an earlier one; a program with an unbound hook is refused.
Branches of compiled programs only go forward, so a run does not need more steps than there are
operations.
-/
namespace HookDispatch

structure HookTable (σ : Type) where
  entries : List (Signature × Invoker σ) := []

namespace HookTable

variable {σ : Type}

def bind (table : HookTable σ) (key : Signature) (invoker : Invoker σ) : HookTable σ :=
  if table.entries.any (·.1 == key) then
    ⟨table.entries.map fun (k, old) => if k = key then (k, invoker) else (k, old)⟩
  else ⟨table.entries ++ [(key, invoker)]⟩

def get? (table : HookTable σ) (key : Signature) : Option (Invoker σ) :=
  (table.entries.find? (·.1 == key)).map Prod.snd

def size (table : HookTable σ) : Nat := table.entries.length

def describe (table : HookTable σ) : String :=
  let keys := table.entries.map fun (key, _) =>
    "HookSignature(" ++ Text.quoteString key.text ++ ")"
  "HookTable \x7b hooks: [" ++ String.intercalate ", " keys ++ "] \x7d"

end HookTable

structure Dispatcher (σ : Type) where
  program : Program
  /-- The invokers of the program's hooks, by their ids. -/
  invokers : Array (Invoker σ)

namespace Dispatcher

variable {σ : Type}

/-- The invokers of hooks, or the first hook without one. -/
def bindAll (table : HookTable σ) : List Signature → Except GeneratorError (List (Invoker σ))
  | [] => .ok []
  | key :: keys =>
    match table.get? key with
    | none => .error (.unboundHook key.text)
    | some invoker => (bindAll table keys).map (invoker :: ·)

def ofProgram (p : Program) (table : HookTable σ) : Except GeneratorError (Dispatcher σ) :=
  (bindAll table (p.hooks.map Prod.fst)).map fun invokers => ⟨p, invokers.toArray⟩

def start (d : Dispatcher σ) (target : σ) (supply : Supply) (result : Option Object)
    (args : Array Object) : Run σ :=
  { temps := Array.replicate d.program.temps none, result, args, target, supply }

/-- Invokes the hook with the given name; a missing name is like the empty one. -/
def call (d : Dispatcher σ) (target : σ) (supply : Supply) (name : Option String)
    (result : Option Object) (args : Array Object) : Run σ :=
  Run.go d.program.operations d.invokers (Text.bytes (name.getD "")) (d.program.size + 1)
    (d.start target supply result args)

def describe (d : Dispatcher σ) : String :=
  "Dispatcher \x7b type_name: " ++ Text.quoteString d.program.typeName ++ ", ops: " ++
    toString d.program.size ++ ", hooks: " ++ toString d.invokers.size ++ " \x7d"

end Dispatcher

structure Hosted (σ : Type) where
  target : σ
  dispatcher : Dispatcher σ

def Hosted.call {σ : Type} (h : Hosted σ) (supply : Supply) (name : Option String)
    (result : Option Object) (args : Array Object) : Run σ :=
  h.dispatcher.call h.target supply name result args

end HookDispatch
