import HookDispatch.Generation.Framework
import HookDispatch.Hooks.Collection
import HookDispatch.Program.Compile
import HookDispatch.Trie.OfRegistry

/-!
Generating dispatchers. A generator checks the framework's contract once and then serves any
number of types: it collects a type's hooks, compiles their trie and installs the method that
overrides the contract. A type that declares such a method already is refused, and nothing is
installed unless every step succeeds.
-/
namespace HookDispatch

/-- The choices of a generation pass: whether the name is compared at once when a single key
remains, and whether a bare name selects its only overload. -/
structure Config where
  collapse : Bool := true
  aliases : Bool := true
deriving DecidableEq, Repr

structure Generator where
  /-- The method that generated methods override. -/
  contract : Method
  config : Config := {}
deriving DecidableEq, Repr

namespace Generator

def ofFramework (f : Framework) : Except GeneratorError Generator :=
  match f.contract? dispatchMethodName with
  | none => .error (.contractNotFound f.name dispatchMethodName)
  | some contract =>
    match contract.contractFault with
    | some fault => .error (.contractMismatch contract.name fault.reason)
    | none => .ok { contract }

def standard (config : Config) : Generator := ⟨Framework.standardContract, config⟩

def compileRegistry (g : Generator) (typeName : String) (r : Registry) :
    Traced (Except GeneratorError Program) :=
  match Trie.ofRegistry r g.config.aliases with
  | .error e => ⟨[], .error (.compile e)⟩
  | .ok trie =>
    match (trie.compile r g.config.collapse typeName).2 with
    | ⟨events, .error e⟩ => ⟨events, .error (.compile e)⟩
    | ⟨events, .ok program⟩ =>
      ⟨events ++ [.generated typeName r.size trie.keyCount trie.size program.size program.temps],
        .ok program⟩

/-- Compiles the dispatcher of a type without touching its table. -/
def compile (g : Generator) (t : MethodTable) : Traced (Except GeneratorError Program) :=
  let collected := t.collect
  let compiled := g.compileRegistry t.typeName collected.value
  ⟨collected.events ++ compiled.events, compiled.value⟩

def overrideFor (g : Generator) (typeName : String) : Method where
  name := g.contract.name
  owner := typeName
  params := g.contract.params
  ret := g.contract.ret
  flags := { isPublic := true, isVirtual := true, isOverride := true }

/-- Compiles the dispatcher of a type and installs it; the answer has the table afterwards. -/
def generate (g : Generator) (t : MethodTable) :
    MethodTable × Traced (Except GeneratorError Program) :=
  if (t.findDeclared g.contract.name).isSome then
    (t, ⟨[], .error (.alreadyInstalled t.typeName)⟩)
  else
    match g.compile t with
    | ⟨events, .error e⟩ => (t, ⟨events, .error e⟩)
    | ⟨events, .ok program⟩ => (t.add (g.overrideFor t.typeName), ⟨events, .ok program⟩)

theorem contractFault_standardContract : Framework.standardContract.contractFault = none := by
  decide +kernel

theorem ofFramework_standard : ofFramework Framework.standard = .ok (standard {}) := by
  have found : Framework.standard.contract? dispatchMethodName = some Framework.standardContract :=
    by decide
  simp only [ofFramework, found, contractFault_standardContract, standard]

end Generator

end HookDispatch
