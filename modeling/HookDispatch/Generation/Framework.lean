import HookDispatch.Method.Basic

/-!
The framework's side of dispatch. A framework declares contract methods on its base type; the one
that dispatches hooks by name takes the name by value, a result slot and the argument array as
mutable references, and says whether the name was handled.
-/
namespace HookDispatch

def dispatchMethodName : String := "direct_call_hook"

structure Framework where
  name : String
  contracts : List Method := []
deriving DecidableEq, Repr

inductive ContractFault where
  | isStatic | notVirtual | generic | parameterCount | nameMode | slotMode | returnType
deriving DecidableEq, Repr

def ContractFault.reason : ContractFault → String
  | isStatic => "must be an instance method"
  | notVirtual => "must be overridable"
  | generic => "must not be generic"
  | parameterCount => "must take a name, a result slot and an argument array"
  | nameMode => "name must be passed by value"
  | slotMode => "result slot and argument array must be mutable references"
  | returnType => "must return bool"

namespace Framework

def standardContract : Method where
  name := dispatchMethodName
  owner := "Plugin"
  params :=
    [{ name := "name", element := ⟨"Option<&str>"⟩ },
      { name := "result", element := ⟨"Option<Object>"⟩, passing := .mutable },
      { name := "args", element := ⟨"[Object]"⟩, passing := .mutable }]
  ret := .value ⟨"bool"⟩
  flags := { isPublic := true, isVirtual := true, isNewSlot := true }

def standard : Framework := { name := "hookwire", contracts := [standardContract] }

def contract? (f : Framework) (name : String) : Option Method :=
  f.contracts.find? (·.name == name)

end Framework

namespace Method

def returnsBool (m : Method) : Bool :=
  match m.ret with
  | .value type => type.canonical == "bool"
  | _ => false

/-- What is wrong with a method as the dispatch contract; the first fault counts. -/
def contractFault (m : Method) : Option ContractFault :=
  if m.flags.isStatic then some .isStatic
  else if !m.flags.isVirtual then some .notVirtual
  else if 0 < m.genericParams then some .generic
  else
    match m.params with
    | [name, result, args] =>
      if name.passing != .byValue then some .nameMode
      else if result.passing != .mutable || args.passing != .mutable then some .slotMode
      else if !m.returnsBool then some .returnType
      else none
    | _ => some .parameterCount

end Method

end HookDispatch
