import HookDispatch.Event
import HookDispatch.Hooks.Registry

/-!
Collecting the hooks of a method table. Every method ends in exactly one way: registered, skipped
for a reason, or shadowed by an earlier hook with the same key. The latter two are reported.
-/
namespace HookDispatch.MethodTable

def collectStep (t : MethodTable) (seen : Traced Registry) (m : Method) : Traced Registry :=
  match t.skipReason m with
  | some reason => { seen with events := seen.events ++ [.skipped t.typeName m.name reason] }
  | none =>
    let key := Signature.ofMethod m
    if key ∈ seen.value.keys then
      { seen with events := seen.events ++ [.shadowed t.typeName key] }
    else { seen with value := seen.value.insert key m }

def collect (t : MethodTable) : Traced Registry :=
  t.methods.foldl t.collectStep { value := .empty }

def registerAll (t : MethodTable) : Registry := .ofMethods t.methods

end HookDispatch.MethodTable
