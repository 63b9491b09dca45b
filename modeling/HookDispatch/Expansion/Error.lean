import HookDispatch.Error
import HookDispatch.Hooks.Registry

/-!
Why a block cannot be expanded. Source that is not well-formed is refused without words of its
own; every other reason has a message.
-/
namespace HookDispatch

inductive ExpansionError where
  /-- A text is no well-formed source. -/
  | malformed
  /-- The block has an option that does not exist. -/
  | unknownOption (name : String)
  /-- A hook attribute has an option that does not exist. -/
  | unknownHookOption (name : String)
  /-- A hook attribute is written as an assignment. -/
  | assignedHook
  /-- The block implements a trait. -/
  | notInherent
  | generation (error : GeneratorError)
  /-- No identifier is known for the method of a hook. -/
  | noMethod (key : String)
  /-- A program calls a hook that it does not have. -/
  | unknownHook (id : MethodId)
deriving DecidableEq, Repr

def ExpansionError.message : ExpansionError → Option String
  | malformed => none
  | unknownOption name => some ("unknown attribute: " ++ name)
  | unknownHookOption name => some ("unknown hook option: " ++ name)
  | assignedHook => some "expected `#[hook]` or `#[hook(skip)]`"
  | notInherent => some "#[hooks] must be placed on an inherent impl block"
  | generation error => some error.message
  | noMethod key => some ("no method for hook `" ++ key ++ "`")
  | unknownHook id => some ("no hook bound to " ++ id.text)

end HookDispatch
