/-!
What can go wrong, and how it is said. Generation fails for a framework or a type as a whole;
compilation fails at an operation or a trie node; marshalling fails at an argument of one call.
-/
namespace HookDispatch

inductive MarshalError where
  /-- The argument array, of length `len`, ends before the argument. -/
  | missingArgument (index len : Nat)
  | argumentType (index : Nat) (expected : String)
  /-- A value was written back to a parameter that is not mutably borrowed. -/
  | notByRef (index : Nat)
deriving DecidableEq, Repr

def MarshalError.message : MarshalError → String
  | missingArgument index len =>
    "argument " ++ toString index ++ " is missing (got " ++ toString len ++ " arguments)"
  | argumentType index expected =>
    "argument " ++ toString index ++ " is not a `" ++ expected ++ "`"
  | notByRef index => "parameter " ++ toString index ++ " is not passed by mutable reference"

inductive CompileError where
  /-- A pending jump goes to a node that no operation was emitted for. -/
  | unresolvedJump (op node : Nat)
  | notABranch (op : Nat)
  /-- A branch was emitted and never queued for resolution. -/
  | danglingBranch (op : Nat)
  | alreadyResolved (op : Nat)
  /-- A trie node has neither a hook nor edges, or a hook is unknown. -/
  | deadEnd (node : Nat)
  | emptyKey
  | unsupportedReturn (key : String)
deriving DecidableEq, Repr

def CompileError.message : CompileError → String
  | unresolvedJump op node =>
    "jump at " ++ toString op ++ " targets trie node " ++ toString node ++
      " which was never emitted"
  | notABranch op => "operation " ++ toString op ++ " is not a branch"
  | danglingBranch op => "branch at " ++ toString op ++ " has no target"
  | alreadyResolved op => "branch at " ++ toString op ++ " was already resolved"
  | deadEnd node =>
    "trie node " ++ toString node ++ " is neither terminal nor has children"
  | emptyKey => "empty hook name cannot be inserted"
  | unsupportedReturn key => "hook `" ++ key ++ "` returns an unresolved generic type"

inductive GeneratorError where
  | contractNotFound (framework method : String)
  | contractMismatch (method reason : String)
  | alreadyInstalled (typeName : String)
  | unboundHook (key : String)
  | compile (error : CompileError)
deriving DecidableEq, Repr

def GeneratorError.message : GeneratorError → String
  | contractNotFound framework method =>
    "framework `" ++ framework ++ "` does not declare contract method `" ++ method ++ "`"
  | contractMismatch method reason =>
    "contract method `" ++ method ++ "` has an unexpected shape: " ++ reason
  | alreadyInstalled typeName =>
    "type `" ++ typeName ++ "` already declares a dispatch method"
  | unboundHook key => "no invoker bound for hook `" ++ key ++ "`"
  | compile error => error.message

inductive HookError where
  | generator (error : GeneratorError)
  | compile (error : CompileError)
  | marshal (error : MarshalError)
  | custom (text : String)
deriving DecidableEq, Repr

def HookError.message : HookError → String
  | generator error => "generator error: " ++ error.message
  | compile error => "compile error: " ++ error.message
  | marshal error => "marshal error: " ++ error.message
  | custom text => text

end HookDispatch
