import HookDispatch.Method.Basic

/-!
Signature keys. A method without parameters has its bare name as its key; parameters add their
canonical types in parentheses, so that overloads of one name have keys of their own.
-/
namespace HookDispatch

structure Signature where
  text : String
deriving DecidableEq, Repr

namespace Signature

/-- The parenthesised list of the canonical parameter types, empty if there are none. -/
def parameterList (ps : List Parameter) : String :=
  if ps.isEmpty then ""
  else "(" ++ String.intercalate ", " (ps.map (·.type.canonical)) ++ ")"

def ofMethod (m : Method) : Signature := ⟨m.name ++ parameterList m.params⟩

def bareChars (s : Signature) : List Char := s.text.toList.takeWhile (· ≠ '(')

def bareName (s : Signature) : String := String.ofList s.bareChars

def hasParams (s : Signature) : Bool := s.text.toList.contains '('

/-- Keys are ordered by their characters, which is also the order of their bytes. -/
instance : Ord Signature := ⟨fun s t => compare s.text t.text⟩

end Signature

end HookDispatch
