import HookDispatch.Hooks.Eligibility
import HookDispatch.Program.Label

/-!
What a generation pass reports while it works. Reports are values: a computation that makes some
returns them, in order, beside its result.
-/
namespace HookDispatch

inductive Event where
  /-- A method is left out of the dispatcher. -/
  | skipped (typeName method : String) (reason : SkipReason)
  /-- A hook's key is taken by an earlier method. -/
  | shadowed (typeName : String) (key : Signature)
  /-- All pending jumps were patched. -/
  | resolved (count : Nat) (epilogue : Label)
  /-- A dispatcher was generated; the trie's keys and nodes include aliases and the root. -/
  | generated (typeName : String) (hooks keys nodes operations temps : Nat)
deriving DecidableEq, Repr

/-- A result with the events reported on the way to it. -/
structure Traced (α : Type) where
  events : List Event := []
  value : α

namespace Traced

def map {α β : Type} (f : α → β) (t : Traced α) : Traced β := ⟨t.events, f t.value⟩

end Traced

end HookDispatch
