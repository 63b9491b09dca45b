import HookDispatch.Trie.Basic

/-!
The trie of a registry. Every key leads to its own hook. With aliases, a bare method name leads to
the one overload with parameters that has that name, unless it is a key itself.
-/
namespace HookDispatch

/-- The bare names read so far. A name's slot holds the hook of its first overload, and no hook from
the second on; `order` lists the names as they were first read. -/
structure NameTally where
  slots : String → Option (Option MethodId) := fun _ => none
  order : List String := []

namespace NameTally

def set (tally : NameTally) (name : String) (slot : Option MethodId) : NameTally :=
  { tally with slots := fun s => if s = name then some slot else tally.slots s }

def add (tally : NameTally) (name : String) (id : MethodId) : NameTally :=
  match tally.slots name with
  | some _ => tally.set name none
  | none => { tally.set name (some id) with order := tally.order ++ [name] }

/-- A key without parameters has no bare name beside it. -/
def read (tally : NameTally) (hook : MethodId × Signature) : NameTally :=
  if hook.2.hasParams then tally.add hook.2.bareName hook.1 else tally

def soles (tally : NameTally) : List (String × MethodId) :=
  tally.order.filterMap fun name => (tally.slots name).join.map (name, ·)

end NameTally

namespace Registry

def nameTally (r : Registry) : NameTally := r.idKeys.foldl .read {}

/-- The bare names that select their only overload. -/
def aliases (r : Registry) : List (String × MethodId) :=
  r.nameTally.soles.filter fun (name, _) => (r.idOf? name).isNone

def trieKeys (r : Registry) (withAliases : Bool) : List (String × MethodId) :=
  r.idKeys.map (fun (id, key) => (key.text, id)) ++ (if withAliases then r.aliases else [])

end Registry

def Trie.ofRegistry (r : Registry) (withAliases : Bool) : Except CompileError Trie :=
  Trie.empty.insertAll (r.trieKeys withAliases)

end HookDispatch
