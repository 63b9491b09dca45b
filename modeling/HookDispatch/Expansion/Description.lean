import HookDispatch.Expansion.Error
import HookDispatch.Method.Basic
import HookDispatch.Source.ImplBlock

/-!
The method table of an implementation block. Each method is described by what its declaration
shows: a method without a borrowed receiver counts as static, a hook attribute tags a method or
keeps it out of the table, and a signature that holds a borrow beyond the call is flagged. The
identifiers to call are kept beside the table, because a method's name has no raw mark.
-/
namespace HookDispatch

open Source

/-- The identifiers to call, by method name. -/
abbrev Identifiers := List (String × String)

/-- Adds an identifier, unless the name has one. -/
def Identifiers.add (ids : Identifiers) (name ident : String) : Identifiers :=
  if (ids.lookup name).isSome then ids else ids ++ [(name, ident)]

structure Description where
  table : MethodTable
  identifiers : Identifiers := []
deriving DecidableEq, Repr

inductive HookTag where
  | hook | skip
deriving DecidableEq, Repr

namespace Source

def Attribute.isHook (a : Attribute) : Bool := a.path.getLast? == some "hook"

def Attribute.hookTag (a : Attribute) : Except ExpansionError HookTag :=
  match a.value with
  | .plain => .ok .hook
  | .assigned => .error .assignedHook
  | .list tokens =>
    match Reader.all Reader.ident tokens with
    | none => .error .malformed
    | some option => if option = "skip" then .ok .skip else .error (.unknownHookOption option)

/-- How attributes mark their method: to skip it is stronger than to tag it. -/
def hookTag (tag : Option HookTag) : List Attribute → Except ExpansionError (Option HookTag)
  | [] => .ok tag
  | a :: rest =>
    if a.isHook then
      match a.hookTag with
      | .error e => .error e
      | .ok this => hookTag (if tag = some .skip then tag else some this) rest
    else hookTag tag rest

namespace TypeExpr

/-- The type behind one reference, or the type itself. -/
def element : TypeExpr → TypeExpr
  | .reference _ _ target => target
  | t => t

def passing : TypeExpr → Passing
  | .reference _ true _ => .mutable
  | .reference _ false _ => .shared
  | _ => .byValue

/-- Whether the type mentions a borrow that is not static. -/
def holdsBorrow (t : TypeExpr) : Bool := borrows t.tokens

/-- How a return type is classified inside a block with the given type parameters. -/
def returnType (typeParams : List String) (t : TypeExpr) : ReturnType :=
  if t.isImplTrait || t.bareName?.any typeParams.contains then .generic t.render
  else .ofType ⟨t.render⟩

end TypeExpr

/-- Whether an element type is a list of erased objects, as its spelling shows. -/
def isCatchAll (element : TypeName) : Bool :=
  element.canonical == "[Object]" || element.canonical == "Vec[Object]" ||
    element.canonical.endsWith "::Object]"

def parameter (name : String) (t : TypeExpr) : Parameter :=
  let element : TypeName := ⟨t.element.render⟩
  { name, element, passing := t.passing, variadic := isCatchAll element }

namespace FnItem

/-- Whether the method can be called through a borrowed receiver. -/
def isCallable (f : FnItem) : Bool :=
  f.receiver.any TypeExpr.isReference && !f.isAsync && !f.isUnsafe

/-- Parameters without a name of their own are named by position, the receiver counted. -/
def parameters (f : FnItem) : List Parameter :=
  let first := if f.receiver.isSome then 1 else 0
  f.params.zipIdx.map fun ((name, t), i) =>
    parameter (name.getD ("arg" ++ toString (first + i))) t

def holdsBorrow (f : FnItem) : Bool :=
  f.params.any (·.2.element.holdsBorrow) || f.result.any TypeExpr.holdsBorrow

/-- The number of type parameters that a caller would have to choose, anonymous ones included. -/
def genericCount (f : FnItem) : Nat :=
  f.generics.countP (!·.isLifetime) + f.params.countP (·.2.isImplTrait)

def describe (f : FnItem) (typeName : String) (typeParams : List String)
    (tag : Option HookTag) : Method where
  name := unraw f.name
  owner := typeName
  params := f.parameters
  ret := (f.result.map (TypeExpr.returnType typeParams)).getD .void
  flags :=
    { isStatic := !f.isCallable
      isPublic := f.isPublic
      isHook := tag = some .hook
      isBorrowed := f.holdsBorrow }
  genericParams := f.genericCount

def withoutHookTags (f : FnItem) : FnItem :=
  { f with attributes := f.attributes.filter (!·.isHook) }

end FnItem

namespace ImplBlock

/-- Describes the methods one after the other, up to the first bad attribute. -/
def describeFrom (b : ImplBlock) (d : Description) : List FnItem → Except ExpansionError Description
  | [] => .ok d
  | f :: rest =>
    match hookTag none f.attributes with
    | .error e => .error e
    | .ok (some .skip) => b.describeFrom d rest
    | .ok tag =>
      let m := f.describe d.table.typeName (b.generics.params.filterMap GenericParam.typeName?) tag
      b.describeFrom ⟨d.table.add m, d.identifiers.add m.name f.name⟩ rest

def describe (b : ImplBlock) : Except ExpansionError Description :=
  b.describeFrom { table := { typeName := b.selfType.render } } b.methods

def withoutHookTags (b : ImplBlock) : ImplBlock :=
  { b with methods := b.methods.map FnItem.withoutHookTags }

def hookTagCount (b : ImplBlock) : Nat :=
  (b.methods.flatMap FnItem.attributes).countP Attribute.isHook

end ImplBlock

end Source

end HookDispatch
