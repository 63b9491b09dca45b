/-!
Attributes of a declared method. Each attribute has a fixed bit, by which a set of them is written
as a number.
-/
namespace HookDispatch

inductive Flag where
  | isStatic | isPublic | isHook | isAccessor | isVirtual | isOverride | isNewSlot | isBorrowed
deriving DecidableEq, Repr

namespace Flag

def all : List Flag :=
  [isStatic, isPublic, isHook, isAccessor, isVirtual, isOverride, isNewSlot, isBorrowed]

def name : Flag → String
  | isStatic => "STATIC"
  | isPublic => "PUBLIC"
  | isHook => "HOOK"
  | isAccessor => "ACCESSOR"
  | isVirtual => "VIRTUAL"
  | isOverride => "OVERRIDE"
  | isNewSlot => "NEW_SLOT"
  | isBorrowed => "BORROWED"

def bit : Flag → Nat
  | isStatic => 1
  | isPublic => 2
  | isHook => 4
  | isAccessor => 8
  | isVirtual => 16
  | isOverride => 32
  | isNewSlot => 64
  | isBorrowed => 128

def ofName? (text : String) : Option Flag := all.find? (·.name == text)

end Flag

/-- A set of attributes: no receiver; public; tagged as a hook; property accessor; takes part in
virtual dispatch; reuses an inherited slot; opens a new slot; holds a borrow that outlives the
call. -/
structure Flags where
  isStatic : Bool := false
  isPublic : Bool := false
  isHook : Bool := false
  isAccessor : Bool := false
  isVirtual : Bool := false
  isOverride : Bool := false
  isNewSlot : Bool := false
  isBorrowed : Bool := false
deriving DecidableEq, Repr

namespace Flags

def has (fs : Flags) : Flag → Bool
  | .isStatic => fs.isStatic
  | .isPublic => fs.isPublic
  | .isHook => fs.isHook
  | .isAccessor => fs.isAccessor
  | .isVirtual => fs.isVirtual
  | .isOverride => fs.isOverride
  | .isNewSlot => fs.isNewSlot
  | .isBorrowed => fs.isBorrowed

def add (fs : Flags) : Flag → Flags
  | .isStatic => { fs with isStatic := true }
  | .isPublic => { fs with isPublic := true }
  | .isHook => { fs with isHook := true }
  | .isAccessor => { fs with isAccessor := true }
  | .isVirtual => { fs with isVirtual := true }
  | .isOverride => { fs with isOverride := true }
  | .isNewSlot => { fs with isNewSlot := true }
  | .isBorrowed => { fs with isBorrowed := true }

def toList (fs : Flags) : List Flag := Flag.all.filter fs.has

def bits (fs : Flags) : Nat := fs.toList.foldl (fun n f => n + f.bit) 0

end Flags

end HookDispatch
