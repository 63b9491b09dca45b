import HookDispatch.TypeName.Canonical

/-!
Type names. A type is known by the text it was written with, and two texts name the same type when
their canonical spellings agree. The erased object type is recognised by any path to it, and the
two unsized shapes that an argument may borrow, `str` and slices, are stored as their owned forms.
-/
namespace HookDispatch

/-- A type as it was written. -/
structure TypeName where
  source : String
deriving DecidableEq, Repr

namespace TypeName

open Text

/-- The spelling that signature keys are built from. -/
def canonical (t : TypeName) : String := canonicalize t.source

def sameType (t u : TypeName) : Bool := t.canonical == u.canonical

/-- The type that every boxed value is erased to. -/
def object : TypeName := ⟨"Object"⟩

/-- The part of a canonical text after its last path separator. Colons occur in canonical texts in
pairs only. -/
def lastSegment (text : List Char) : List Char := (text.reverse.takeWhile (· ≠ ':')).reverse

/-- Whether this names the erased object type, by any path. -/
def isObject (t : TypeName) : Bool := lastSegment t.canonical.toList = object.source.toList

def opensBracket (c : Char) : Bool := c = '<' || c = '(' || c = '['

def closesBracket (c : Char) : Bool := c = '>' || c = ')' || c = ']'

/-- Whether a semicolon stands outside all brackets, counting from the given depth. -/
def semicolonOutside (depth : Int) : List Char → Bool
  | [] => false
  | c :: rest =>
    if opensBracket c then semicolonOutside (depth + 1) rest
    else if closesBracket c then semicolonOutside (depth - 1) rest
    else (c = ';' && depth = 0) || semicolonOutside depth rest

/-- What stands between an opening and a closing square bracket at the ends of a text. -/
def squareInterior : List Char → Option (List Char)
  | '[' :: rest => if rest.getLast? = some ']' then some rest.dropLast else none
  | _ => none

/-- The element type of a slice; an array, which has a length after a semicolon, is none. -/
def sliceElement (t : TypeName) : Option (List Char) :=
  (squareInterior (trim t.source.toList)).filter (!semicolonOutside 0 ·)

/-- The owned type that an argument of this type is stored as. -/
def storage (t : TypeName) : TypeName :=
  if t.canonical = "str" then ⟨"String"⟩
  else
    match t.sliceElement with
    | some element => ⟨"Vec<" ++ String.ofList (trim element) ++ ">"⟩
    | none => t

end TypeName

end HookDispatch
