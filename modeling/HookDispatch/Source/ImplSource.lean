/-!
The text of an implementation block from the texts of its parts. Nothing is checked here; whether
the text is a block is found out when it is read.
-/
namespace HookDispatch.Source

structure MethodSource where
  /-- What stands between the brackets of each attribute. -/
  attributes : List String := []
  visibility : String := ""
  isAsync : Bool := false
  isUnsafe : Bool := false
  name : String
  generics : List String := []
  receiver : Option String := none
  /-- Patterns with their types. -/
  params : List (String × String) := []
  result : Option String := none

inductive MemberSource where
  | method (m : MethodSource)
  | text (s : String)

structure ImplSource where
  selfType : String
  generics : List String := []
  whereClause : Option String := none
  trait : Option String := none
  members : List MemberSource := []

/-- Texts with spaces between them. Empty ones leave no trace. -/
def spacedText (parts : List String) : String :=
  String.intercalate " " (parts.filter (!·.isEmpty))

def listText (parts : List String) : String := String.intercalate ", " parts

def genericsText (params : List String) : String :=
  if params.isEmpty then "" else "<" ++ listText params ++ ">"

namespace MethodSource

def paramTexts (m : MethodSource) : List String :=
  m.receiver.toList ++ m.params.map fun (p, t) => p ++ ": " ++ t

def text (m : MethodSource) : String :=
  spacedText (m.attributes.map (fun a => "#[" ++ a ++ "]") ++
    [m.visibility, if m.isAsync then "async" else "", if m.isUnsafe then "unsafe" else "",
      "fn " ++ m.name ++ genericsText m.generics ++ "(" ++ listText m.paramTexts ++ ")",
      (m.result.map ("-> " ++ ·)).getD "", "\x7b\x7d"])

end MethodSource

def MemberSource.toText : MemberSource → String
  | method m => m.text
  | text s => s

def ImplSource.text (s : ImplSource) : String :=
  spacedText (["impl" ++ genericsText s.generics, (s.trait.map (· ++ " for")).getD "", s.selfType,
    (s.whereClause.map ("where " ++ ·)).getD "", "\x7b"] ++
    s.members.map MemberSource.toText ++ ["\x7d"])

end HookDispatch.Source
