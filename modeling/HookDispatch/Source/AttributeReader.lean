import HookDispatch.Source.Grammar

/-!
Reading attributes. An attribute has a path and perhaps a group of tokens or an assigned value.
Outer attributes stand in front of what they describe, and inner ones, with an exclamation mark,
at the start of its contents.
-/
namespace HookDispatch.Source

open Reader
open TokenTree (symbol)

inductive AttributeValue where
  | plain
  | list (tokens : Tokens)
  | assigned

structure Attribute where
  path : List String
  value : AttributeValue
  /-- The attribute as it is printed, with its mark and brackets. -/
  tokens : Tokens

/-- The words that begin a path although they are keywords. -/
def pathWords : List String := ["super", "self", "Self", "crate"]

def isPathWord (t : TokenTree) : Bool := isIdent t || isOneOf pathWords t

def plainPath : Reader Path := do
  let global ← takeOp "::"
  let (names, trailing) ← separatedBy "::" (return !(← peek isPathWord)) anyWord
  if names.isEmpty || trailing then refuse
  return .mk global (names.map (.mk · .none))

/-- A value that is assigned to an attribute. It has no attributes itself. -/
def assignedValue (g : Grammar) : Reader Tokens := do
  if (← peekOp "#") && (← peekAt 1 (isGroup .bracket)) then refuse
  return (← g.expression true).tokens

def attributeItem (g : Grammar) : Reader Attribute := do
  let path ← if ← takeWord "unsafe" then pure (Path.word "unsafe") else plainPath
  let withPath (value : AttributeValue) (tokens : Tokens) : Attribute :=
    ⟨path.names, value, path.tokens ++ tokens⟩
  match ← get with
  | .group d inner :: rest =>
    set rest
    return withPath (.list inner) [.group d inner]
  | _ =>
    if ← takeOp "=" then return withPath .assigned (symbol "=" ++ (← assignedValue g))
    else return withPath .plain []

def bracketedAttribute (g : Grammar) (mark : Tokens) : Reader Attribute := do
  let a ← within .bracket (attributeItem g)
  return { a with tokens := mark ++ [.group .bracket a.tokens] }

def outerAttributes (g : Grammar) : Reader (List Attribute) :=
  repeatWhile (peekOp "#") do bracketedAttribute g (← op "#")

def attributeTokens (attributes : List Attribute) : Tokens := attributes.flatMap Attribute.tokens

def outer (g : Grammar) : Reader Tokens := attributeTokens <$> outerAttributes g

def innerAttributes (g : Grammar) : Reader (List Attribute) :=
  repeatWhile (return (← peekOp "#") && (← peekAt 1 (isPunctChar '!'))) do
    bracketedAttribute g (← seq [op "#", op "!"])

def inner (g : Grammar) : Reader Tokens := attributeTokens <$> innerAttributes g

end HookDispatch.Source
