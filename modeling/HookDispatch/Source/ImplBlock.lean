import HookDispatch.Source.SignatureReader

/-!
Implementation blocks. Reading one checks everything in it and keeps what matters about methods:
attributes, visibility, receiver, parameters and result. What is no method, or has no body, is
passed over.
-/
namespace HookDispatch.Source

open Reader
open TokenTree (symbol)

structure FnItem where
  /-- The attributes in front of the method, and those at the start of its body. -/
  attributes : List Attribute
  isPublic : Bool
  isAsync : Bool
  isUnsafe : Bool
  name : String
  generics : List GenericParam
  /-- The type of the receiver, if there is one. -/
  receiver : Option TypeExpr
  /-- The parameters after the receiver, with the names that their patterns bind. -/
  params : List (Option String × TypeExpr)
  result : Option TypeExpr

structure ImplBlock where
  generics : Generics
  /-- The where clause with its keyword; empty if there is none. -/
  whereClause : Tokens
  isTraitImpl : Bool
  selfType : TypeExpr
  methods : List FnItem

def FnItem.ofSignature (attributes : List Attribute) (v : Visibility) (s : Signature) : FnItem where
  attributes := attributes
  isPublic := v.isPublic
  isAsync := s.isAsync
  isUnsafe := s.isUnsafe
  name := s.name
  generics := s.generics.params
  receiver := s.inputs.findSome? fun
    | .receiver t => some t
    | .typed .. => none
  params := s.inputs.filterMap fun
    | .receiver _ => none
    | .typed name t => some (name, t)
  result := s.result

/-! ## Members -/

/-- A constant, with whether it is an ordinary one: it has a value and no parameters. -/
def constItem (g : Grammar) : Reader (Tokens × Bool) := do
  let lead ← seq [word "const", nameOrBlank]
  let isGeneric ← peekOp "<"
  let type ← seq [Generics.tokens <$> generics g, op ":", TypeExpr.tokens <$> g.type true]
  let value ← onlyIf (peekOp "=") (seq [op "=", expressionTokens g true])
  let isBounded ← peekWord "where"
  let finish ← seq [whereClause g, op ";"]
  return (lead ++ type ++ value ++ finish, !value.isEmpty && !isGeneric && !isBounded)

structure TypeItem where
  tokens : Tokens
  hasBounds : Bool
  hasDefinition : Bool

/-- A type item. Its where clause stands in front of the definition, behind it, or in one of the
two places. -/
def typeItem (g : Grammar) (before after : Bool) : Reader TypeItem := do
  let lead ← seq [word "type", name, Generics.tokens <$> generics g]
  let hasBounds ← peekOp ":"
  let stop : Reader Bool := return (← peekWord "where") || (← peekOp "=") || (← peekOp ";")
  let bounds ← if ← takeOp ":" then afterColon "+" stop (boundTokens g) else pure []
  let isBounded ← peekWord "where"
  let early ← if before then whereClause g else pure []
  let definition ← onlyIf (peekOp "=") (seq [op "=", TypeExpr.tokens <$> g.type true])
  let late ← if after && !(before && isBounded) then whereClause g else pure []
  let finish ← op ";"
  return ⟨lead ++ bounds ++ early ++ definition ++ late ++ finish, hasBounds, !definition.isEmpty⟩

def startsCallItem : Reader Bool := do
  return (← peekOp "::") || (← peek isIdent) || (← peek (isOneOf ["self", "super", "crate"]))

/-- A macro call as an item. A semicolon follows, but for braces; where a name may be given, it
stands behind the mark. -/
def callItem (named : Bool) : Reader Tokens := do
  let lead ← seq [Path.tokens <$> plainPath, op "!"]
  let name ←
    if named && ((← peek isIdent) || (← peekWord "try")) then one isAnyWord else pure []
  let braced ← peek (isGroup .brace)
  return lead ++ name ++ (← seq [anyGroup, if braced then pure [] else op ";"])

def member (g : Grammar) : Reader (Option FnItem × Tokens) := do
  let start ← get
  let attributes ← outerAttributes g
  let v ← visibility
  let default ← onlyIf (return !(← peekOpAt 1 "!")) (wordIf "default")
  let lead := attributeTokens attributes ++ v.tokens ++ default
  if ← peekFn then
    let s ← signature g
    if ← takeOp ";" then return (none, ← since start)
    let (inside, body) ← within .brace (return (← innerAttributes g, ← g.statements))
    return (some (.ofSignature (attributes ++ inside) v s),
      lead ++ s.tokens ++ [.group .brace (attributeTokens inside ++ body)])
  else if ← peekWord "const" then
    let (tokens, ordinary) ← constItem g
    if ordinary then return (none, lead ++ tokens) else return (none, ← since start)
  else if ← peekWord "type" then
    let t ← typeItem g false true
    if t.hasDefinition && !t.hasBounds then return (none, lead ++ t.tokens)
    else return (none, ← since start)
  else if v.isInherited && default.isEmpty && (← startsCallItem) then
    return (none, lead ++ (← callItem false))
  else refuse

/-! ## Blocks -/

structure ReadImpl where
  block : ImplBlock
  tokens : Tokens
  /-- Whether only an item can be read like this; it is printed as it was written. -/
  asWritten : Bool

/-- The trait of an implementation, if there is one, and the type that follows. A mark in front says
that the trait is not implemented, and has no meaning without a trait. -/
def implTypes (g : Grammar) : Reader (Option (TypeExpr × Tokens) × TypeExpr) := do
  let negative := (← peekOp "!") && !(← peekAt 1 (isGroup .brace))
  let mark ← if negative then op "!" else pure []
  let first ← g.type true
  if ← peekWord "for" then
    let tokens := mark ++ first.tokens ++ (← word "for")
    return (some (first, tokens), ← g.type true)
  else if negative then refuse
  else return (none, first)

/-- An implementation. As an item it may have a visibility, be constant, or have a type that is no
path for its trait. -/
def readImpl (g : Grammar) (asItem : Bool) : Reader ReadImpl := do
  let attributes ← outer g
  let v ← if asItem then visibility else pure ⟨[], false⟩
  let lead ← seq [wordIf "default", wordIf "unsafe", word "impl"]
  let params ← if ← peekGenerics then generics g else pure {}
  let isConst := asItem &&
    ((← peekWord "const") || ((← peekOp "?") && (← peekAt 1 (isWord "const"))))
  if isConst then
    let _ ← seq [opIf "?", word "const"]
  let (trait, selfType) ← implTypes g
  let isPath := trait.all fun (t, _) => match t with
    | .path _ => true
    | _ => false
  if !isPath && !asItem then refuse
  let traitTokens := (trait.map Prod.snd).getD []
  let clause ← whereClause g
  let (attributesInside, members) ← within .brace do
    let attributesInside ← inner g
    return (attributesInside, ← repeatWhile (return !(← atEnd)) (member g))
  let tokens := attributes ++ lead ++ params.tokens ++ traitTokens ++ selfType.tokens ++ clause ++
    [.group .brace (attributesInside ++ (members.map Prod.snd).flatten)]
  return ⟨⟨params, clause, trait.isSome, selfType, members.filterMap Prod.fst⟩, tokens,
    !v.isInherited || isConst || !isPath⟩

def implBlock (g : Grammar) : Reader ImplBlock := ReadImpl.block <$> readImpl g false

end HookDispatch.Source
