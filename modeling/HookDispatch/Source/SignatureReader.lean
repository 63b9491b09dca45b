import HookDispatch.Source.ExprReader

/-!
Reading the signatures of functions: visibility, modifiers, name, parameters and result. A receiver
is the first parameter if there is one, and the open end of a parameter list is no parameter.
-/
namespace HookDispatch.Source

open Reader
open TokenTree (symbol)

structure Visibility where
  tokens : Tokens
  /-- Whether there is no restriction. -/
  isPublic : Bool

def Visibility.isInherited (v : Visibility) : Bool := v.tokens.isEmpty

def restrictedScopes : List String := ["crate", "self", "super"]

/-- A visibility, if there is one. Round brackets that hold no restriction are not part of it. -/
def visibility : Reader Visibility := do
  if !(← takeWord "pub") then return ⟨[], false⟩
  match (← get).head? with
  | some (.group .paren [.ident scope]) =>
    if restrictedScopes.contains scope then
      skip 1
      return ⟨[.ident "pub", .group .paren [.ident scope]], false⟩
    else return ⟨[.ident "pub"], true⟩
  | some (.group .paren (.ident "in" :: _)) =>
    let scope ← grouped .paren (seq [word "in", Path.tokens <$> plainPath])
    return ⟨.ident "pub" :: scope, false⟩
  | _ => return ⟨[.ident "pub"], true⟩

inductive FnInput where
  | receiver (t : TypeExpr)
  /-- A parameter with the name that its pattern gives to the whole value. -/
  | typed (name : Option String) (t : TypeExpr)

def FnInput.isReceiver : FnInput → Bool
  | receiver _ => true
  | typed .. => false

/-- A receiver. Without a type of its own it is the type of the block, or a reference to it. -/
def receiver (g : Grammar) : Reader (FnInput × Tokens) := do
  let self : TypeExpr := .path (.word "Self")
  if ← peekOp "&" then
    let lead ← seq [op "&", lifetimeIf]
    let name := lead.findSome? fun | .lifetime name => some name | _ => none
    let mutable ← wordIf "mut"
    return (.receiver (.reference name (!mutable.isEmpty) self), lead ++ mutable ++ (← word "self"))
  let lead ← seq [wordIf "mut", word "self"]
  if ← takeOp ":" then
    let t ← g.type true
    return (.receiver t, lead ++ symbol ":" ++ t.tokens)
  else return (.receiver self, lead)

/-- A parameter, or the open end of the list, which is none. A parameter without a pattern is read
where its type is a name with arguments. -/
def fnInput (g : Grammar) : Reader (Option FnInput × Tokens) := do
  let attributes ← outer g
  if ← peekOp "..." then return (none, attributes ++ (← op "..."))
  let (input, tokens) ← (do
      let (r, tokens) ← receiver g
      return (some r, tokens)) <|> do
    if (← peek isIdent) && (← peekOpAt 1 "<") then
      let t ← g.type true
      return (some (.typed none t), .ident "_" :: symbol ":" ++ t.tokens)
    let p ← g.pattern
    let lead := p.tokens ++ (← op ":")
    if ← peekOp "..." then return (none, lead ++ (← op "..."))
    let t ← g.type true
    return (some (.typed p.name? t), lead ++ t.tokens)
  return (input, attributes ++ tokens)

/-- The parameters of a function. Only the first can be a receiver, and only the last be open. -/
def fnInputs (g : Grammar) : Reader (List FnInput × Tokens) := do
  let (found, trailing) ← commaList (fnInput g)
  let inputs := found.map Prod.fst
  if inputs.dropLast.any Option.isNone || (inputs.drop 1).any (·.any FnInput.isReceiver) then refuse
  return (inputs.filterMap id, separated "," trailing (found.map Prod.snd))

structure Signature where
  isAsync : Bool
  isUnsafe : Bool
  name : String
  generics : Generics
  inputs : List FnInput
  result : Option TypeExpr
  tokens : Tokens

def peekFn : Reader Bool := do
  let start ← get
  let _ ← seq [wordIf "const", wordIf "async", wordIf "unsafe", callingConvention]
  let found ← peekWord "fn"
  set start
  return found

def signature (g : Grammar) : Reader Signature := do
  let const ← wordIf "const"
  let async ← wordIf "async"
  let unsafety ← wordIf "unsafe"
  let lead ← seq [callingConvention, word "fn"]
  let name ← ident
  let params ← generics g
  let (inputs, list) ← within .paren (fnInputs g)
  let result ← if ← takeOp "->" then some <$> g.type true else pure none
  let tokens := const ++ async ++ unsafety ++ lead ++ .ident name :: params.tokens ++
    .group .paren list :: arrow (resultTokens result) ++ (← whereClause g)
  return ⟨!async.isEmpty, !unsafety.isEmpty, name, params, inputs, result, tokens⟩

end HookDispatch.Source
