import HookDispatch.Source.TypeReader

/-!
Reading generic parameters and where clauses. Parameters are lifetimes, types and constants; the
bounds of each, and its default, follow its name. A where clause without predicates is not printed.
-/
namespace HookDispatch.Source

open Reader
open TokenTree (symbol)

def afterColon (sep : String) (stop : Reader Bool) (item : Reader Tokens) : Reader Tokens := do
  let items ← tokensBy sep stop item
  return if items.isEmpty then [] else symbol ":" ++ items

/-- A bound as it is printed. Nothing is captured by it. -/
def boundTokens (g : Grammar) : Reader Tokens := Bound.tokens <$> bound g false true

def lifetimeParam : Reader GenericParam := do
  let name ← lifetime
  let outlived ←
    if ← takeOp ":" then
      afterColon "+" (return (← atEnd) || (← peekOp ",") || (← peekOp ">")) (one isLifetime)
    else pure []
  return ⟨.lifetime, name, .lifetime name :: outlived, []⟩

def typeParam (g : Grammar) : Reader GenericParam := do
  let name ← ident
  let bounds ←
    if ← takeOp ":" then
      afterColon "+" (return (← peekOp ",") || (← peekOp ">") || (← peekOp "=")) (boundTokens g)
    else pure []
  let default ← if ← takeOp "=" then pure (symbol "=" ++ (← g.type true).tokens) else pure []
  return ⟨.type, name, .ident name :: bounds, default⟩

def constDefault (g : Grammar) : Reader Tokens := do
  if ← peek isIdent then name else constantValue g

def constParam (g : Grammar) : Reader GenericParam := do
  expectWord "const"
  let name ← ident
  expectOp ":"
  let t ← g.type true
  let default ← if ← takeOp "=" then pure (symbol "=" ++ (← constDefault g)) else pure []
  return ⟨.const, name, .ident "const" :: .ident name :: symbol ":" ++ t.tokens, default⟩

def genericParam (g : Grammar) : Reader GenericParam := do
  let attributes ← outer g
  let p ←
    if ← peek isLifetime then lifetimeParam
    else if ← peekWord "const" then constParam g
    else typeParam g
  return { p with declaration := attributes ++ p.declaration }

def blankParam (g : Grammar) : Reader GenericParam := do
  let attributes ← outer g
  expectWord "_"
  return ⟨.type, "_", attributes ++ [.ident "_"], []⟩

def generics (g : Grammar) : Reader Generics := do
  if ← takeOp "<" then
    let (params, trailing) ← separatedBy "," (peekOp ">") (genericParam g <|> blankParam g)
    expectOp ">"
    return ⟨params, trailing⟩
  else return {}

/-- Whether angle brackets at a place from the front hold parameters and do not begin a qualified
path. -/
def peekGenericsAt (i : Nat) : Reader Bool := do
  let startsParam := (← peekAt (i + 1) isLifetime) || (← peekAt (i + 1) isIdent)
  let goesOn := (← peekOpAt (i + 2) ">") || (← peekOpAt (i + 2) ",") || (← peekOpAt (i + 2) "=") ||
    ((← peekOpAt (i + 2) ":") && !(← peekOpAt (i + 2) "::"))
  return (← peekOpAt i "<") && ((← peekOpAt (i + 1) ">") || (← peekOpAt (i + 1) "#") ||
    (startsParam && goesOn) || (← peekAt (i + 1) (isWord "const")))

def peekGenerics : Reader Bool := peekGenericsAt 0

def peekBinder : Reader Bool := return (← peekWord "for") && (← peekGenericsAt 1)

def isClauseEnd : Reader Bool := do
  return (← atEnd) || (← peek (isGroup .brace)) || (← peekOp ",") || (← peekOp ";") ||
    (← peekColon) || (← peekOp "=")

def wherePredicate (g : Grammar) : Reader Tokens := do
  if (← peek isLifetime) && (← peekOpAt 1 ":") then
    seq [one isLifetime, op ":",
      tokensBy "+" (return (← isClauseEnd) || (← peekOp ":")) (one isLifetime)]
  else
    seq [binderTokens <$> binder g, TypeExpr.tokens <$> g.type true, op ":",
      tokensBy "+" isClauseEnd (boundTokens g)]

def whereClause (g : Grammar) : Reader Tokens := do
  if ← takeWord "where" then
    if ← peekGenerics then refuse
    let predicates ← tokensBy "," isClauseEnd (wherePredicate g)
    return if predicates.isEmpty then [] else .ident "where" :: predicates
  else return []

end HookDispatch.Source
