import HookDispatch.Source.ExprReader

/-!
Reading the statements of a block. A statement that is an expression needs a semicolon in front of
another one, unless it is complete by itself, as a loop is. Where an item begins, the statement is
the item.
-/
namespace HookDispatch.Source

open Reader

inductive CallStatement where
  /-- A call with a name behind its mark. -/
  | item
  /-- A call in braces that no point and no question mark follows. -/
  | braced
deriving DecidableEq, Repr

def peekCall : Reader (Option CallStatement) := do
  let start ← get
  let onPath ← (do let _ ← plainPath; return true) <|> return false
  let marked ← peekOp "!"
  let named := (← peekAt 1 isIdent) || (← peekAt 1 (isWord "try"))
  let goesOn := ((← peekOpAt 2 ".") && !(← peekOpAt 2 "..")) || (← peekOpAt 2 "?")
  let braced := (← peekAt 1 (isGroup .brace)) && !goesOn
  set start
  return if !(onPath && marked) then none
    else if named then some .item
    else if braced then some .braced
    else none

def startsItem : Reader Bool := do
  let second (words : List String) : Reader Bool := peekAt 1 (isOneOf words)
  let fnAt (i : Nat) : Reader Bool := peekAt i (isOneOf ["unsafe", "extern", "fn"])
  let secondIdent ← peekAt 1 isIdent
  let isValue := (← peekAt 1 (isGroup .brace)) || (← second ["static", "move"]) ||
    (← peekOpAt 1 "|") || ((← second ["async"]) && !(← fnAt 2))
  return (← peek (isOneOf ["pub", "extern", "use", "fn", "mod", "type", "struct", "enum", "trait",
      "impl", "macro"])) ||
    ((← peekWord "crate") && !(← peekOpAt 1 "::")) ||
    ((← peekWord "static") && (secondIdent || (← second ["mut"]))) ||
    ((← peekWord "const") && !isValue) ||
    ((← peekWord "unsafe") && !(← peekAt 1 (isGroup .brace))) ||
    ((← peekWord "async") && (← fnAt 1)) ||
    ((← peekWord "union") && secondIdent) ||
    ((← peekWord "auto") && (← second ["trait"])) ||
    ((← peekWord "default") && (← second ["unsafe", "impl"]))

/-- A variable with its type and value. The block for a pattern that does not match cannot follow
a value that ends with a brace. -/
def letStatement (g : Grammar) : Reader Tokens := do
  let lead ← seq [word "let", Pattern.tokens <$> g.pattern,
    onlyIf (peekOp ":") (seq [op ":", TypeExpr.tokens <$> g.type true])]
  let value ←
    if ← takeOp "=" then do
      let e ← g.expression true
      let otherwise ←
        if e.endsInBrace then pure [] else onlyIf (peekWord "else") (seq [word "else", block g])
      pure (TokenTree.symbol "=" ++ e.tokens ++ otherwise)
    else pure []
  return lead ++ value ++ (← op ";")

def statement (g : Grammar) : Reader (Tokens × Bool) := do
  let start ← get
  let attributes ← outer g
  let call ← peekCall
  if call = some .braced then
    return (attributes ++
      (← seq [Path.tokens <$> plainPath, op "!", anyGroup, opIf ";"]), true)
  else if ← peekWord "let" then return (attributes ++ (← letStatement g), true)
  else if call = some .item || (← startsItem) then
    set start
    return (← g.item, true)
  else
    let e ← g.leading
    let semicolon ← opIf ";"
    return ((e.withAttributes attributes).tokens ++ semicolon,
      !semicolon.isEmpty || e.standsAlone)

def statements (g : Grammar) : Reader Tokens := do
  let (found, _) ← iterate (fun (found, complete) => do
    if ← atEnd then return none
    if ← peekOp ";" then return some ((← op ";") :: found, true)
    if !complete then refuse
    let (tokens, complete) ← statement g
    return some (tokens :: found, complete)) ([], true)
  return found.reverse.flatten

end HookDispatch.Source
