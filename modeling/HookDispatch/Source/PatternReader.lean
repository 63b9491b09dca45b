import HookDispatch.Source.Numeral
import HookDispatch.Source.TypeReader

/-!
Reading patterns. A pattern is printed with operators apart; the old spelling of a closed range is
printed as the new one. Only a pattern that is one identifier names the value that it matches.
-/
namespace HookDispatch.Source

open Reader
open TokenTree (symbol)

def fieldIndex : Reader Tokens := do
  match ← next with
  | .literal text =>
    match fieldIndex? text.toList with
    | some n => return [.literal (toString n)]
    | none => refuse
  | _ => refuse

def field : Reader (Bool × Tokens) := do
  if ← peek isIdent then return (true, ← name) else return (false, ← fieldIndex)

def alternatives (g : Grammar) : Reader Pattern := do
  let lead ← opIf "|"
  let first ← g.pattern
  let more := peekOpBut "|" ["||", "|="]
  if !lead.isEmpty || (← more) then
    let rest ← repeatWhile more do return (← op "|") ++ (← g.pattern).tokens
    return ⟨lead ++ first.tokens ++ rest.flatten, .plain⟩
  else return first

def constBlock (g : Grammar) : Reader Tokens := seq [word "const", valueBlock g]

/-- Whether a pattern goes on after its first end of a range. -/
def isRangeEndMissing : Reader Bool := do
  return (← atEnd) || (← peekOp "|") || (← peekOp "=") || (← peekColon) || (← peekOp ",") ||
    (← peekOp ";") || (← peekWord "if")

def rangeBound (g : Grammar) : Reader Tokens := do
  if ← peekLiteral then literal
  else if (← startsPath) || (← peekOp "<") then TypeExpr.tokens <$> pathLike g true
  else constBlock g

/-- The range that begins with `first`, after which its points come next. -/
def rangeFrom (g : Grammar) (first : Tokens) : Reader Pattern := do
  let closed := (← peekOp "..=") || (← peekOp "...")
  skip (if closed then 3 else 2)
  let limits := first ++ symbol (if closed then "..=" else "..")
  if ← isRangeEndMissing then
    if closed then refuse
    else return ⟨limits, if first.isEmpty then .rest else .openRange⟩
  else
    return ⟨limits ++ (← rangeBound g), if first.isEmpty then .openRange else .plain⟩

def rangeOr (g : Grammar) (first : Tokens) : Reader Pattern := do
  if ← peekOp ".." then rangeFrom g first else return ⟨first, .plain⟩

def fieldPattern (g : Grammar) : Reader Tokens := do
  let start ← get
  let boxed ← takeWord "box"
  let binding ← seq [wordIf "ref", wordIf "mut"]
  if boxed || !binding.isEmpty then
    let named ← name
    if boxed then return ← since start else return binding ++ named
  let (named, member) ← field
  if !named || (← peekOp ":") then
    seq [return member, op ":", Pattern.tokens <$> alternatives g]
  else return member

/-- Whether the mark that there are other fields comes next, perhaps behind attributes. -/
def peekOtherFields (g : Grammar) : Reader Bool := do
  let start ← get
  let _ ← outer g
  let found ← peekOp ".."
  set start
  return found

/-- The fields of a structure pattern. Nothing follows the mark that there are others. -/
def fieldPatterns (g : Grammar) : Reader Tokens := do
  let (fields, trailing) ←
    separatedBy "," (return (← atEnd) || (← peekOtherFields g)) (seq [outer g, fieldPattern g])
  let others ←
    if fields.isEmpty || trailing then
      onlyIf (return !(← atEnd)) (seq [outer g, op ".."])
    else pure []
  return separated "," trailing fields ++ others

def pathPattern (g : Grammar) : Reader Pattern := do
  let t ← pathLike g true
  match t with
  | .path p =>
    if ← peekInvocation p then return ⟨← seq [return p.tokens, op "!", anyGroup], .plain⟩
  | _ => pure ()
  if ← peek (isGroup .brace) then
    return ⟨t.tokens ++ (← grouped .brace (fieldPatterns g)), .plain⟩
  else if ← peek (isGroup .paren) then
    return ⟨t.tokens ++ (← grouped .paren (commaTokens (Pattern.tokens <$> alternatives g))),
      .plain⟩
  else rangeOr g t.tokens

/-- An identifier, perhaps with a pattern for what it names. -/
def bindingPattern (g : Grammar) : Reader Pattern := do
  let lead ← seq [wordIf "ref", wordIf "mut"]
  let name ← if ← peekWord "self" then anyWord else ident
  let inside ← if ← peekOp "@" then
      seq [op "@", Pattern.tokens <$> g.pattern]
    else pure []
  return ⟨lead ++ .ident name :: inside, .binding name⟩

/-- The elements of a slice. A range among them has both its ends. -/
def sliceElement (g : Grammar) : Reader Tokens := do
  let p ← alternatives g
  if p.form = .openRange then refuse else return p.tokens

/-- Whether a path begins a pattern and not a binding. -/
def startsPathPattern : Reader Bool := do
  let goesOn := (← peekOpAt 1 "::") || (← peekOpAt 1 "!") || (← peekOpAt 1 "..") ||
    (← peekAt 1 (isGroup .brace)) || (← peekAt 1 (isGroup .paren))
  return ((← peek isIdent) && goesOn) || ((← peekWord "self") && (← peekOpAt 1 "::")) ||
    (← peekOp "::") || (← peekOp "<") || (← peek (isOneOf ["Self", "super", "crate"]))

def pattern (g : Grammar) : Reader Pattern := do
  let start ← get
  if ← startsPathPattern then pathPattern g
  else if ← takeWord "_" then return ⟨[.ident "_"], .plain⟩
  else if ← takeWord "box" then
    let _ ← g.pattern
    return ⟨← since start, .verbatim⟩
  else if (← peekLiteral) || (← peekWord "const") then
    rangeOr g (← if ← peekWord "const" then constBlock g else literal)
  else if ← peek (fun t => isOneOf ["ref", "mut", "self"] t || isIdent t) then bindingPattern g
  else if ← peekOp "&" then
    return ⟨← seq [op "&", wordIf "mut", Pattern.tokens <$> g.pattern], .plain⟩
  else if ← peek (isGroup .paren) then
    return ⟨← grouped .paren (commaTokens (Pattern.tokens <$> alternatives g)), .plain⟩
  else if ← peek (isGroup .bracket) then
    return ⟨← grouped .bracket (commaTokens (sliceElement g)), .plain⟩
  else if (← peekOp "..") && !(← peekOp "...") then rangeFrom g []
  else refuse

end HookDispatch.Source
