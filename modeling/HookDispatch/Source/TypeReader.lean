import HookDispatch.Source.AttributeReader

/-!
Reading types. The grammar is that of Rust's types: paths with arguments, references and raw
pointers, slices and arrays, tuples, function pointers, trait objects, anonymous types and macro
calls. A sum of bounds without brackets is read only where `plus` allows it. Arguments in round
brackets belong to the paths of bounds, not to types.
-/
namespace HookDispatch.Source

open Reader
open TokenTree (symbol)

def startsPath : Reader Bool := do
  return (← peek isPathWord) || (← peekOp "::")

def binder (g : Grammar) : Reader (Option Binder) := do
  if ← takeWord "for" then
    expectOp "<"
    let (params, trailing) ← separatedBy "," (peekOp ">") g.genericParam
    expectOp ">"
    return some ⟨params.map GenericParam.tokens, trailing⟩
  else return none

def valueBlock (g : Grammar) : Reader Tokens := grouped .brace (seq [inner g, g.statements])

/-- The value of a constant argument: a literal or a block. -/
def constantValue (g : Grammar) : Reader Tokens := do
  if ← peek (isGroup .brace) then valueBlock g else literal

def startsConstant : Reader Bool := do
  return (← peekLiteral) || (← peek (isGroup .brace))

def startsBound (const : Bool) : Reader Bool := do
  return (← peek isAnyWord) || (← peekOp "::") || (← peekOp "?") || (← peek isLifetime) ||
    (← peek (isGroup .paren)) || (const && (← peek (isGroup .bracket)))

def parenArguments (g : Grammar) : Reader Arguments := do
  let (inputs, trailing) ← within .paren (commaList (g.type true))
  if ← takeOp "->" then return .paren inputs trailing (some (← g.type false))
  else return .paren inputs trailing none

def setLastArguments (args : Arguments) : List Segment → List Segment
  | [] => []
  | [.mk name _] => [.mk name args]
  | s :: rest => s :: setLastArguments args rest

def lastIsBare : List Segment → Bool
  | [] => false
  | [.mk _ args] => args.isEmpty
  | _ :: rest => lastIsBare rest

def isArgumentEnd : Reader Bool := return (← peekOp ",") || (← peekOp ">")

def angleArguments (g : Grammar) : Reader (List Argument × Bool) := do
  expectOp "<"
  let found ← separatedBy "," (peekOp ">") do
    if (← peek isLifetime) && !(← peekAt 1 (isPunctChar '+')) then
      return Argument.lifetime (← lifetime)
    if ← startsConstant then return Argument.constant (← constantValue g)
    let t ← g.type true
    match t with
    | .path (.mk false [.mk name args]) =>
      if ← takeOp "=" then
        if ← startsConstant then return .constBinding name args (← constantValue g)
        else return .binding name args (← g.type true)
      else if ← takeOp ":" then
        let (bs, trailing) ← separatedBy "+" isArgumentEnd (g.bound false true)
        return .constraint name args bs trailing
      else return .type t
    | _ => return .type t
  expectOp ">"
  return found

def bareSegments : List String := ["super", "self", "crate", "try"]

/-- One segment of a path. In an expression its arguments follow a double colon. -/
def segment (g : Grammar) (inExpression : Bool) : Reader Segment := do
  if ← peek (isOneOf bareSegments) then return .mk (← anyWord) .none
  let name ← if ← peekWord "Self" then anyWord else ident
  if !inExpression && (← peekOpBut "<" ["<=", "<<="]) then
    let (args, trailing) ← angleArguments g
    return .mk name (.angle false args trailing)
  else if (← peekOp "::") && (← peekAt 2 (isPunctChar '<')) then
    expectOp "::"
    let (args, trailing) ← angleArguments g
    return .mk name (.angle true args trailing)
  else return .mk name .none

def segments (g : Grammar) (inExpression : Bool) :
    Reader (List Segment) := do
  let first ← segment g inExpression
  let rest ← repeatWhile (return (← peekOp "::") && !(← peekAt 2 (isGroup .paren))) do
    expectOp "::"
    segment g inExpression
  return first :: rest

def path (g : Grammar) (inExpression : Bool) : Reader Path := do
  let global ← takeOp "::"
  return .mk global (← segments g inExpression)

def traitBound (g : Grammar) (const parens : Bool) :
    Reader (Option Bound) := do
  let early ← binder g
  let isConst ←
    if ← peek (isGroup .bracket) then do
      within .bracket (expectWord "const")
      pure true
    else takeWord "const"
  let maybe ← takeOp "?"
  let late ← if early.isNone && maybe then binder g else pure none
  if (isConst && !const) || (maybe && (early.isSome || late.isSome)) then refuse
  let global ← takeOp "::"
  let found ← segments g false
  let found ←
    if lastIsBare found && ((← peek (isGroup .paren)) ||
        ((← peekOp "::") && (← peekAt 2 (isGroup .paren)))) then do
      let _ ← takeOp "::"
      pure (setLastArguments (← parenArguments g) found)
    else pure found
  return if isConst then none else some (.trait parens maybe early (.mk global found))

def captures : Reader Bound := do
  expectOp "<"
  let (names, trailing) ← separatedBy "," (peekOp ">") do
    if ← peek isLifetime then return (true, [← next])
    else if ← peekWord "Self" then return (false, [← next])
    else return (false, ← name)
  expectOp ">"
  return .captures names trailing

/-- One bound. Captures and constant bounds are read only where they may stand. -/
def bound (g : Grammar) (capture const : Bool) : Reader Bound := do
  if ← peek isLifetime then return .lifetime (← lifetime)
  if ← takeWord "use" then
    if capture then captures else refuse
  else
    let start ← get
    let found ←
      if ← peek (isGroup .paren) then within .paren (traitBound g const true)
      else traitBound g const false
    match found with
    | some b => return b
    | none => return .verbatim (← since start)

/-- Bounds with `+` between them, the last of which may be open; only one if `plus` is not
allowed. -/
def bounds (g : Grammar) (plus capture const : Bool) : Reader (List Bound × Bool) := do
  if plus then separatedBy "+" (return !(← startsBound const)) (bound g capture const)
  else return ([← bound g capture const], false)

/-- Bounds after a first one, each behind a `+`. -/
def furtherBounds (g : Grammar) (first : Bound) : Reader TypeExpr := do
  let rest ← repeatWhile (peekOp "+") do
    expectOp "+"
    bound g false false
  return .traitObject false (first :: rest) false

/-- The bounds of a trait object. One of them at least is a trait. -/
def objectBounds (g : Grammar) (plus : Bool) : Reader (List Bound × Bool) := do
  let (bs, trailing) ← bounds g plus false false
  if bs.any fun | .trait .. => true | _ => false then return (bs, trailing) else refuse

/-- The bounds of an anonymous type. One of them at least is a trait. -/
def anonymousBounds (g : Grammar) (plus : Bool) : Reader (List Bound × Bool) := do
  let (bs, trailing) ← bounds g plus true true
  if bs.any fun | .trait .. | .verbatim _ => true | _ => false then return (bs, trailing)
  else refuse

def pathLike (g : Grammar) (inExpression : Bool) : Reader TypeExpr := do
  if ← takeOp "<" then
    let self ← g.type true
    let trait ← if ← takeWord "as" then some <$> path g false else pure none
    expectOp ">"
    expectOp "::"
    return .qualified self trait (← segments g inExpression)
  else return .path (← path g inExpression)

def peekInvocation (p : Path) : Reader Bool := return p.isPlain && (← peekOpBut "!" ["!="])

def pathType (g : Grammar) (plus : Bool) (b : Option Binder) : Reader TypeExpr := do
  match ← pathLike g false with
  | .path p =>
    if ← peekInvocation p then
      skip 1
      match ← anyGroup with
      | [body] => return .invocation p body
      | _ => refuse
    else if b.isSome || (plus && (← peekOp "+")) then
      let first := Bound.trait false false b p
      if plus && (← peekOp "+") then
        expectOp "+"
        let (rest, trailing) ← separatedBy "+" (return !(← startsBound false)) (bound g false false)
        return .traitObject false (first :: rest) (trailing || rest.isEmpty)
      else return .traitObject false [first] false
    else return .path p
  | t => return t

/-- What stands in round brackets at the start of a type: a bound that is none of a type, or the
type that the brackets make. -/
def parenContents (g : Grammar) : Reader (Bound ⊕ TypeExpr) := do
  if ← atEnd then return .inr (.tuple [] false)
  if ← peek isLifetime then
    let (bs, trailing) ← objectBounds g true
    return .inr (.paren (.traitObject false bs trailing))
  if ← peekOp "?" then
    match ← traitBound g false true with
    | some b => return .inl b
    | none => refuse
  let first ← g.type true
  if ← takeOp "," then
    let (rest, trailing) ← commaList (g.type true)
    return .inr (.tuple (first :: rest) (trailing || rest.isEmpty))
  else return .inr (.paren first)

def parenType (g : Grammar) (plus : Bool) : Reader TypeExpr := do
  match ← within .paren (parenContents g) with
  | .inl b => furtherBounds g b
  | .inr (.paren t) =>
    match t.parenBound? with
    | some first => if plus && (← peekOp "+") then furtherBounds g first else return .paren t
    | none => return .paren t
  | .inr t => return t

def callingConvention : Reader Tokens := do
  if ← takeWord "extern" then return .ident "extern" :: (← onlyIf (peek isText) (one isText))
  else return []

def peekNamed (p : TokenTree → Bool) : Reader Bool :=
  return (← peek p) && (← peekOpAt 1 ":") && !(← peekOpAt 1 "::")

/-- One parameter of a function pointer. The first one may be a receiver, and is printed as it is
written if the receiver is mutable or has no type. -/
def fnParam (g : Grammar) (isFirst : Bool) : Reader FnParam := do
  let attributes ← outer g
  let start ← get
  if isFirst && (← peekWord "mut") && (← peekAt 1 (isWord "self")) then
    skip 2
    if ← peekColon then
      expectOp ":"
      let _ ← g.type true
    return .mk attributes none (.verbatim (← since start))
  let named ← peekNamed fun t => isIdent t || isWord "_" t || (isFirst && isWord "self" t)
  if named then
    let name ← anyWord
    expectOp ":"
    return .mk attributes (some name) (← g.type true)
  else return .mk attributes none (← g.type true)

/-- Whether the open end of a parameter list comes next, named or not. -/
def peekVariadic : Reader Bool := do
  return (← peekOp "...") ||
    ((← peek fun t => isIdent t || isWord "_" t) && (← peekOpAt 1 ":") && (← peekOpAt 2 "..."))

/-- The parameters of a function pointer, with the tokens after the last one. -/
def fnParams (g : Grammar) : Reader (List FnParam × Tokens) := do
  go ((← get).length + 1) true
where
  go : Nat → Bool → Reader (List FnParam × Tokens)
    | 0, _ => refuse
    | fuel + 1, isFirst => do
      if ← atEnd then return ([], [])
      let start ← get
      let attributes ← outer g
      if ← peekVariadic then
        let name ← onlyIf (return !(← peekOp "...")) (seq [one isAnyWord, op ":"])
        return ([], attributes ++ name ++ (← seq [op "...", opIf ","]))
      set start
      let first ← fnParam g isFirst
      if ← atEnd then return ([first], [])
      expectOp ","
      let (rest, trailing) ← go fuel false
      return (first :: rest, if rest.isEmpty then symbol "," ++ trailing else trailing)

def fnPointer (g : Grammar) (b : Option Binder) : Reader TypeExpr := do
  let modifiers ← seq [wordIf "unsafe", callingConvention]
  expectWord "fn"
  let (params, trailing) ← within .paren (fnParams g)
  if ← takeOp "->" then return .function b modifiers params trailing (some (← g.type false))
  else return .function b modifiers params trailing none

def fnWords : List String := ["fn", "unsafe", "extern"]

/-- A type. With `plus` it may be a sum of bounds. -/
def typeExpr (g : Grammar) (plus : Bool) : Reader TypeExpr := do
  let start ← get
  let b ← binder g
  if b.isSome && !(← peek fun t => isPathWord t || isOneOf fnWords t) then refuse
  if ← peek (isGroup .paren) then parenType g plus
  else if ← peek (isOneOf fnWords) then fnPointer g b
  else if (← startsPath) || (← peekOp "<") then pathType g plus b
  else if ← takeWord "dyn" then
    let star ← takeOp "*"
    let (bs, trailing) ← objectBounds g plus
    if star then return .verbatim (← since start) else return .traitObject true bs trailing
  else if ← peek (isGroup .bracket) then
    within .bracket do
      let element ← g.type true
      if ← takeOp ";" then return .array element (← g.expression true).tokens
      else return .slice element
  else if ← takeOp "*" then
    let mutable ← takeWord "mut"
    if !mutable then expectWord "const"
    return .pointer mutable (← g.type false)
  else if ← takeOp "&" then
    let name ← if ← peek isLifetime then some <$> lifetime else pure none
    let mutable ← takeWord "mut"
    return .reference name mutable (← g.type false)
  else if ← takeOp "!" then return .never
  else if ← takeWord "impl" then
    let (bs, trailing) ← anonymousBounds g plus
    return .implTrait bs trailing
  else if ← takeWord "_" then return .inferred
  else if ← peek isLifetime then
    let (bs, trailing) ← objectBounds g true
    return .traitObject false bs trailing
  else refuse

end HookDispatch.Source
