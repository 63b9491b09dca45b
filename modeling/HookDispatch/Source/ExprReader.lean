import HookDispatch.Source.PatternReader
import HookDispatch.Source.GenericsReader

/-!
Reading expressions. Operators bind by precedence, comparisons are not chained, and a range is no
operand on the left of an operator. Where a block follows, an expression does not end with the
fields of a structure unless brackets surround it. An expression is printed with its operators
apart, and the fields of tuples one by one.
-/
namespace HookDispatch.Source

open Reader
open TokenTree (symbol)

def expressionTokens (g : Grammar) (structs : Bool) : Reader Tokens :=
  Expression.tokens <$> g.expression structs

def block (g : Grammar) : Reader Tokens := grouped .brace g.statements

def startsExpression : Reader Bool := do
  return ((← peek isAnyWord) && !(← peekWord "as")) || (← peek isAnyGroup) || (← peekLiteral) ||
    (← peekOpBut "!" ["!="]) || (← peekOpBut "-" ["-=", "->"]) || (← peekOpBut "*" ["*="]) ||
    (← peekOpBut "|" ["|="]) || (← peekOpBut "&" ["&="]) || (← peekOp "..") ||
    (← peekOpBut "<" ["<=", "<<="]) || (← peekOp "::") || (← peek isLifetime) || (← peekOp "#")

def expressionIf (g : Grammar) : Reader Tokens := onlyIf startsExpression (expressionTokens g true)

def expressionList (g : Grammar) (d : Delimiter) : Reader Tokens :=
  grouped d (commaTokens (expressionTokens g true))

/-! ## Operators -/

/-- The operand on the right of an operator, with what binds more tightly to it. Assignments
group to the right. -/
def rightOperand (g : Grammar) (structs : Bool) (p : Precedence) : Reader Tokens := do
  let first ← g.operand structs
  let whole ← iterate (fun rhs => do
    let next ← Precedence.peek
    if p.rank < next.rank || (next = .assign && p = .assign) then
      let before := (← get).length
      let more ← g.continued structs next rhs
      return if (← get).length = before then none else some more
    else return none) first
  return whole.tokens

def isRangeOpen (structs : Bool) : Reader Bool := do
  let stops := [",", ";", "?", "=>", "=", "+", "/", "%", "^", ">", "<=", "!=", "-=", "*=", "&=",
    "|=", "<<="]
  let ahead ← get
  return ahead.isEmpty || stops.any (startsWith ·.toList ahead) || (← peekPoint) ||
    (!structs && (← peek (isGroup .brace))) || (← peekWord "as")

def rangeEnd (g : Grammar) (structs : Bool) : Reader Tokens := do
  if ← peekOp "..=" then return (← op "..=") ++ (← rightOperand g structs .range)
  if ← peekOp "..." then refuse
  let limits ← op ".."
  if ← isRangeOpen structs then return limits
  else return limits ++ (← rightOperand g structs .range)

/-- What may not follow a type that an expression is cast to. -/
def endsCast : Reader Bool := do
  return (← peekPoint) || (← peekOp "?") || (← peek (isGroup .bracket)) ||
    (← peek (isGroup .paren))

def extended (g : Grammar) (structs : Bool) (base : Precedence) (lhs : Expression) :
    Reader (Option Expression) := do
  if lhs.form = .range then return none
  match ← Precedence.peekOperator with
  | some (text, p) =>
    if !p.atLeast base then return none
    if p = .compare && lhs.form = .comparison then refuse
    let tokens ← seq [op text, rightOperand g structs p]
    return some ⟨lhs.tokens ++ tokens, if p = .compare then .comparison else .plain⟩
  | none =>
    if Precedence.assign.atLeast base && (← Precedence.peekAssign) then
      return some ⟨lhs.tokens ++ (← seq [op "=", rightOperand g structs .assign]), .plain⟩
    else if Precedence.range.atLeast base && (← peekOp "..") then
      return some ⟨lhs.tokens ++ (← rangeEnd g structs), .range⟩
    else if Precedence.cast.atLeast base && (← peekWord "as") then
      let tokens ← seq [word "as", TypeExpr.tokens <$> g.type false]
      if ← endsCast then refuse
      return some ⟨lhs.tokens ++ tokens, .plain⟩
    else return none

def continued (g : Grammar) (structs : Bool) (base : Precedence) (first : Expression) :
    Reader Expression := iterate (extended g structs base) first

/-! ## Calls, fields and indices -/

def turbofish (g : Grammar) : Reader Tokens := do
  expectOp "::"
  let (args, trailing) ← angleArguments g
  return (Arguments.angle true args trailing).tokens

/-- What follows the point after an expression, but for fields of a tuple that are written as one
number. -/
def namedMember (g : Grammar) : Reader Tokens := do
  if ← peekWord "await" then return [← next]
  let (named, member) ← field
  if named then
    let args ← onlyIf (peekOp "::") (turbofish g)
    let call ←
      if !args.isEmpty || (← peek (isGroup .paren)) then expressionList g .paren else pure []
    return member ++ args ++ call
  else return member

/-- What follows the point after an expression. A number with a point is the fields of a tuple in a
tuple, and a point at its end belongs to what follows. -/
def memberTokens (g : Grammar) : Reader Tokens := do
  match ← get with
  | .literal text :: _ =>
    let parts := text.splitOn "."
    let isOpen := 1 < parts.length && parts.getLast? = some ""
    match (if isOpen then parts.dropLast else parts).mapM fun part => fieldIndex? part.toList with
    | some indices =>
      skip 1
      let fields := separated "." isOpen (indices.map fun n => [.literal (toString n)])
      if isOpen then return fields ++ (← namedMember g) else return fields
    | none => refuse
  | _ => namedMember g

def trailer (g : Grammar) (e : Expression) : Reader (Option Expression) := do
  let isRange := e.form = .range
  if ← peek (isGroup .paren) then
    return some ⟨e.tokens ++ (← expressionList g .paren), .plain⟩
  else if !isRange && (← peekPoint) then
    return some ⟨e.tokens ++ (← seq [op ".", memberTokens g]), .plain⟩
  else if ← peek (isGroup .bracket) then
    return some ⟨e.tokens ++ (← grouped .bracket (expressionTokens g true)), .plain⟩
  else if !isRange && (← peekOp "?") then return some ⟨e.tokens ++ (← op "?"), .plain⟩
  else return none

def trailers (g : Grammar) (e : Expression) : Reader Expression := iterate (trailer g) e

/-! ## Operands -/

def fieldValue (g : Grammar) : Reader Tokens := do
  let attributes ← outer g
  let (named, member) ← field
  if !named || (← peekOp ":") then
    return attributes ++ member ++ (← seq [op ":", expressionTokens g true])
  else return attributes ++ member

/-- The fields of a structure. The values of other fields come last. -/
def fieldValues (g : Grammar) : Reader Tokens := do
  let (fields, trailing) ← separatedBy "," (return (← atEnd) || (← peekOp "..")) (fieldValue g)
  let goesOn : Reader Bool := return !(← atEnd)
  let others ←
    if fields.isEmpty || trailing then
      onlyIf goesOn (seq [op "..", onlyIf goesOn (expressionTokens g true)])
    else pure []
  return separated "," trailing fields ++ others

def pathExpression (g : Grammar) (structs : Bool) : Reader Expression := do
  let t ← pathLike g true
  match t with
  | .path p =>
    if ← peekInvocation p then
      let mark ← op "!"
      let braced ← peek (isGroup .brace)
      return ⟨p.tokens ++ mark ++ (← anyGroup), .invocation braced⟩
  | _ => pure ()
  if structs && (← peek (isGroup .brace)) then
    return ⟨t.tokens ++ (← grouped .brace (fieldValues g)), .plain⟩
  else return ⟨t.tokens, .plain⟩

/-- What stands in square brackets: elements, or one element and how often it is repeated. -/
def arrayContents (g : Grammar) : Reader Tokens := do
  if ← atEnd then return []
  let first ← expressionTokens g true
  if ← takeOp ";" then return first ++ symbol ";" ++ (← expressionTokens g true)
  else if ← atEnd then return first
  else return first ++ (← op ",") ++ (← commaTokens (expressionTokens g true))

/-- A parameter of a closure. A pattern that is printed as it was written keeps no attributes,
unless it has a type. -/
def closureParam (g : Grammar) : Reader Tokens := do
  let attributes ← outer g
  let p ← g.pattern
  if ← peekOp ":" then
    return attributes ++ p.tokens ++ (← seq [op ":", TypeExpr.tokens <$> g.type true])
  else return if p.form = .verbatim then p.tokens else attributes ++ p.tokens

/-- A closure. With a result type its body is a block. -/
def closure (g : Grammar) (structs : Bool) : Reader Tokens := do
  let lead ← seq [binderTokens <$> binder g, wordIf "const", wordIf "static", wordIf "async",
    wordIf "move", op "|", tokensBy "," (peekOp "|") (closureParam g), op "|"]
  if ← peekOp "->" then
    return lead ++ (← seq [op "->", TypeExpr.tokens <$> g.type true, block g])
  else return lead ++ (← expressionTokens g structs)

def startsClosure : Reader Bool := do
  return (← peekOp "|") || (← peekWord "move") || (← peekBinder) ||
    ((← peekWord "const") && !(← peekAt 1 (isGroup .brace))) || (← peekWord "static") ||
    ((← peekWord "async") && ((← peekOpAt 1 "|") || (← peekAt 1 (isWord "move"))))

def peekBlockOf (keyword : String) : Reader Bool := do
  return (← peekWord keyword) && (← peekAt 1 (isGroup .brace))

def conditional (g : Grammar) : Reader Tokens := do
  let first ← seq [word "if", expressionTokens g false, block g]
  let rest ← repeatWhile (return (← peekWord "else") && (← peekAt 1 (isWord "if"))) do
    seq [word "else", word "if", expressionTokens g false, block g]
  return first ++ rest.flatten ++ (← onlyIf (peekWord "else") (seq [word "else", block g]))

def matchArm (g : Grammar) : Reader Tokens := do
  let lead ← seq [outer g, Pattern.tokens <$> alternatives g,
    onlyIf (peekWord "if") (seq [word "if", expressionTokens g true]), op "=>"]
  let e ← g.leading
  let comma ← if e.isBlock || (← atEnd) then opIf "," else op ","
  return lead ++ e.tokens ++ comma

def labelled (g : Grammar) : Reader Tokens := do
  if ← peekWord "while" then seq [word "while", expressionTokens g false, valueBlock g]
  else if ← peekWord "for" then
    seq [word "for", Pattern.tokens <$> alternatives g, word "in", expressionTokens g false,
      valueBlock g]
  else if ← peekWord "loop" then seq [word "loop", valueBlock g]
  else valueBlock g

/-- A way out of a loop or block, perhaps with a value. A loop with a label is no value of it unless
brackets surround it. -/
def breakTokens (g : Grammar) (structs : Bool) : Reader Tokens := do
  let lead ← word "break"
  if (← peek isLifetime) && (← peekOpAt 1 ":") then refuse
  let label ← lifetimeIf
  if !structs && (← peek (isGroup .brace)) then return lead ++ label
  else return lead ++ label ++ (← expressionIf g)

def letExpression (g : Grammar) (structs : Bool) : Reader Tokens := do
  let lead ← seq [word "let", Pattern.tokens <$> alternatives g, op "="]
  let first ← g.operand structs
  return lead ++ (← g.continued structs .compare first).tokens

/-- Whether a block, or a word after which one follows, comes next; it is complete at the block's
end. -/
def startsBlockLike : Reader Bool := do
  return (← peek (isOneOf ["if", "while", "loop", "match", "unsafe"])) ||
    ((← peekWord "for") && !(← peekBinder)) ||
    (← peekBlockOf "try") || (← peekBlockOf "const") || (← peek (isGroup .brace)) ||
    (← peek isLifetime)

def blockLike (g : Grammar) : Reader Tokens := do
  if ← peekWord "if" then conditional g
  else if ← peekWord "match" then
    seq [word "match", expressionTokens g false,
      grouped .brace (seq [inner g, toEnd (matchArm g)])]
  else if ← peekWord "unsafe" then seq [word "unsafe", valueBlock g]
  else if ← peekWord "const" then seq [word "const", valueBlock g]
  else if ← peekWord "try" then seq [word "try", block g]
  else if ← peek isLifetime then seq [one isLifetime, op ":", labelled g]
  else labelled g

def startsPathExpression : Reader Bool := do
  return (← startsPath) || (← peekOp "<") ||
    ((← peekWord "try") && ((← peekOpAt 1 "!") || (← peekOpAt 1 "::")))

def asWritten (r : Reader Tokens) : Reader Expression := do
  let start ← get
  let _ ← r
  return ⟨← since start, .verbatim⟩

/-- An expression without operators, calls, fields and indices around it. -/
def atom (g : Grammar) (structs : Bool) : Reader Expression := do
  let plain (r : Reader Tokens) : Reader Expression := return ⟨← r, .plain⟩
  if ← peekLiteral then plain literal
  else if (← peekBlockOf "async") ||
      ((← peekWord "async") && (← peekAt 1 (isWord "move")) && (← peekAt 2 (isGroup .brace))) then
    plain (seq [word "async", wordIf "move", block g])
  else if ← startsClosure then plain (closure g structs)
  else if (← peekWord "builtin") && (← peekOpAt 1 "#") then
    asWritten (seq [word "builtin", op "#", name, one (isGroup .paren)])
  else if ← startsPathExpression then pathExpression g structs
  else if ← peek (isGroup .paren) then plain (expressionList g .paren)
  else if ← peekWord "break" then plain (breakTokens g structs)
  else if ← peekWord "continue" then plain (seq [word "continue", lifetimeIf])
  else if ← peekWord "return" then plain (seq [word "return", expressionIf g])
  else if ← peekWord "become" then asWritten (seq [word "become", expressionTokens g true])
  else if ← peek (isGroup .bracket) then plain (grouped .bracket (arrayContents g))
  else if ← peekWord "let" then plain (letExpression g structs)
  else if ← peekWord "yield" then plain (seq [word "yield", expressionIf g])
  else if ← startsBlockLike then return ⟨← blockLike g, .block⟩
  else if ← peekOp ".." then return ⟨← rangeEnd g structs, .range⟩
  else plain (word "_")

/-- An expression without operators between operands. A range without a start has no
attributes. -/
def operand (g : Grammar) (structs : Bool) : Reader Expression := do
  let start ← get
  let attributes ← outer g
  let plain (parts : List (Reader Tokens)) : Reader Expression :=
    return ⟨attributes ++ (← seq parts), .plain⟩
  let inside := Expression.tokens <$> g.operand structs
  if ← peekOp "&" then
    if (← peekAt 1 (isWord "raw")) && (← peekAt 2 (isOneOf ["mut", "const"])) then
      plain [op "&", word "raw", one isAnyWord, inside]
    else plain [op "&", wordIf "mut", inside]
  else if ← peekOp "*" then plain [op "*", inside]
  else if ← peekOp "!" then plain [op "!", inside]
  else if ← peekOp "-" then plain [op "-", inside]
  else
    let e ← trailers g (← atom g structs)
    if e.form = .verbatim then return ⟨← since start, .verbatim⟩
    else if e.form = .range && !attributes.isEmpty then refuse
    else return e.withAttributes attributes

def expression (g : Grammar) (structs : Bool) : Reader Expression := do
  continued g structs .jump (← operand g structs)

/-- An expression where a statement begins: one that is a statement by itself ends there, unless
a point or a question mark follows. -/
def leadingExpression (g : Grammar) : Reader Expression := do
  let attributes ← outer g
  let first ←
    if ← startsBlockLike then pure ⟨← blockLike g, .block⟩ else operand g true
  let whole ←
    if !first.isBlock then continued g true .jump first
    else if (← peekPoint) || (← peekOp "?") then
      continued g true .jump (← trailers g first)
    else pure first
  return whole.withAttributes attributes

end HookDispatch.Source
