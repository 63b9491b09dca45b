import HookDispatch.Source.ImplBlock

/-!
Reading the items that may stand in a module or a block: functions, constants, types, structures,
traits and the like. Some forms are accepted although no program may contain them; such an item is
printed as it was written.
-/
namespace HookDispatch.Source

open Reader
open TokenTree (symbol)

/-- An item as it is printed, or nothing if it is printed as it was written. -/
abbrev ItemTokens := Option Tokens

/-- An item that is printed as it was written under a condition. -/
def ItemTokens.unless (asWritten : Bool) (tokens : Tokens) : ItemTokens :=
  if asWritten then none else some tokens

def ItemTokens.after (lead : Tokens) (r : Reader Tokens) : Reader ItemTokens :=
  return some (lead ++ (← r))

/-! ## Imports -/

def importRest (g : Grammar) : Reader Tokens := do
  if ← peekOp "::" then
    let mark ← op "::"
    return mark ++ (← g.imports false).1
  else if ← peekWord "as" then seq [word "as", nameOrBlank]
  else return []

/-- One of the imports in braces. A lookup from the root is accepted there at the start of a path
only, and makes the item one that is printed as it was written. -/
def groupedImport (g : Grammar) (fromRoot : Bool) : Reader (Tokens × Bool) := do
  let rooted ← if fromRoot then takeOp "::" else pure false
  let (tokens, asWritten) ← g.imports (fromRoot && !rooted)
  return (tokens, rooted || asWritten)

def imports (g : Grammar) (fromRoot : Bool) : Reader (Tokens × Bool) := do
  if ← peek fun t => isIdent t || isOneOf ["self", "super", "crate", "try"] t then
    let lead ← one isAnyWord
    return (lead ++ (← importRest g), false)
  else if ← peekOp "*" then return (← op "*", false)
  else
    let (found, trailing) ← within .brace (commaList (groupedImport g fromRoot))
    return ([.group .brace (separated "," trailing (found.map Prod.fst))], found.any Prod.snd)

def useItem (g : Grammar) (lead : Tokens) : Reader ItemTokens := do
  let start ← seq [word "use", opIf "::"]
  let (tokens, asWritten) ← g.imports (start.length = 1)
  return .unless asWritten (lead ++ start ++ tokens ++ (← op ";"))

/-! ## Structures -/

/-- A field with a name. One without a name can have the fields of a structure for its type, which
are printed as they were written. -/
def namedField (g : Grammar) (fields : Reader Tokens) : Reader Tokens := do
  let attributes ← outer g
  let v ← visibility
  let blank ← peekWord "_"
  let lead ← seq [nameOrBlank, op ":"]
  let nested := blank && ((← peekWord "struct") ||
    ((← peekWord "union") && (← peekAt 1 (isGroup .brace))))
  let type ←
    if nested then do
      let start ← get
      skip 1
      let _ ← fields
      since start
    else TypeExpr.tokens <$> g.type true
  return attributes ++ v.tokens ++ lead ++ type

/-- Fields with names, in braces; `depth` is how often the fields of a structure can be the type
of a field without a name. -/
def namedFields (g : Grammar) : (depth : Nat) → Reader Tokens
  | 0 => refuse
  | depth + 1 => grouped .brace (commaTokens (namedField g (namedFields g depth)))

def fieldsInBraces (g : Grammar) : Reader Tokens := do
  namedFields g (TokenTree.weights (← get) + 1)

def fieldsInParens (g : Grammar) : Reader Tokens :=
  grouped .paren (commaTokens (seq [outer g, Visibility.tokens <$> visibility,
    TypeExpr.tokens <$> g.type true]))

def structBody (g : Grammar) : Reader Tokens := do
  let isBounded ← peekWord "where"
  let early ← whereClause g
  if !isBounded && (← peek (isGroup .paren)) then seq [fieldsInParens g, whereClause g, op ";"]
  else if ← peek (isGroup .brace) then return early ++ (← fieldsInBraces g)
  else return early ++ (← op ";")

/-- A variant of an enumeration. Its visibility is not kept. -/
def variant (g : Grammar) : Reader Tokens := do
  let attributes ← outer g
  let _ ← visibility
  let lead ← name
  let fields ←
    if ← peek (isGroup .brace) then fieldsInBraces g
    else if ← peek (isGroup .paren) then fieldsInParens g
    else pure []
  return attributes ++ lead ++ fields ++
    (← onlyIf (peekOp "=") (seq [op "=", expressionTokens g true]))

def head (g : Grammar) (kind : String) : Reader Tokens :=
  seq [word kind, name, Generics.tokens <$> generics g]

/-! ## Variables and functions -/

/-- A variable of a module. Without a type or a value it is printed as it was written. -/
def staticItem (g : Grammar) (lead : Tokens) : Reader ItemTokens := do
  let start ← seq [word "static", wordIf "mut", name]
  let type ← onlyIf (peekOp ":") (seq [op ":", TypeExpr.tokens <$> g.type true])
  let value ←
    if type.isEmpty || (← peekOp "=") then seq [op "=", expressionTokens g true] else pure []
  let finish ← op ";"
  return .unless (type.isEmpty || value.isEmpty) (lead ++ start ++ type ++ value ++ finish)

/-- A function with its body. Without a body it is printed as it was written. -/
def fnItem (g : Grammar) (lead : Tokens) : Reader ItemTokens := do
  let s ← signature g
  if ← takeOp ";" then return none
  else return some (lead ++ s.tokens ++ (← valueBlock g))

/-! ## Traits -/

def traitFn (g : Grammar) : Reader Tokens := do
  let s ← signature g
  if ← peek (isGroup .brace) then return s.tokens ++ (← valueBlock g)
  else return s.tokens ++ (← op ";")

/-- A constant of a trait, as it is printed, and whether it has neither parameters nor bounds. -/
def traitConst (g : Grammar) : Reader (Tokens × Bool) := do
  let isPlain ← (do
    let start ← get
    skip 2
    let generic ← peekOp "<"
    set start
    return !generic)
  let start ← get
  let (tokens, _) ← constItem g
  let isBounded := (← since start).any (isWord "where")
  return (tokens, isPlain && !isBounded)

/-- Something in a trait. With a visibility or a default mark it is printed as it was written. -/
def traitMember (g : Grammar) : Reader Tokens := do
  let start ← get
  let attributes ← outer g
  let v ← visibility
  let default ← wordIf "default"
  let isPlain := v.isInherited && default.isEmpty
  let finish (plain : Bool) (tokens : Tokens) : Reader Tokens := do
    if plain && isPlain then return attributes ++ tokens else since start
  if ← peekFn then finish true (← traitFn g)
  else if ← peekWord "const" then
    let (tokens, plain) ← traitConst g
    finish plain tokens
  else if ← peekWord "type" then finish true (← typeItem g false true).tokens
  else if isPlain && (← startsCallItem) then finish true (← callItem false)
  else refuse

def traitItem (g : Grammar) (aliases : Bool) : Reader Tokens := do
  let lead ← head g "trait"
  let isEnd : Reader Bool := return (← peekWord "where") || (← peekOp ";")
  if aliases && (← peekOp "=") then
    return lead ++ (← seq [op "=", tokensBy "+" isEnd (boundTokens g), whereClause g, op ";"])
  let stop : Reader Bool := return (← peekWord "where") || (← peek (isGroup .brace))
  let parents ← if ← takeOp ":" then afterColon "+" stop (boundTokens g) else pure []
  return lead ++ parents ++ (← seq [whereClause g,
    grouped .brace (seq [inner g, toEnd (traitMember g)])])

/-! ## Foreign items -/

/-- A function or a variable of another language. Only a plain one is printed anew. -/
def foreignMember (g : Grammar) : Reader Tokens := do
  let start ← get
  let attributes ← outer g
  let v ← visibility
  let finish (plain : Bool) (tokens : Tokens) : Reader Tokens := do
    if plain then return attributes ++ v.tokens ++ tokens else since start
  let ahead ← get
  let safe ← (do
    let _ ← seq [wordIf "const", wordIf "async"]
    let safe ← takeWord "safe"
    let isFn ← if safe then peekFn else pure false
    return safe && isFn)
  set ahead
  if safe then
    let _ ← seq [wordIf "const", wordIf "async", word "safe"]
    let _ ← traitFn g
    since start
  else if ← peekFn then
    let s ← signature g
    if ← peek (isGroup .brace) then
      let _ ← valueBlock g
      since start
    else finish true (s.tokens ++ (← op ";"))
  else if (← peekWord "static") ||
      ((← peek (isOneOf ["unsafe", "safe"])) && (← peekAt 1 (isWord "static"))) then
    let plain ← peekWord "static"
    if !plain then skip 1
    let tokens ← seq [word "static", wordIf "mut", name, op ":", TypeExpr.tokens <$> g.type true]
    let value ← onlyIf (peekOp "=") (seq [op "=", expressionTokens g true])
    let semicolon ← op ";"
    finish (plain && value.isEmpty) (tokens ++ semicolon)
  else if ← peekWord "type" then
    let t ← typeItem g true true
    finish (!t.hasBounds && !t.hasDefinition) t.tokens
  else if v.isInherited && (← startsCallItem) then finish true (← callItem false)
  else refuse

def foreignItems (g : Grammar) : Reader Tokens :=
  seq [callingConvention, grouped .brace (seq [inner g, toEnd (foreignMember g)])]

/-! ## Items -/

def moduleItem (g : Grammar) : Reader Tokens := do
  let lead ← seq [word "mod", if ← peekWord "try" then word "try" else name]
  if ← peekOp ";" then return lead ++ (← op ";")
  else return lead ++ (← grouped .brace (seq [inner g, toEnd g.item]))

def libraryItem : Reader Tokens :=
  seq [word "extern", word "crate", one fun t => isIdent t || isWord "self" t,
    onlyIf (peekWord "as") (seq [word "as", nameOrBlank]), op ";"]

def macroItem : Reader Tokens :=
  seq [word "macro", name, onlyIf (peek (isGroup .paren)) (one (isGroup .paren)),
    one (isGroup .brace)]

def peekForeign : Reader Bool := do
  return (← peekWord "extern") && ((← peekAt 1 (isGroup .brace)) ||
    ((← peekAt 1 isText) && (← peekAt 2 (isGroup .brace))))

def unsafeItem (g : Grammar) (v : Visibility) : Reader Tokens := do
  let lead := v.tokens ++ (← word "unsafe")
  if ← peekWord "mod" then return lead ++ (← moduleItem g)
  else if (← peekWord "extern") && v.isInherited then return lead ++ (← foreignItems g)
  else return lead ++ (← seq [wordIf "auto", traitItem g false])

def peekImpl : Reader Bool := do
  return (← peekWord "impl") || ((← peekWord "unsafe") && (← peekAt 1 (isWord "impl"))) ||
    ((← peekWord "default") && !(← peekOpAt 1 "!"))

/-- An item after its attributes; `g` reads what is inside it. -/
def itemBody (g : Grammar) : Reader ItemTokens := do
  let start ← get
  let v ← visibility
  let plain := ItemTokens.after v.tokens
  if ← peekFn then fnItem g v.tokens
  else if (← peekWord "extern") && (← peekAt 1 (isWord "crate")) then plain libraryItem
  else if v.isInherited && (← peekForeign) then plain (foreignItems g)
  else if ← peekWord "use" then useItem g v.tokens
  else if ← peekWord "static" then staticItem g v.tokens
  else if ← peekWord "const" then
    let (tokens, ordinary) ← constItem g
    return .unless (!ordinary) (v.tokens ++ tokens)
  else if ← peekImpl then
    set start
    let found ← readImpl g true
    return .unless found.asWritten found.tokens
  else if ← peekWord "unsafe" then some <$> unsafeItem g v
  else if ← peekWord "mod" then plain (moduleItem g)
  else if ← peekWord "type" then
    let t ← typeItem g true false
    return .unless (t.hasBounds || !t.hasDefinition) (v.tokens ++ t.tokens)
  else if ← peekWord "struct" then plain (seq [head g "struct", structBody g])
  else if ← peekWord "enum" then
    plain (seq [head g "enum", whereClause g, grouped .brace (commaTokens (variant g))])
  else if (← peekWord "union") && (← peekAt 1 isIdent) then
    plain (seq [head g "union", whereClause g, fieldsInBraces g])
  else if ← peekWord "trait" then plain (traitItem g true)
  else if (← peekWord "auto") && (← peekAt 1 (isWord "trait")) then
    plain (seq [word "auto", traitItem g false])
  else if ← peekWord "macro" then
    let _ ← macroItem
    return none
  else if v.isInherited && (← startsCallItem) then plain (callItem true)
  else refuse

def item (g : Grammar) : Reader Tokens := do
  let start ← get
  let attributes ← outer g
  match ← itemBody g with
  | some tokens => return attributes ++ tokens
  | none => since start

end HookDispatch.Source
