import HookDispatch.Source.Reader

/-!
Types of Rust source as trees, and the tokens that they are printed with. A list keeps whether a
separator was written after its last item. Expressions inside types, as in the length of an array,
are kept as tokens. The arguments of a path are printed with its lifetimes first.
-/
namespace HookDispatch.Source

open TokenTree (symbol)

structure Binder where
  params : List Tokens
  trailing : Bool := false

mutual

inductive TypeExpr where
  | path (p : Path)
  /-- A path into a type, seen as one that has a trait if `trait` is given. -/
  | qualified (self : TypeExpr) (trait : Option Path) (rest : List Segment)
  | reference (lifetime : Option String) (mutable : Bool) (target : TypeExpr)
  | pointer (mutable : Bool) (target : TypeExpr)
  | slice (element : TypeExpr)
  | array (element : TypeExpr) (length : Tokens)
  | tuple (elements : List TypeExpr) (trailing : Bool)
  | paren (inner : TypeExpr)
  | never
  | inferred
  /-- A function pointer; `modifiers` are the tokens before `fn`, without the binder, and
  `trailing` what stands behind the last parameter. -/
  | function (binder : Option Binder) (modifiers : Tokens) (params : List FnParam)
    (trailing : Tokens) (result : Option TypeExpr)
  | traitObject (dynamic : Bool) (bounds : List Bound) (trailing : Bool)
  | implTrait (bounds : List Bound) (trailing : Bool)
  | invocation (p : Path) (body : TokenTree)
  /-- A type that is printed as it was written. -/
  | verbatim (tokens : Tokens)

inductive Path where
  | mk (global : Bool) (segments : List Segment)

inductive Segment where
  | mk (name : String) (args : Arguments)

inductive Arguments where
  | none
  | angle (turbofish : Bool) (args : List Argument) (trailing : Bool)
  | paren (inputs : List TypeExpr) (trailing : Bool) (result : Option TypeExpr)

inductive Argument where
  | lifetime (name : String)
  | type (t : TypeExpr)
  | constant (value : Tokens)
  | binding (name : String) (args : Arguments) (t : TypeExpr)
  | constBinding (name : String) (args : Arguments) (value : Tokens)
  | constraint (name : String) (args : Arguments) (bounds : List Bound) (trailing : Bool)

inductive Bound where
  | lifetime (name : String)
  | trait (parens maybe : Bool) (binder : Option Binder) (p : Path)
  /-- What an anonymous type captures, each with whether it is a lifetime. -/
  | captures (names : List (Bool × Tokens)) (trailing : Bool)
  /-- A bound that is printed as it was written. -/
  | verbatim (tokens : Tokens)

inductive FnParam where
  | mk (attributes : Tokens) (name : Option String) (t : TypeExpr)

end

def Argument.isLifetime : Argument → Bool
  | .lifetime _ => true
  | _ => false

def Arguments.isNone : Arguments → Bool
  | .none => true
  | _ => false

/-- Whether there is no argument, in brackets or without. -/
def Arguments.isEmpty : Arguments → Bool
  | .none => true
  | .angle _ args _ => args.isEmpty
  | .paren .. => false

namespace Path

def word (name : String) : Path := .mk false [.mk name .none]

def names : Path → List String
  | .mk _ segments => segments.map fun | .mk name _ => name

/-- Whether a path consists of words only. -/
def isPlain : Path → Bool
  | .mk _ segments => segments.all fun | .mk _ args => args.isNone

end Path

def Binder.tokens (b : Binder) : Tokens :=
  .ident "for" :: symbol "<" ++ separated "," b.trailing b.params ++ symbol ">"

def binderTokens : Option Binder → Tokens
  | none => []
  | some b => b.tokens

def arrow (result : Tokens) : Tokens :=
  if result.isEmpty then [] else symbol "->" ++ result

/-- Arguments between angle brackets, each with whether it is a lifetime and whether a comma was
written after it; the lifetimes come first, and a comma is added where two groups meet. -/
def angleTokens (args : List (Bool × Tokens)) (trailing : Bool) : Tokens :=
  let n := args.length
  let marked := args.zipIdx.map fun ((isLifetime, ts), i) =>
    (isLifetime, ts, i + 1 < n || trailing)
  let (front, back) := marked.partition Prod.fst
  let print (items : List (Bool × Tokens × Bool)) :=
    items.flatMap fun (_, ts, written) => ts ++ commaIf written
  let meets := !back.isEmpty && (front.getLast?.any fun (_, _, written) => !written)
  symbol "<" ++ print front ++ commaIf meets ++ print back ++ symbol ">"

mutual

def TypeExpr.tokens : TypeExpr → Tokens
  | .path p => p.tokens
  | .qualified self trait rest =>
    symbol "<" ++ self.tokens ++ traitTokens trait ++ symbol ">" ++ symbol "::" ++
      separated "::" false (segmentTokens rest)
  | .reference lifetime mutable target =>
    symbol "&" ++ (match lifetime with
      | some name => [.lifetime name]
      | none => []) ++ (if mutable then [.ident "mut"] else []) ++ target.tokens
  | .pointer mutable target =>
    symbol "*" ++ [.ident (if mutable then "mut" else "const")] ++ target.tokens
  | .slice element => [.group .bracket element.tokens]
  | .array element length => [.group .bracket (element.tokens ++ symbol ";" ++ length)]
  | .tuple elements trailing => [.group .paren (separated "," trailing (typesTokens elements))]
  | .paren inner => [.group .paren inner.tokens]
  | .never => symbol "!"
  | .inferred => [.ident "_"]
  | .function binder modifiers params trailing result =>
    binderTokens binder ++ modifiers ++ .ident "fn" ::
      .group .paren (separated "," false (paramsTokens params) ++ trailing) ::
        arrow (resultTokens result)
  | .traitObject dynamic bounds trailing =>
    (if dynamic then [.ident "dyn"] else []) ++ separated "+" trailing (boundsTokens bounds)
  | .implTrait bounds trailing => .ident "impl" :: separated "+" trailing (boundsTokens bounds)
  | .invocation p body => p.tokens ++ symbol "!" ++ [body]
  | .verbatim tokens => tokens

def Path.tokens : Path → Tokens
  | .mk global segments =>
    (if global then symbol "::" else []) ++ separated "::" false (segmentTokens segments)

def Segment.tokens : Segment → Tokens
  | .mk name args => .ident name :: args.tokens

def Arguments.tokens : Arguments → Tokens
  | .none => []
  | .angle turbofish args trailing =>
    (if turbofish then symbol "::" else []) ++ angleTokens (argumentsTokens args) trailing
  | .paren inputs trailing result =>
    .group .paren (separated "," trailing (typesTokens inputs)) :: arrow (resultTokens result)

def Argument.tokens : Argument → Tokens
  | .lifetime name => [.lifetime name]
  | .type t => t.tokens
  | .constant value => value
  | .binding name args t => .ident name :: args.tokens ++ symbol "=" ++ t.tokens
  | .constBinding name args value => .ident name :: args.tokens ++ symbol "=" ++ value
  | .constraint name args bounds trailing =>
    .ident name :: args.tokens ++ symbol ":" ++ separated "+" trailing (boundsTokens bounds)

def Bound.tokens : Bound → Tokens
  | .lifetime name => [.lifetime name]
  | .trait parens maybe binder p =>
    let inner := (if maybe then symbol "?" else []) ++ binderTokens binder ++ p.tokens
    if parens then [.group .paren inner] else inner
  | .captures names trailing => .ident "use" :: angleTokens names trailing
  | .verbatim tokens => tokens

def FnParam.tokens : FnParam → Tokens
  | .mk attributes name t =>
    attributes ++ (match name with
      | some name => .ident name :: symbol ":"
      | none => []) ++ t.tokens

def typesTokens : List TypeExpr → List Tokens
  | [] => []
  | t :: rest => t.tokens :: typesTokens rest

def segmentTokens : List Segment → List Tokens
  | [] => []
  | s :: rest => s.tokens :: segmentTokens rest

def argumentsTokens : List Argument → List (Bool × Tokens)
  | [] => []
  | a :: rest => (a.isLifetime, a.tokens) :: argumentsTokens rest

def boundsTokens : List Bound → List Tokens
  | [] => []
  | b :: rest => b.tokens :: boundsTokens rest

def paramsTokens : List FnParam → List Tokens
  | [] => []
  | p :: rest => p.tokens :: paramsTokens rest

def resultTokens : Option TypeExpr → Tokens
  | none => []
  | some t => t.tokens

def traitTokens : Option Path → Tokens
  | none => []
  | some p => .ident "as" :: p.tokens

end

namespace TypeExpr

def render (t : TypeExpr) : String := TokenTree.render t.tokens

/-- Whether the type itself is an anonymous one, not only a part of it. -/
def isImplTrait : TypeExpr → Bool
  | .implTrait .. => true
  | _ => false

def isReference : TypeExpr → Bool
  | .reference .. => true
  | _ => false

/-- The only word of a path that has nothing else. -/
def bareName? : TypeExpr → Option String
  | .path (.mk false [.mk name .none]) => some name
  | _ => none

/-- The bound that a type in parentheses is in front of a `+`, if it can be one. -/
def parenBound? : TypeExpr → Option Bound
  | .path p => some (.trait true false none p)
  | .traitObject false [.trait _ maybe binder p] false => some (.trait true maybe binder p)
  | .traitObject false [b] false => some b
  | _ => none

end TypeExpr

end HookDispatch.Source
