import HookDispatch.Source.Precedence
import HookDispatch.Source.TypeExpr

/-!
The readers of those parts of source text that nest in one another. A reader of any part is
defined from such a grammar for the parts inside it, so each one is a plain definition, and the
nesting is the recursion of `Grammar.ofDepth` alone.
-/
namespace HookDispatch.Source

inductive ExpressionForm where
  | range
  | comparison
  /-- An expression that is a statement without a semicolon, as a loop is. -/
  | block
  | invocation (braced : Bool)
  /-- An expression that is printed as it was written. -/
  | verbatim
  | plain
deriving DecidableEq, Repr

structure Expression where
  tokens : Tokens
  form : ExpressionForm := .plain

namespace Expression

def isBlock (e : Expression) : Bool := e.form = .block

/-- Whether the expression is a statement without a semicolon. -/
def standsAlone (e : Expression) : Bool := e.form = .block || e.form = .invocation true

def endsInBrace (e : Expression) : Bool := e.tokens.getLast?.any (Reader.isGroup .brace)

/-- An expression with attributes in front. One that is printed as it was written keeps none. -/
def withAttributes (e : Expression) (attributes : Tokens) : Expression :=
  if e.form = .verbatim then e else { e with tokens := attributes ++ e.tokens }

end Expression

inductive PatternForm where
  /-- A pattern that gives its name to the whole value. -/
  | binding (name : String)
  | rest
  /-- A range that lacks one of its ends. -/
  | openRange
  | verbatim
  | plain
deriving DecidableEq, Repr

structure Pattern where
  tokens : Tokens
  form : PatternForm := .plain

/-- The name that a pattern gives to the whole value, without the mark of a raw identifier. -/
def Pattern.name? (p : Pattern) : Option String :=
  match p.form with
  | .binding name => some (unraw name)
  | _ => none

inductive GenericKind where
  | lifetime | type | const
deriving DecidableEq, Repr

structure GenericParam where
  kind : GenericKind
  name : String
  /-- The parameter without its default. -/
  declaration : Tokens
  /-- The default with its sign, if there is one. -/
  default : Tokens := []

namespace GenericParam

def isLifetime (p : GenericParam) : Bool := p.kind = .lifetime

def typeName? (p : GenericParam) : Option String := if p.kind = .type then some p.name else none

def tokens (p : GenericParam) : Tokens := p.declaration ++ p.default

end GenericParam

/-- The parameters of an item, with whether a comma is written last. -/
structure Generics where
  params : List GenericParam := []
  trailing : Bool := false

namespace Generics

/-- The parameters as `print` shows them between angle brackets; no parameters are not shown. -/
def tokensBy (print : GenericParam → Tokens) (g : Generics) : Tokens :=
  if g.params.isEmpty then []
  else angleTokens (g.params.map fun p => (p.isLifetime, print p)) g.trailing

def tokens : Generics → Tokens := tokensBy GenericParam.tokens

def declarations : Generics → Tokens := tokensBy GenericParam.declaration

end Generics

structure Grammar where
  /-- A type; with `plus` it may be a sum of bounds. -/
  type (plus : Bool) : Reader TypeExpr
  /-- A bound; captures and constant bounds may stand in some places only. -/
  bound (capture const : Bool) : Reader Bound
  genericParam : Reader GenericParam
  /-- A pattern without alternatives. -/
  pattern : Reader Pattern
  /-- An expression; with `structs` it may end with the fields of a structure. -/
  expression (structs : Bool) : Reader Expression
  /-- An expression without operators between operands. -/
  operand (structs : Bool) : Reader Expression
  /-- What follows a first operand, as far as it binds at least as tightly as `base`. -/
  continued (structs : Bool) (base : Precedence) (first : Expression) : Reader Expression
  /-- An expression where a statement begins. -/
  leading : Reader Expression
  /-- The statements of a block. -/
  statements : Reader Tokens
  /-- An item that may stand in a module. -/
  item : Reader Tokens
  /-- What a `use` brings in, with whether the item is printed as it was written. Where `fromRoot`
  holds, names may be looked up from the root. -/
  imports (fromRoot : Bool) : Reader (Tokens × Bool)

def Grammar.empty : Grammar where
  type _ := Reader.refuse
  bound _ _ := Reader.refuse
  genericParam := Reader.refuse
  pattern := Reader.refuse
  expression _ := Reader.refuse
  operand _ := Reader.refuse
  continued _ _ _ := Reader.refuse
  leading := Reader.refuse
  statements := Reader.refuse
  item := Reader.refuse
  imports _ := Reader.refuse

end HookDispatch.Source
