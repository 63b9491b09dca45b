import HookDispatch.Source.ImplSource
import HookDispatch.Source.ItemReader
import HookDispatch.Source.Lexer
import HookDispatch.Source.StatementReader

/-!
Reading source text. The grammar of a depth reads parts that are nested so often in one another,
and every part inside another one leaves fewer tokens to read or is one of a few steps to such a
part. So a depth taken from the number of tokens is never used up.
-/
namespace HookDispatch.Source

/-- The grammar for parts that are nested at most so often. -/
def Grammar.ofDepth : Nat → Grammar
  | 0 => .empty
  | depth + 1 => {
      type := fun plus s => typeExpr (ofDepth depth) plus s
      bound := fun capture const s => Source.bound (ofDepth depth) capture const s
      genericParam := fun s => Source.genericParam (ofDepth depth) s
      pattern := fun s => Source.pattern (ofDepth depth) s
      expression := fun structs s => Source.expression (ofDepth depth) structs s
      operand := fun structs s => Source.operand (ofDepth depth) structs s
      continued := fun structs base first s =>
        Source.continued (ofDepth depth) structs base first s
      leading := fun s => leadingExpression (ofDepth depth) s
      statements := fun s => Source.statements (ofDepth depth) s
      item := fun s => Source.item (ofDepth depth) s
      imports := fun fromRoot s => Source.imports (ofDepth depth) fromRoot s }

/-- A depth that some tokens cannot use up. -/
def depthFor (tokens : Tokens) : Nat := 8 * TokenTree.weights tokens + 16

def readText {α : Type} (r : Grammar → Reader α) (source : String) : Option α :=
  (lex source).bind fun tokens => (r (.ofDepth (depthFor tokens))).all tokens

def TypeExpr.read? (source : String) : Option TypeExpr :=
  readText (fun g => typeExpr g true) source

def ImplBlock.read? (source : ImplSource) : Option ImplBlock := readText implBlock source.text

end HookDispatch.Source
