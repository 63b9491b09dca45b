import HookDispatch.Source.Reader

/-!
How tightly the operators of expressions bind. The operators between two operands are told apart
by the longest spelling.
-/
namespace HookDispatch.Source

/-- The kinds of operators, the loosest first. -/
inductive Precedence where
  | jump | assign | range | or | and | letting | compare | bitOr | bitXor | bitAnd | shift | sum
  | product | cast
deriving DecidableEq, Repr

namespace Precedence

def rank : Precedence → Nat
  | jump => 0
  | assign => 1
  | range => 2
  | or => 3
  | and => 4
  | letting => 5
  | compare => 6
  | bitOr => 7
  | bitXor => 8
  | bitAnd => 9
  | shift => 10
  | sum => 11
  | product => 12
  | cast => 13

/-- Whether an operator binds at least as tightly as another one. -/
def atLeast (p base : Precedence) : Bool := base.rank ≤ p.rank

def operators : List (String × Precedence) :=
  [("+=", assign), ("-=", assign), ("*=", assign), ("/=", assign), ("%=", assign), ("^=", assign),
    ("&=", assign), ("|=", assign), ("<<=", assign), (">>=", assign), ("&&", and), ("||", or),
    ("<<", shift), (">>", shift), ("==", compare), ("<=", compare), ("!=", compare),
    (">=", compare), ("+", sum), ("-", sum), ("*", product), ("/", product), ("%", product),
    ("^", bitXor), ("&", bitAnd), ("|", bitOr), ("<", compare), (">", compare)]

def peekOperator : Reader (Option (String × Precedence)) := do
  let ahead ← get
  return operators.find? fun (op, _) => Reader.startsWith op.toList ahead

def peekAssign : Reader Bool := Reader.peekOpBut "=" ["=>"]

/-- How tightly what comes next binds to what stands before it. -/
def peek : Reader Precedence := do
  match ← peekOperator with
  | some (_, p) => return p
  | none =>
    if ← peekAssign then return assign
    else if ← Reader.peekOp ".." then return range
    else if ← Reader.peekWord "as" then return cast
    else return jump

end Precedence

end HookDispatch.Source
