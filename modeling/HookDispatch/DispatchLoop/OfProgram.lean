import HookDispatch.DispatchLoop.Basic
import HookDispatch.Expansion.Description
import HookDispatch.Program.Basic
import HookDispatch.Source.SourceText

/-!
The loop of a program. Blocks become arms operation by operation: operands are collected until a
call or a return takes them, and a block that ends without a branch or a return goes on to the
next block. The first operation that cannot be expressed is the reason of a failure.
-/
namespace HookDispatch

namespace DispatchLoop

structure Operands where
  actuals : List Actual := []
  values : Nat := 0
deriving DecidableEq, Repr

namespace Operands

def push (s : Operands) (a : Actual) : Operands := { s with actuals := s.actuals ++ [a] }

/-- The operands for the next call are used up; numbers of values are not used again. -/
def drain (s : Operands) : Operands := { s with actuals := [] }

/-- The last operand, which says whether the name was handled. -/
def handled (s : Operands) : Actual := s.actuals.getLast?.getD (.constant false)

def pop (s : Operands) : Operands := { s with actuals := s.actuals.dropLast }

end Operands

def Read.ofType (index : Nat) (type : TypeName) : Except ExpansionError Read :=
  if type.isObject then .ok (.object index)
  else
    match Source.TypeExpr.read? type.source with
    | some written => .ok (.typed index type written)
    | none => .error .malformed

def callStmt (p : Program) (ids : Identifiers) (hook : MethodId) (actuals : List Actual) :
    Except ExpansionError Stmt :=
  match p.hook? hook with
  | none => .error (.unknownHook hook)
  | some (key, m) =>
    match ids.lookup m.name with
    | none => .error (.noMethod key.text)
    | some ident => .ok (.call ident actuals (!m.ret.isVoid))

def lowerOperation (p : Program) (ids : Identifiers) (next : Nat) (s : Operands) :
    Operation → Except ExpansionError (List Stmt × Operands)
  | .clearResult => .ok ([.clearResult], s)
  | .branch c l => .ok ([.select c l.toNat next], s)
  | .initCursor => .ok ([.initCursor], s)
  | .loadByte => .ok ([.loadByte], s)
  | .compareByte b => .ok ([.compareByte b], s)
  | .compareName key => .ok ([.compareName key], s)
  | .advance => .ok ([.advance], s)
  | .unboxArg index type =>
    (Read.ofType index type).map fun read =>
      ([.bindValue s.values read], { s.push (.value s.values) with values := s.values + 1 })
  | .unboxTemp index type temp =>
    (Read.ofType index type).map fun read => ([.bindTemp temp.toNat read], s)
  | .pushTemp temp mutable => .ok ([], s.push (.address temp.toNat mutable))
  | .call hook => (callStmt p ids hook s.actuals).map fun stmt => ([stmt], s.drain)
  | .storeResult _ boxed => .ok ([.storeResult boxed], s)
  | .storeArg index temp type => .ok ([.storeArg index temp.toNat (!type.isObject)], s)
  | .setHandled b => .ok ([], s.push (.constant b))
  | .ret => .ok ([.ret s.handled], s.pop)

/-- The statements for the operations of a block, without the step to the next one. -/
def lowerOperations (p : Program) (ids : Identifiers) (next : Nat) (s : Operands) :
    List Operation → Except ExpansionError (List Stmt)
  | [] => .ok []
  | op :: rest =>
    match lowerOperation p ids next s op with
    | .error e => .error e
    | .ok (stmts, s) => (lowerOperations p ids next s rest).map (stmts ++ ·)

def lowerBlock (p : Program) (ids : Identifiers) (start next : Nat) : Except ExpansionError Arm :=
  let block := (p.operations.toList.drop start).take (next - start)
  let onward := if block.any Program.endsBlock then [] else [.goto next]
  (lowerOperations p ids next {} block).map fun stmts => ⟨start, stmts ++ onward⟩

def lowerBlocks (p : Program) (ids : Identifiers) : List Nat → Except ExpansionError (List Arm)
  | [] => .ok []
  | start :: rest =>
    match lowerBlock p ids start (rest.head?.getD p.size) with
    | .error e => .error e
    | .ok arm => (lowerBlocks p ids rest).map (arm :: ·)

def ofProgram (p : Program) (ids : Identifiers) : Except ExpansionError DispatchLoop :=
  (lowerBlocks p ids p.blockLeaders).map DispatchLoop.mk

end DispatchLoop

end HookDispatch
