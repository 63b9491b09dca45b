import HookDispatch.Program.Operation

/-!
Dispatch programs: the operations of a finished dispatch method with the hooks it may call. The
operations that begin a straight-line block are the first one, every target of a branch, and every
one after a branch or a return.
-/
namespace HookDispatch

structure Program where
  typeName : String
  operations : Array Operation
  /-- The collected hooks, by their ids. -/
  hooks : List (Signature × Method)
  /-- The first operation of the shared rejection. -/
  epilogue : Label
  /-- The number of temporaries that a call may need at once. -/
  temps : Nat
deriving DecidableEq, Repr

namespace Program

def size (p : Program) : Nat := p.operations.size

def hook? (p : Program) (id : MethodId) : Option (Signature × Method) := p.hooks[id.toNat]?

def keys (p : Program) : List String := p.hooks.map (·.1.text)

def endsBlock (op : Operation) : Bool := op.target.isSome || op.isTerminator

/-- Marks where blocks begin because of one operation: at its target, and after it if it ends a
block. Positions outside the program are left alone. -/
def markStarts (marks : Array Bool) (op : Operation) (i : Nat) : Array Bool :=
  let marks :=
    match op.target with
    | some l => marks.setIfInBounds l.toNat true
    | none => marks
  if endsBlock op then marks.setIfInBounds (i + 1) true else marks

/-- For each position, whether a block begins there. -/
def startMarks (ops : Array Operation) : Array Bool :=
  ops.toList.zipIdx.foldl (fun marks (op, i) => markStarts marks op i)
    ((Array.replicate ops.size false).setIfInBounds 0 true)

/-- The positions where blocks begin, in ascending order. -/
def leaders (ops : Array Operation) : List Nat :=
  (List.range ops.size).filter fun i => (startMarks ops).getD i false

def blockLeaders (p : Program) : List Nat := leaders p.operations

def operationLines (p : Program) (op : Operation) (i : Nat) : List String :=
  (if i = p.epilogue.toNat then ["epilogue:"] else []) ++
    [(Label.ofNat i).text ++ "  " ++ op.text]

/-- The listing: the type, its hooks, and every operation at its position. -/
def listing (p : Program) : List String :=
  ["; dispatch for " ++ p.typeName] ++
    p.keys.zipIdx.map (fun (key, i) => ";   " ++ (MethodId.ofNat i).text ++ " = " ++ key) ++
    p.operations.toList.zipIdx.flatMap fun (op, i) => p.operationLines op i

end Program

end HookDispatch
