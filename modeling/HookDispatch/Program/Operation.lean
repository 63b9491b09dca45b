import HookDispatch.Hooks.Registry
import HookDispatch.Program.Label
import HookDispatch.Text.Quoted

/-!
The operations of a dispatch method. The machine that they drive has the input name with a cursor,
a loaded byte and a flag, operands for the next call with numbered temporaries, the output slot
and the argument array.
-/
namespace HookDispatch

/-- The number of a temporary that holds a borrowed argument, kept in 16 bits. -/
structure TempId where
  index : UInt16
deriving DecidableEq, Repr

namespace TempId

def ofNat (n : Nat) : TempId := ⟨n.toUInt16⟩

def toNat (t : TempId) : Nat := t.index.toNat

def text (t : TempId) : String := "t" ++ toString t.toNat

end TempId

/-- When a branch is taken: the name is missing or empty; the cursor is at the end of the name; it
is before the end; the last comparison failed. -/
inductive Condition where
  | nameEmpty | exhausted | remaining | different
deriving DecidableEq, Repr

inductive Operation where
  /-- Empties the output slot. -/
  | clearResult
  | branch (condition : Condition) (target : Label)
  /-- Takes the length of the name and puts the cursor to its start. -/
  | initCursor
  /-- Loads the byte at the cursor. -/
  | loadByte
  | compareByte (byte : UInt8)
  /-- Compares the whole name. -/
  | compareName (key : String)
  | advance
  /-- Unboxes an argument as an operand of the next call. -/
  | unboxArg (index : Nat) (type : TypeName)
  /-- Unboxes an argument into a temporary. -/
  | unboxTemp (index : Nat) (type : TypeName) (temp : TempId)
  /-- Makes the address of a temporary an operand of the next call. -/
  | pushTemp (temp : TempId) (mutable : Bool)
  /-- Calls a hook with the operands and keeps what it returns. -/
  | call (hook : MethodId)
  /-- Puts what was returned into the output slot, boxed unless it is an object already. -/
  | storeResult (type : TypeName) (boxed : Bool)
  /-- Boxes a temporary back into the argument array. -/
  | storeArg (index : Nat) (temp : TempId) (type : TypeName)
  | setHandled (value : Bool)
  | ret
deriving DecidableEq, Repr

namespace Operation

def target : Operation → Option Label
  | branch _ l => some l
  | _ => none

def withTarget (l : Label) : Operation → Operation
  | branch c _ => branch c l
  | op => op

/-- Whether control never goes on to the next operation. -/
def isTerminator : Operation → Bool
  | ret => true
  | _ => false

def isPendingBranch (op : Operation) : Bool := op.target.any Label.isPending

def text : Operation → String
  | clearResult => "clear.result"
  | branch .nameEmpty l => "br.empty     -> " ++ l.text
  | branch .exhausted l => "br.ge        -> " ++ l.text
  | branch .remaining l => "br.lt        -> " ++ l.text
  | branch .different l => "br.ne        -> " ++ l.text
  | initCursor => "cursor.init"
  | loadByte => "ld.char"
  | compareByte b => "ceq          " ++ Text.quoteChar (Char.ofNat b.toNat)
  | compareName key => "ceq.name     " ++ Text.quoteString key
  | advance => "cursor.next"
  | unboxArg index type =>
    "unbox        args[" ++ toString index ++ "] : " ++ type.canonical
  | unboxTemp index type temp =>
    "unbox.tmp    args[" ++ toString index ++ "] : " ++ type.canonical ++ " -> " ++ temp.text
  | pushTemp temp mutable =>
    "ld.addr      " ++ (if mutable then "&mut" else "&") ++ " " ++ temp.text
  | call hook => "call         " ++ hook.text
  | storeResult type true => "box.st.ret   " ++ type.canonical
  | storeResult type false => "st.ret       " ++ type.canonical
  | storeArg index temp type =>
    "box.st.arg   " ++ temp.text ++ " : " ++ type.canonical ++ " -> args[" ++ toString index ++ "]"
  | setHandled value => "ld.const     " ++ toString value
  | ret => "ret"

end Operation

end HookDispatch
