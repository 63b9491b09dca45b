import HookDispatch.DispatchLoop.Basic
import HookDispatch.Text.Literal
import HookDispatch.Text.Utf8

/-!
The text of a loop: the body of a dispatch method as Rust source, its tokens parted by blanks as
token streams are printed.
-/
namespace HookDispatch.DispatchLoop

def braced (text : String) : String := "\x7b " ++ text ++ " \x7d"

def spaced (parts : List String) : String := String.intercalate " " parts

def valueName (n : Nat) : String := "__a" ++ toString n

def tempName (temp : Nat) : String := "__t" ++ toString temp

def indexText (index : Nat) : String := toString index ++ "usize"

def someOf (text : String) : String := ":: core :: option :: Option :: Some (" ++ text ++ ")"

def okOf (text : String) : String := ":: core :: result :: Result :: Ok (" ++ text ++ ")"

def noneText : String := ":: core :: option :: Option :: None"

def objectOf (boxed : Bool) (text : String) : String :=
  if boxed then ":: hookwire :: into_object (" ++ text ++ ")" else text

def Read.text : Read → String
  | object index => ":: hookwire :: object_at (& * args , " ++ indexText index ++ ") ?"
  | typed index _ written =>
    ":: hookwire :: unbox :: < " ++ written.render ++ " > (& * args , " ++ indexText index ++ ") ?"

def Actual.text : Actual → String
  | value n => valueName n
  | address temp true => "& mut " ++ tempName temp
  | address temp false => "& " ++ tempName temp
  | constant b => toString b

def conditionText : Condition → String
  | .nameEmpty => "__name . is_empty ()"
  | .exhausted => "__pos >= __len"
  | .remaining => "__pos < __len"
  | .different => "! __eq"

def Stmt.text : Stmt → String
  | clearResult => "* result = " ++ noneText ++ " ;"
  | initCursor => "__len = __name . len () ; __pos = 0 ;"
  | loadByte => "__ch = __name . get (__pos) . copied () ;"
  | compareByte b => "__eq = __ch == " ++ someOf (toString b.toNat ++ "u8") ++ " ;"
  | compareName key => "__eq = __name == " ++ Text.byteLiteral (Text.bytes key) ++ " ;"
  | advance => "__pos += 1 ;"
  | select c target otherwise =>
    "__pc = if " ++ conditionText c ++ " " ++ braced (toString target) ++ " else " ++
      braced (toString otherwise) ++ " ;"
  | goto target => "__pc = " ++ toString target ++ " ;"
  | bindValue n read => "let " ++ valueName n ++ " = " ++ read.text ++ " ;"
  | bindTemp temp read => "let mut " ++ tempName temp ++ " = " ++ read.text ++ " ;"
  | call ident actuals keeps =>
    (if keeps then "let __ret = " else "") ++ "self . " ++ ident ++ " (" ++
      String.intercalate " , " (actuals.map Actual.text) ++ ") ;"
  | storeResult boxed => "* result = " ++ someOf (objectOf boxed "__ret") ++ " ;"
  | storeArg index temp boxed =>
    "args [" ++ indexText index ++ "] = " ++ objectOf boxed (tempName temp) ++ " ;"
  | ret handled => "return " ++ okOf handled.text ++ " ;"

def Arm.text (arm : Arm) : String :=
  toString arm.state ++ " => " ++ braced (spaced (arm.body.map Stmt.text))

def declarations : List String :=
  ["let __name : & [u8] = match name " ++
      braced (someOf "name" ++ " => name . as_bytes () , " ++ noneText ++ " => & [] ,") ++ " ;",
    "let mut __len = 0usize ;", "let mut __pos = 0usize ;",
    "let mut __ch : :: core :: option :: Option < u8 > = " ++ noneText ++ " ;",
    "let mut __eq = false ;", "let mut __pc = 0usize ;"]

def text (loop : DispatchLoop) : String :=
  let arms := loop.arms.map Arm.text ++ ["_ => return " ++ okOf "false" ++ " ,"]
  spaced (declarations ++ ["loop " ++ braced ("match __pc " ++ braced (spaced arms))])

end HookDispatch.DispatchLoop
