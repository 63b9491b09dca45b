import HookDispatch.TypeName.Piece

/-!
The tokens that identify a type. Words and marks stay; lifetimes and raw marks carry no identity
and are dropped, a lifetime together with a `+` directly before it, since both spell a bound that
is not part of the type. Characters that no type is written with all become one and the same mark.
-/
namespace HookDispatch.TypeName

inductive Mark where
  | pathSep | arrow
  | less | greater | parenOpen | parenClose | squareOpen | squareClose
  | comma | semicolon | ampersand | star | bang | plus | equals | question
  | other
deriving DecidableEq, Repr

def Mark.ofChar : Char → Mark
  | '<' => .less
  | '>' => .greater
  | '(' => .parenOpen
  | ')' => .parenClose
  | '[' => .squareOpen
  | ']' => .squareClose
  | ',' => .comma
  | ';' => .semicolon
  | '&' => .ampersand
  | '*' => .star
  | '!' => .bang
  | '+' => .plus
  | '=' => .equals
  | '?' => .question
  | _ => .other

inductive Token where
  | word (chars : List Char)
  | mark (m : Mark)
deriving DecidableEq, Repr

/-- Adds a piece to the tokens read so far, the latest first. -/
def Token.push (seen : List Token) : Piece → List Token
  | .word w => .word w :: seen
  | .lifetime _ =>
    match seen with
    | .mark .plus :: earlier => earlier
    | _ => seen
  | .rawMark => seen
  | .pathSep => .mark .pathSep :: seen
  | .arrow => .mark .arrow :: seen
  | .sign c => .mark (.ofChar c) :: seen

def tokensOf (ps : List Piece) : List Token := (ps.foldl Token.push []).reverse

def tokenize (text : List Char) : List Token := tokensOf (pieces text)

end HookDispatch.TypeName
