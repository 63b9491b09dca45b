import HookDispatch.TypeName.Token

/-!
The canonical spelling of a type. Each token is spelled with a look at the token after it only:
words are parted by a space where they meet, generic brackets become square ones, and a comma
before a closing bracket is left out. What would end the text as a separator is cut off.
-/
namespace HookDispatch.TypeName

def Mark.spelling : Mark → List Char
  | .pathSep => [':', ':']
  | .arrow => [' ', '-', '>', ' ']
  | .less => ['[']
  | .greater => [']']
  | .parenOpen => ['(']
  | .parenClose => [')']
  | .squareOpen => ['[']
  | .squareClose => [']']
  | .comma => [',', ' ']
  | .semicolon => [';', ' ']
  | .ampersand => ['&']
  | .star => ['*']
  | .bang => ['!']
  | .plus => [' ', '+', ' ']
  | .equals => [' ', '=', ' ']
  | .question => ['?']
  | .other => ['#']

def Token.isWord : Token → Bool
  | .word _ => true
  | .mark _ => false

def Token.closes : Token → Bool
  | .mark .greater | .mark .squareClose | .mark .parenClose => true
  | _ => false

def Token.spelling (t : Token) (next : Option Token) : List Char :=
  match t with
  | .word w => if next.any Token.isWord then w ++ [' '] else w
  | .mark .comma => if next.any Token.closes then [] else Mark.comma.spelling
  | .mark m => m.spelling

def spell : List Token → List Char
  | [] => []
  | t :: rest => t.spelling rest.head? ++ spell rest

/-- The separators that a canonical text does not end with. -/
def isTrailing (c : Char) : Bool := c = ',' || c = ' '

def canonicalChars (text : List Char) : List Char :=
  Text.dropEndWhile isTrailing (spell (tokenize text))

def canonicalize (text : String) : String := String.ofList (canonicalChars text.toList)

end HookDispatch.TypeName
