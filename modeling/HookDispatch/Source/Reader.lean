import HookDispatch.Source.TokenTree

/-!
Readers of token streams. A reader takes tokens from the front of a stream and gives what they
stand for, or refuses the stream. Punctuation is taken character by character, so `>>` is two
closing brackets where two are wanted. Readers of tokens give what they took as it is printed:
operators apart from one another, however they were written.
-/
namespace HookDispatch.Source

open TokenTree (symbol)

abbrev Reader (α : Type) := StateT Tokens Option α

namespace Reader

variable {α : Type}

def refuse : Reader α := failure

def all (r : Reader α) (tokens : Tokens) : Option α :=
  match r.run tokens with
  | some (a, []) => some a
  | _ => none

def atEnd : Reader Bool := return (← get).isEmpty

/-! ## What comes next -/

def isPunctChar (c : Char) : TokenTree → Bool
  | .punct d _ => c = d
  | _ => false

def isWord (word : String) : TokenTree → Bool
  | .ident w => w = word
  | _ => false

def isOneOf (words : List String) : TokenTree → Bool
  | .ident w => words.contains w
  | _ => false

def isGroup (d : Delimiter) : TokenTree → Bool
  | .group d' _ => d = d'
  | _ => false

def isAnyGroup : TokenTree → Bool
  | .group .. => true
  | _ => false

def isLifetime : TokenTree → Bool
  | .lifetime _ => true
  | _ => false

def isIdent : TokenTree → Bool
  | .ident w => !isKeyword w
  | _ => false

def isAnyWord : TokenTree → Bool
  | .ident _ => true
  | _ => false

/-- Whether a token is a literal by itself; the truth values are literals. -/
def isLiteral : TokenTree → Bool
  | .literal _ => true
  | .ident w => w = "true" || w = "false"
  | _ => false

def isNumber : TokenTree → Bool
  | .literal text => text.toList.head?.any Char.isDigit
  | _ => false

def isText : TokenTree → Bool
  | .literal text => text.startsWith "\"" || text.startsWith "r"
  | _ => false

/-- Whether a list of tokens starts with an operator, of which all but the last character are
joint. -/
def startsWith : List Char → Tokens → Bool
  | [], _ => true
  | [c], .punct d _ :: _ => c = d
  | c :: cs, .punct d joint :: rest => c = d && joint && startsWith cs rest
  | _, _ => false

def peekAt (i : Nat) (p : TokenTree → Bool) : Reader Bool := return (← get)[i]?.any p

def peek (p : TokenTree → Bool) : Reader Bool := peekAt 0 p

def peekOpAt (i : Nat) (op : String) : Reader Bool := return startsWith op.toList ((← get).drop i)

def peekOp (op : String) : Reader Bool := peekOpAt 0 op

def peekWord (word : String) : Reader Bool := peek (isWord word)

/-- Whether an operator comes next that is not the start of one of some longer ones. -/
def peekOpBut (op : String) (longer : List String) : Reader Bool := do
  let ahead ← get
  return startsWith op.toList ahead && !longer.any (startsWith ·.toList ahead)

/-- Whether a point comes next that is no part of a range. -/
def peekPoint : Reader Bool := peekOpBut "." [".."]

/-- Whether a colon comes next that is no part of a path. -/
def peekColon : Reader Bool := peekOpBut ":" ["::"]

/-- Whether a literal comes next. A number can be negative. -/
def peekLiteral : Reader Bool := do
  return (← peek isLiteral) || ((← peekOp "-") && (← peekAt 1 isNumber))

/-! ## Taking tokens -/

def next : Reader TokenTree := do
  match ← get with
  | t :: rest => set rest; return t
  | [] => refuse

def skip (n : Nat) : Reader Unit := modify (·.drop n)

def takeOp (op : String) : Reader Bool := do
  if ← peekOp op then skip op.length; return true
  else return false

def expectOp (op : String) : Reader Unit := do
  if !(← takeOp op) then refuse

def takeWord (word : String) : Reader Bool := do
  if ← peekWord word then skip 1; return true
  else return false

def expectWord (word : String) : Reader Unit := do
  if !(← takeWord word) then refuse

/-- Takes an identifier, raw or not, that is no keyword. -/
def ident : Reader String := do
  match ← next with
  | .ident w => if isKeyword w then refuse else return w
  | _ => refuse

def anyWord : Reader String := do
  match ← next with
  | .ident w => return w
  | _ => refuse

def lifetime : Reader String := do
  match ← next with
  | .lifetime name => return name
  | _ => refuse

def within (d : Delimiter) (r : Reader α) : Reader α := do
  match ← next with
  | .group d' inner =>
    if d = d' then
      match r.all inner with
      | some a => return a
      | none => refuse
    else refuse
  | _ => refuse

/-- The tokens that were taken since the stream was `start`, as they were written. -/
def since (start : Tokens) : Reader Tokens := return start.take (start.length - (← get).length)

/-! ## Repetition -/

/-- Takes steps from `a` on until one has no result, at most as many as there are tokens. -/
def iterate (step : α → Reader (Option α)) (a : α) : Reader α := do
  go ((← get).length + 1) a
where
  go : Nat → α → Reader α
    | 0, _ => refuse
    | fuel + 1, a => do
      match ← step a with
      | some a => go fuel a
      | none => return a

def repeatWhile (more : Reader Bool) (item : Reader α) : Reader (List α) := do
  return (← iterate (fun found => do
    if ← more then return some ((← item) :: found) else return none) []).reverse

/-- Reads items with a separator between them, up to where `stop` holds or no separator follows.
The answer says whether a separator was written last. -/
def separatedBy (sep : String) (stop : Reader Bool) (item : Reader α) :
    Reader (List α × Bool) := do
  let (found, trailing) ← iterate (fun (found, trailing) => do
    if !(found.isEmpty || trailing) || (← stop) then return none
    let a ← item
    return some (a :: found, ← takeOp sep)) ([], false)
  return (found.reverse, trailing)

def commaList (item : Reader α) : Reader (List α × Bool) := separatedBy "," atEnd item

/-! ## Readers of tokens -/

def seq : List (Reader Tokens) → Reader Tokens
  | [] => return []
  | r :: rs => return (← r) ++ (← seq rs)

def op (text : String) : Reader Tokens := do
  expectOp text
  return symbol text

def opIf (text : String) : Reader Tokens := do
  if ← takeOp text then return symbol text else return []

def word (text : String) : Reader Tokens := do
  expectWord text
  return [.ident text]

def wordIf (text : String) : Reader Tokens := do
  if ← takeWord text then return [.ident text] else return []

def name : Reader Tokens := return [.ident (← ident)]

def nameOrBlank : Reader Tokens := do
  if ← takeWord "_" then return [.ident "_"] else name

def one (p : TokenTree → Bool) : Reader Tokens := do
  let t ← next
  if p t then return [t] else refuse

def literal : Reader Tokens := do
  if ← peek isLiteral then return [← next]
  else
    let sign ← op "-"
    return sign ++ (← one isNumber)

def lifetimeIf : Reader Tokens := do
  if ← peek isLifetime then return [← next] else return []

def grouped (d : Delimiter) (r : Reader Tokens) : Reader Tokens :=
  return [.group d (← within d r)]

def anyGroup : Reader Tokens := one isAnyGroup

def onlyIf (condition : Reader Bool) (r : Reader Tokens) : Reader Tokens := do
  if ← condition then r else return []

def toEnd (part : Reader Tokens) : Reader Tokens := do
  return (← repeatWhile (return !(← atEnd)) part).flatten

end Reader

def commaIf (written : Bool) : Tokens := if written then symbol "," else []

/-- Items with a separator between them, and after the last one if one was written there. -/
def separated (sep : String) (trailing : Bool) (items : List Tokens) : Tokens :=
  (items.intersperse (symbol sep)).flatten ++ (if trailing then symbol sep else [])

namespace Reader

def tokensBy (sep : String) (stop : Reader Bool) (item : Reader Tokens) : Reader Tokens := do
  let (items, trailing) ← separatedBy sep stop item
  return separated sep trailing items

def commaTokens (item : Reader Tokens) : Reader Tokens := tokensBy "," atEnd item

end Reader

end HookDispatch.Source
