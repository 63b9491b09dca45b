/-!
Token trees of Rust source. A token stream is a list of words, lifetimes, literals, single
punctuation characters and bracketed groups. A punctuation character is joint when it is written
together with the next one, as in `::`. Written out, tokens are parted by single spaces except
after a joint character, and round and square brackets hug their contents.
-/
namespace HookDispatch.Source

inductive Delimiter where
  | paren | bracket | brace
deriving DecidableEq, Repr

/-- A quote is punctuation only if it belongs neither to a literal nor to a lifetime. -/
inductive TokenTree where
  /-- A word; a raw one begins with `r#`. -/
  | ident (text : String)
  /-- A lifetime, without its quote; a raw one begins with `r#`. -/
  | lifetime (name : String)
  | punct (c : Char) (joint : Bool)
  | literal (text : String)
  | group (d : Delimiter) (inner : List TokenTree)

abbrev Tokens := List TokenTree

namespace TokenTree

def symbol (text : String) : Tokens :=
  match text.toList.reverse with
  | [] => []
  | last :: earlier => (earlier.reverse.map (punct · true)) ++ [punct last false]

def isJoint : TokenTree → Bool
  | punct _ joint => joint
  | _ => false

def enclose (d : Delimiter) (isEmpty : Bool) (text : String) : String :=
  match d with
  | .paren => "(" ++ text ++ ")"
  | .bracket => "[" ++ text ++ "]"
  | .brace => "\x7b " ++ text ++ (if isEmpty then "" else " ") ++ "\x7d"

mutual

def text : TokenTree → String
  | ident s => s
  | lifetime name => "'" ++ name
  | punct c _ => String.singleton c
  | literal s => s
  | group d inner => enclose d inner.isEmpty (render inner)

def render : List TokenTree → String
  | [] => ""
  | t :: rest =>
    t.text ++ (if rest.isEmpty || t.isJoint then "" else " ") ++ render rest

end

mutual

def weight : TokenTree → Nat
  | group _ inner => weights inner + 1
  | _ => 1

def weights : List TokenTree → Nat
  | [] => 0
  | t :: rest => t.weight + weights rest

end

end TokenTree

open TokenTree (render)

def keywords : List String :=
  ["_", "abstract", "as", "async", "await", "become", "box", "break", "const", "continue", "crate",
    "do", "dyn", "else", "enum", "extern", "false", "final", "fn", "for", "if", "impl", "in",
    "let", "loop", "macro", "match", "mod", "move", "mut", "override", "priv", "pub", "ref",
    "return", "Self", "self", "static", "struct", "super", "trait", "true", "try", "type",
    "typeof", "unsafe", "unsized", "use", "virtual", "where", "while", "yield"]

def isKeyword (word : String) : Bool := keywords.contains word

/-- A word without the mark of a raw identifier. -/
def unraw (word : String) : String :=
  match word.toList with
  | 'r' :: '#' :: rest => String.ofList rest
  | _ => word

/-- Whether a type mentions a reference or a lifetime that is not static. A reference with a
written lifetime is decided by that lifetime. -/
def borrows : Tokens → Bool
  | [] => false
  | .group _ inner :: rest => borrows inner || borrows rest
  | .punct '&' _ :: .lifetime name :: rest => name != "static" || borrows rest
  | .punct '&' _ :: _ => true
  | .lifetime name :: rest => name != "static" || borrows rest
  | .punct '\'' _ :: _ => true
  | _ :: rest => borrows rest

end HookDispatch.Source
