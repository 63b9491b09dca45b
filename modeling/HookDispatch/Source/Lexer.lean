import HookDispatch.Source.Comment
import HookDispatch.Source.Numeral
import HookDispatch.Source.TokenTree
import HookDispatch.Text.Literal

/-!
From source text to token trees. The text is first cut into lexemes, one after the other, and the
brackets among them are then matched. Blanks and plain comments part lexemes, and a documenting
comment is an attribute. Text that holds anything else than tokens, or brackets that do not match,
has no tokens.
-/
namespace HookDispatch.Source

open Text
open TokenTree (symbol)

inductive Lexeme where
  /-- Tokens that are complete; they are more than one only for a documenting comment. -/
  | tokens (ts : List TokenTree)
  | opening (d : Delimiter)
  | closing (d : Delimiter)

def isPunct (c : Char) : Bool := "~!@#$%^&*-=+|;:,<.>/?'".toList.contains c

def startsPunct (cs : List Char) : Bool := cs.head?.any isPunct && !startsComment cs

def suffixed (lead : List Char) (found : List Char × List Char) : Lexeme × List Char :=
  let (suffix, rest) := identRun found.2
  (.tokens [.literal (String.ofList (lead ++ found.1 ++ suffix))], rest)

def quotedLiteral (kind : QuotedKind) (lead : List Char) (cs : List Char) :
    Option (Lexeme × List Char) :=
  (quotedBody kind 0 cs).map (suffixed lead)

/-- A literal without escapes, from the marks before its opening quote on. -/
def rawLiteral (kind : QuotedKind) (lead : List Char) (cs : List Char) :
    Option (Lexeme × List Char) :=
  let marks := cs.takeWhile (· = '#')
  match cs.dropWhile (· = '#') with
  | '"' :: rest =>
    if marks.length < 256 then
      (rawBody kind marks rest).map (suffixed (lead ++ marks ++ ['"']))
    else none
  | _ => none

def unrawable : List String := ["_", "super", "self", "Self", "crate"]

def identifier (cs : List Char) : Option (String × List Char) :=
  match cs with
  | 'r' :: '#' :: rest =>
    let (name, after) := identRun rest
    if name.isEmpty || unrawable.contains (String.ofList name) then none
    else some ("r#" ++ String.ofList name, after)
  | _ =>
    let (name, rest) := identRun cs
    if name.isEmpty then none else some (String.ofList name, rest)

def literalMarks : List String := ["r", "b", "br", "c", "cr"]

/-- A character literal, or a lifetime after its quote. A quote in front of a literal with a mark
stands alone. -/
def afterQuote (cs : List Char) : Option (Lexeme × List Char) :=
  match characterBody .text cs with
  | some found => some (suffixed ['\''] found)
  | none =>
    match identifier cs with
    | some (name, rest) =>
      if rest.head? = some '\'' || (rest.head? = some '#' && !name.startsWith "r#") then none
      else if rest.head? = some '"' && literalMarks.contains name then
        some (.tokens [.punct '\'' true], cs)
      else some (.tokens [.lifetime name], rest)
    | none => none

def word (cs : List Char) : Option (Lexeme × List Char) :=
  match cs with
  | 'b' :: '"' :: rest => quotedLiteral .bytes ['b', '"'] rest
  | 'c' :: '"' :: rest => quotedLiteral .terminated ['c', '"'] rest
  | 'b' :: '\'' :: rest => (characterBody .bytes rest).map (suffixed ['b', '\''])
  | 'r' :: '"' :: _ => rawLiteral .text ['r'] (cs.drop 1)
  | 'r' :: '#' :: '"' :: _ | 'r' :: '#' :: '#' :: _ => rawLiteral .text ['r'] (cs.drop 1)
  | 'b' :: 'r' :: '"' :: _ | 'b' :: 'r' :: '#' :: _ => rawLiteral .bytes ['b', 'r'] (cs.drop 2)
  | 'c' :: 'r' :: '"' :: _ | 'c' :: 'r' :: '#' :: _ => rawLiteral .terminated ['c', 'r'] (cs.drop 2)
  | _ => (identifier cs).map fun (name, rest) => (.tokens [.ident name], rest)

/-- What stands for text in error. It is a literal although it looks like brackets. -/
def errorMark : String := "(/*ERROR*/)"

/-- The first lexeme of a text that begins neither with a blank nor with a comment. -/
def Lexeme.next (c : Char) (rest : List Char) : Option (Lexeme × List Char) :=
  match c with
  | '(' =>
    match errorMark.toList.isPrefixOf? (c :: rest) with
    | some after => some (.tokens [.literal errorMark], after)
    | none => some (.opening .paren, rest)
  | '[' => some (.opening .bracket, rest)
  | '\x7b' => some (.opening .brace, rest)
  | ')' => some (.closing .paren, rest)
  | ']' => some (.closing .bracket, rest)
  | '\x7d' => some (.closing .brace, rest)
  | '"' => quotedLiteral .text ['"'] rest
  | '\'' => afterQuote rest
  | _ =>
    if c.isDigit then
      (number (c :: rest)).map fun (text, after) =>
        (.tokens [.literal (String.ofList text)], after)
    else if startsPunct (c :: rest) then some (.tokens [.punct c (startsPunct rest)], rest)
    else word (c :: rest)

def DocComment.tokens (doc : DocComment) : List TokenTree :=
  symbol "#" ++ (if doc.inner then symbol "!" else []) ++
    [.group .bracket (.ident "doc" :: symbol "=" ++
      [.literal (stringLiteral (String.ofList doc.text))])]

def Lexeme.first (c : Char) (rest : List Char) : Option (Lexeme × List Char) :=
  match docComment (c :: rest) with
  | some (doc, after) => some (.tokens doc.tokens, after)
  | none => Lexeme.next c rest

/-- Cuts a text into lexemes. Each step leaves a shorter text. -/
def lexemes (cs : List Char) : Option (List Lexeme) :=
  match cs with
  | [] => some []
  | c :: rest =>
    match skipOne (c :: rest) with
    | some after => if after.length ≤ rest.length then lexemes after else none
    | none =>
      match Lexeme.first c rest with
      | none => none
      | some (lexeme, after) =>
        if after.length ≤ rest.length then (lexemes after).map (lexeme :: ·) else none
termination_by cs.length
decreasing_by all_goals (simp only [List.length_cons]; omega)

/-- Matches brackets. The stack holds the groups that are open, each with the tokens before it;
tokens are kept in reverse. -/
def matchGroups (stack : List (Delimiter × List TokenTree)) (seen : List TokenTree) :
    List Lexeme → Option (List TokenTree)
  | [] => if stack.isEmpty then some seen.reverse else none
  | .tokens ts :: rest => matchGroups stack (ts.reverse ++ seen) rest
  | .opening d :: rest => matchGroups ((d, seen) :: stack) [] rest
  | .closing d :: rest =>
    match stack with
    | (opened, before) :: outer =>
      if d = opened then matchGroups outer (.group d seen.reverse :: before) rest else none
    | [] => none

/-- The tokens of a source text. A byte order mark at its very start is no part of it. -/
def lex (source : String) : Option (List TokenTree) :=
  let cs := source.toList
  (lexemes (if cs.head? = some '\ufeff' then cs.drop 1 else cs)).bind (matchGroups [] [])

end HookDispatch.Source
