import HookDispatch.Text.Blank

/-!
Comments of source text. A plain comment parts words like a blank. A comment that documents what
follows, or with an exclamation mark what it stands in, belongs to the text.
-/
namespace HookDispatch.Source

open Text

/-- The blanks of source text; the marks of text direction are blanks. -/
def isSourceBlank (c : Char) : Bool := isBlank c || c = '\u200e' || c = '\u200f'

/-- Drops a block comment whose start is passed already; such comments nest. -/
def afterBlockComment (depth : Nat) : List Char → Option (List Char)
  | '*' :: '/' :: rest =>
    match depth with
    | 0 => some rest
    | depth + 1 => afterBlockComment depth rest
  | '/' :: '*' :: rest => afterBlockComment (depth + 1) rest
  | _ :: rest => afterBlockComment depth rest
  | [] => none

def skipOne : List Char → Option (List Char)
  | '/' :: '/' :: rest =>
    match rest with
    | '!' :: _ => none
    | '/' :: '/' :: _ => some (rest.dropWhile (· ≠ '\n'))
    | '/' :: _ => none
    | _ => some (rest.dropWhile (· ≠ '\n'))
  | '/' :: '*' :: rest =>
    match rest with
    | '!' :: _ => none
    | '*' :: '/' :: after => some after
    | '*' :: '*' :: _ => afterBlockComment 0 rest
    | '*' :: _ => none
    | _ => afterBlockComment 0 rest
  | c :: rest => if isSourceBlank c then some rest else none
  | [] => none

def startsComment : List Char → Bool
  | '/' :: '/' :: _ => true
  | '/' :: '*' :: _ => true
  | _ => false

structure DocComment where
  inner : Bool
  text : List Char

def wholeLineEnds : List Char → Bool
  | [] => true
  | '\r' :: rest => rest.head? = some '\n' && wholeLineEnds rest
  | _ :: rest => wholeLineEnds rest

/-- A line without its end, and what follows the line. -/
def lineOf : List Char → List Char × List Char
  | [] => ([], [])
  | '\n' :: rest => ([], '\n' :: rest)
  | '\r' :: '\n' :: rest => ([], '\n' :: rest)
  | c :: rest =>
    let (line, after) := lineOf rest
    (c :: line, after)

def docLine (inner : Bool) (cs : List Char) : DocComment × List Char :=
  let (line, after) := lineOf cs
  (⟨inner, line⟩, after)

/-- A documenting block, from its opening on; the mark after the opening is no part of the text.
The end of a block can share its star with the opening. -/
def docBlock (inner : Bool) (cs : List Char) : Option (DocComment × List Char) :=
  (afterBlockComment 0 (cs.drop 2)).map fun after =>
    (⟨inner, (cs.take (cs.length - after.length - 2)).drop 3⟩, after)

def docComment (cs : List Char) : Option (DocComment × List Char) :=
  let found : Option (DocComment × List Char) :=
    match cs with
    | '/' :: '/' :: '!' :: rest => some (docLine true rest)
    | '/' :: '*' :: '!' :: _ => docBlock true cs
    | '/' :: '/' :: '/' :: rest => if rest.head? = some '/' then none else some (docLine false rest)
    | '/' :: '*' :: '*' :: rest => if rest.head? = some '*' then none else docBlock false cs
    | _ => none
  found.filter fun (doc, _) => wholeLineEnds doc.text

end HookDispatch.Source
