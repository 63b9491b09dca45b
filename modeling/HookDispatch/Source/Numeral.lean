import HookDispatch.Source.Escape
import HookDispatch.Text.IdentChar

/-!
Numbers of source text. A number with a fraction or an exponent is one word, signs included, if
the exponent has a digit; any other number is an integer, in one of four bases. A suffix may follow
at once. The fields of tuples are integers without a suffix.
-/
namespace HookDispatch.Source

open Text

def isDigitMark (c : Char) : Bool := c.isDigit || c = '_'

def spanned (p : Char → Bool) (cs : List Char) : List Char × List Char :=
  (cs.takeWhile p, cs.dropWhile p)

def identRun (cs : List Char) : List Char × List Char :=
  match cs with
  | c :: _ => if isIdentStart c then spanned isIdentContinue cs else ([], cs)
  | [] => ([], [])

/-- The part of an exponent after its letter: marks, at most one sign and more marks before the
first digit. -/
def exponent (cs : List Char) : Option (List Char × List Char) :=
  let (marks, rest) := spanned (· = '_') cs
  let (sign, rest) : List Char × List Char :=
    match rest with
    | '+' :: more => (['+'], more)
    | '-' :: more => (['-'], more)
    | _ => ([], rest)
  let (more, rest) := spanned (· = '_') rest
  if rest.head?.any Char.isDigit then
    let (digits, rest) := spanned isDigitMark rest
    some (marks ++ sign ++ more ++ digits, rest)
  else none

/-- The fraction at the front. It starts with a point that no other point and no identifier
follows. -/
def fraction (cs : List Char) : Option (List Char × List Char) :=
  match cs with
  | '.' :: rest =>
    if rest.head?.any fun c => c = '.' || isIdentStart c then none
    else
      let (digits, rest) := spanned isDigitMark rest
      some ('.' :: digits, rest)
  | _ => none

def floatDigits (cs : List Char) : Option (List Char × List Char) :=
  let (whole, rest) := spanned isDigitMark cs
  let fractional := fraction rest
  if fractional.isNone && rest.head? = some '.' then none
  else
    let (digits, rest) := fractional.getD ([], rest)
    let plain := if fractional.isSome then some (whole ++ digits, rest) else none
    match rest with
    | e :: after =>
      if e = 'e' || e = 'E' then
        match exponent after with
        | some (power, rest) => some (whole ++ digits ++ e :: power, rest)
        | none => plain
      else plain
    | [] => plain

/-- The digits of an integer in a base up to sixteen. A decimal digit that the base does not have
spoils the number, and a letter that is no digit ends it. -/
def baseDigits (base : Nat) (seen : Bool) : List Char → Option (List Char × List Char)
  | [] => if seen then some ([], []) else none
  | c :: rest =>
    let keep (seen : Bool) :=
      (baseDigits base seen rest).map fun (digits, after) => (c :: digits, after)
    let finish := if seen then some ([], c :: rest) else none
    if c = '_' then keep seen
    else
      match hexDigit? c with
      | some d => if d < base then keep true else if c.isDigit then none else finish
      | none => finish

def numberBase : List Char → Nat × Nat
  | '0' :: 'x' :: _ => (16, 2)
  | '0' :: 'o' :: _ => (8, 2)
  | '0' :: 'b' :: _ => (2, 2)
  | _ => (10, 0)

def integerDigits (cs : List Char) : Option (List Char × List Char) :=
  let (base, n) := numberBase cs
  (baseDigits base false (cs.drop n)).map fun (digits, rest) => (cs.take n ++ digits, rest)

def withSuffix (body : List Char × List Char) : Option (List Char × List Char) :=
  let (suffix, rest) := identRun body.2
  if rest.head?.any isIdentContinue then none else some (body.1 ++ suffix, rest)

def number (cs : List Char) : Option (List Char × List Char) :=
  ((floatDigits cs).bind withSuffix).or ((integerDigits cs).bind withSuffix)

/-- The value of an integer without a suffix. -/
def integerValue? (text : List Char) : Option Nat :=
  let (base, n) := numberBase text
  match baseDigits base false (text.drop n) with
  | some (digits, []) =>
    some ((digits.filterMap hexDigit?).foldl (fun value d => value * base + d) 0)
  | _ => none

/-- The field of a tuple that an integer names. Fields are counted with 32 bits. -/
def fieldIndex? (text : List Char) : Option Nat :=
  (integerValue? text).bind fun n => if n < 0x100000000 then some n else none

end HookDispatch.Source
