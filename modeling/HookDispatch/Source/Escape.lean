/-!
Escapes in quoted literals. A literal holds characters, bytes, or the characters of a text that a
NUL ends; which escapes and which plain characters it may hold depends on that. An escape is
measured by the number of characters after its backslash.
-/
namespace HookDispatch.Source

inductive QuotedKind where
  | text | bytes | terminated
deriving DecidableEq, Repr

namespace QuotedKind

def allows (kind : QuotedKind) (c : Char) : Bool :=
  match kind with
  | text => true
  | bytes => c.toNat < 0x80
  | terminated => c != '\x00'

end QuotedKind

def hexDigit? (c : Char) : Option Nat :=
  if '0' ≤ c && c ≤ '9' then some (c.toNat - 0x30)
  else if 'a' ≤ c && c ≤ 'f' then some (c.toNat - 0x61 + 10)
  else if 'A' ≤ c && c ≤ 'F' then some (c.toNat - 0x41 + 10)
  else none

/-- Reads the digits of a code point up to the closing brace. There are one to six digits, and
underscores may follow the first one. The answer is the number with the length of its text. -/
def codePointDigits (seen value : Nat) : List Char → Option (Nat × Nat)
  | [] => none
  | c :: rest =>
    if c = '\x7d' then if 0 < seen then some (value, 1) else none
    else if c = '_' then
      if 0 < seen then (codePointDigits seen value rest).map fun (v, n) => (v, n + 1) else none
    else
      match hexDigit? c with
      | some d =>
        if seen < 6 then
          (codePointDigits (seen + 1) (value * 16 + d) rest).map fun (v, n) => (v, n + 1)
        else none
      | none => none

/-- The length of the blanks with which a line is continued, to the first other character. A
carriage return counts only in front of a line feed. -/
def continuationLength (afterReturn : Bool) : List Char → Option Nat
  | [] => none
  | c :: rest =>
    if afterReturn then
      if c = '\n' then (continuationLength false rest).map (· + 1) else none
    else if c = ' ' || c = '\t' || c = '\n' || c = '\r' then
      (continuationLength (c = '\r') rest).map (· + 1)
    else some 0

/-- The length of a hexadecimal escape of two digits. A character's is below 128, and one in a
text that a NUL ends is not NUL. -/
def hexEscapeLength (kind : QuotedKind) : List Char → Option Nat
  | a :: b :: _ =>
    match hexDigit? a, hexDigit? b with
    | some m, some n =>
      match kind with
      | .text => if m < 8 then some 3 else none
      | .bytes => some 3
      | .terminated => if m = 0 && n = 0 then none else some 3
    | _, _ => none
  | _ => none

def codePointEscapeLength (kind : QuotedKind) : List Char → Option Nat
  | '\x7b' :: rest =>
    match codePointDigits 0 0 rest with
    | some (value, n) =>
      if value.isValidChar && !(kind = .terminated && value = 0) then some (n + 2) else none
    | none => none
  | _ => none

def escapeLength (kind : QuotedKind) : List Char → Option Nat
  | [] => none
  | c :: rest =>
    if c = 'x' then hexEscapeLength kind rest
    else if c = 'u' then if kind = .bytes then none else codePointEscapeLength kind rest
    else if c = '0' then if kind = .terminated then none else some 1
    else if "nrt\\'\"".toList.contains c then some 1
    else if c = '\n' || c = '\r' then (continuationLength (c = '\r') rest).map (· + 1)
    else none

/-- The body of a quoted literal after its opening quote, with the closing one. The first `skip`
characters belong to an escape. -/
def quotedBody (kind : QuotedKind) (skip : Nat) : List Char → Option (List Char × List Char)
  | [] => none
  | c :: rest =>
    let keep (skip : Nat) :=
      (quotedBody kind skip rest).map fun (body, after) => (c :: body, after)
    match skip with
    | skip + 1 => keep skip
    | 0 =>
      if c = '"' then some ([c], rest)
      else if c = '\\' then (escapeLength kind rest).bind keep
      else if c = '\r' then if rest.head? = some '\n' then keep 0 else none
      else if kind.allows c then keep 0
      else none

def rawBody (kind : QuotedKind) (marks : List Char) : List Char → Option (List Char × List Char)
  | [] => none
  | c :: rest =>
    if c = '"' && marks.isPrefixOf rest then some (c :: marks, rest.drop marks.length)
    else if (c = '\r' && rest.head? ≠ some '\n') || !kind.allows c then none
    else (rawBody kind marks rest).map fun (body, after) => (c :: body, after)

def characterBody (kind : QuotedKind) (cs : List Char) : Option (List Char × List Char) :=
  let length : Option Nat :=
    match cs with
    | '\\' :: '\n' :: _ | '\\' :: '\r' :: _ => none
    | '\\' :: rest => (escapeLength kind rest).map (· + 1)
    | c :: _ => if kind.allows c then some 1 else none
    | [] => none
  length.bind fun n =>
    if (cs.drop n).head? = some '\'' then some (cs.take (n + 1), cs.drop (n + 1)) else none

end HookDispatch.Source
