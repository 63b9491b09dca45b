import HookDispatch.Expansion.Error
import HookDispatch.Generation.Generator
import HookDispatch.Source.Lexer

/-!
The options of an expansion, written as assignments of truth values. Commas between them may be
left out, and of two assignments to one option the later one counts.
-/
namespace HookDispatch

open Source

structure Options where
  collapse : Option Bool := none
  aliases : Option Bool := none
deriving DecidableEq, Repr

namespace Options

def setter? (o : Options) (name : String) : Option (Bool → Options) :=
  if name = "collapse" then some fun value => { o with collapse := value }
  else if name = "aliases" then some fun value => { o with aliases := value }
  else none

def truthValue? : TokenTree → Option Bool
  | .ident "true" => some true
  | .ident "false" => some false
  | _ => none

/-- Reads assignments after those that are read already. The name of an option is looked at before
its value. -/
def readFrom (o : Options) : List TokenTree → Except ExpansionError Options
  | [] => .ok o
  | .ident name :: .punct '=' _ :: rest =>
    if isKeyword name then .error .malformed
    else
      match o.setter? name, rest with
      | none, _ => .error (.unknownOption name)
      | some set, value :: .punct ',' _ :: rest =>
        match truthValue? value with
        | some b => readFrom (set b) rest
        | none => .error .malformed
      | some set, value :: rest =>
        match truthValue? value with
        | some b => readFrom (set b) rest
        | none => .error .malformed
      | some _, [] => .error .malformed
  | _ => .error .malformed

def read (source : String) : Except ExpansionError Options :=
  match lex source with
  | some tokens => readFrom {} tokens
  | none => .error .malformed

/-- The choices of a generation pass; what is not written is on. -/
def config (o : Options) : Config where
  collapse := o.collapse.getD true
  aliases := o.aliases.getD true

end Options

end HookDispatch
