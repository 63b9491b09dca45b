import HookDispatch.Machine.Dispatcher

/-!
Scripted hook bodies, to try out dispatchers. A script is a list of steps that read, write and
note things; it ends with the first step that returns or fails, or empty-handed after the last
one. Notes of a caller's own are of any type.
-/
namespace HookDispatch.Sample

inductive Step (ν : Type) where
  | note (x : ν)
  /-- Notes the number of parameters. -/
  | size
  | arg (n : Nat) (kind : Kind)
  | object (n : Nat)
  /-- Writes a new object back. -/
  | write (n : Nat) (v : Value)
  | increment (n : Nat)
  /-- Writes one parameter's object back as another's. -/
  | copy (source target : Nat)
  /-- Does a step, and notes its failure instead of failing. -/
  | attempt (step : Step ν)
  | fail (n : Nat)
  | answer (v : Option Value)
  | answerArg (n : Nat)
  | answerSum (a b : Nat)

inductive Entry (ν : Type) where
  | note (x : ν)
  | text (s : String)
  | size (n : Nat)
  | value (v : Value)
  | object (v : Value)
  | failure (e : MarshalError)

variable {ν : Type}

/-- The log of all scripts that ran on a target, in order. -/
abbrev Log (ν : Type) := List (Entry ν)

def int32 : Value → Int32
  | .i32 n => n
  | _ => 0

/-- Does one step; then goes on with `next`, or with `caught` after a failure. -/
def Step.perform (log : Log ν) (next : Log ν → Body (Log ν))
    (caught : Log ν → MarshalError → Body (Log ν)) : Step ν → Body (Log ν)
  | note x => next (log ++ [.note x])
  | size => .size fun n => next (log ++ [.size n])
  | arg n kind => .arg n kind fun
    | .ok v => next (log ++ [.value v])
    | .error e => caught log e
  | object n => .object n fun
    | .ok o => next (log ++ [.object o.value])
    | .error e => caught log e
  | write n v => .writeBack n v fun
    | .ok _ => next log
    | .error e => caught log e
  | increment n => .arg n .i32 fun
    | .ok v => .writeBack n (.i32 (int32 v + 1)) fun
      | .ok _ => next log
      | .error e => caught log e
    | .error e => caught log e
  | copy source target => .object source fun
    | .ok o => .write target o fun
      | .ok _ => next log
      | .error e => caught log e
    | .error e => caught log e
  | attempt step => step.perform log next fun log e => next (log ++ [.failure e])
  | fail n => caught log (.notByRef n)
  | answer none => .done log (.ok none)
  | answer (some v) => .box v fun o => .done log (.ok (some o))
  | answerArg n => .object n fun
    | .ok o => .done log (.ok (some o))
    | .error e => caught log e
  | answerSum a b => .arg a .i32 fun
    | .ok x => .arg b .i32 fun
      | .ok y => .box (.i32 (int32 x + int32 y)) fun o => .done log (.ok (some o))
      | .error e => caught log e
    | .error e => caught log e

def performAll (log : Log ν) : List (Step ν) → Body (Log ν)
  | [] => .done log (.ok none)
  | step :: rest =>
    step.perform log (fun log => performAll log rest) fun log e => .done log (.error e)

/-- The body of the hook with the given key: it logs the key and does the script. -/
def scripted (key : Signature) (script : List (Step ν)) : Invoker (Log ν) := fun log =>
  performAll (log ++ [.text key.text]) script

def noteAll (m : Method) : List (Step ν) := (List.range m.params.length).map .object

end HookDispatch.Sample
