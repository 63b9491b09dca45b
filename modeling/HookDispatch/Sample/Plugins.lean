import HookDispatch.DispatchLoop.Run
import HookDispatch.Expansion.Basic

/-!
Sample plugins that are given as source. Their blocks are expanded, and the loops are run with the
methods below. The state of a plugin is the list of calls it took; numbers wrap around.
-/
namespace HookDispatch.Sample

open Source

structure PluginMethod where
  source : MethodSource
  behaviour : Behaviour (List String) := fun log ds => { state := log, params := ds }

/-- A plugin: its options and its block with what the methods do. -/
structure Plugin where
  options : String := ""
  selfType : String
  methods : List PluginMethod

namespace Plugin

def noting (line : String) : Behaviour (List String) := fun log ds =>
  { state := log ++ [line], params := ds }

def giving (result : List Datum → Option Datum) : Behaviour (List String) := fun log ds =>
  { state := log, params := ds, ret := result ds }

def scenario : Plugin where
  selfType := "Scenario"
  methods :=
    [{ source := { name := "init", receiver := "&mut self" }
       behaviour := noting "init()" },
      { source := { name := "init_user", receiver := "&mut self", params := [("user", "String")] }
        behaviour := fun log ds =>
          match ds with
          | [.plain (.string user)] =>
            { state := log ++ ["init_user(" ++ user ++ ")"], params := ds }
          | _ => { state := log, params := ds } },
      { source :=
          { name := "init_user_group"
            receiver := "&mut self"
            params := [("user", "String"), ("group", "String")] }
        behaviour := fun log ds =>
          match ds with
          | [.plain (.string user), .plain (.string group)] =>
            { state := log ++ ["init_user_group(" ++ user ++ ", " ++ group ++ ")"], params := ds }
          | _ => { state := log, params := ds } },
      { source := { name := "increment", receiver := "&mut self", params := [("x", "&mut i32")] }
        behaviour := fun log ds =>
          match ds with
          | [.plain (.i32 x)] => { state := log, params := [.plain (.i32 (x + 1))] }
          | _ => { state := log, params := ds } },
      { source :=
          { name := "greet"
            receiver := "&self"
            params := [("name", "&str")]
            result := "String" }
        behaviour := giving fun
          | [.plain (.string name)] => some (.plain (.string ("hello " ++ name)))
          | _ => none },
      { source :=
          { name := "sum"
            receiver := "&self"
            params := [("a", "i32"), ("b", "i32")]
            result := "i32" }
        behaviour := giving fun
          | [.plain (.i32 a), .plain (.i32 b)] => some (.plain (.i32 (a + b)))
          | _ => none },
      { source :=
          { name := "echo"
            receiver := "&self"
            params := [("value", "Object")]
            result := "Object" }
        behaviour := giving List.head? },
      { source :=
          { attributes := ["hook"], visibility := "pub", name := "tagged", receiver := "&mut self" }
        behaviour := noting "tagged()" },
      { source :=
          { visibility := "pub", name := "call_count", receiver := "&self", result := "usize" } },
      { source :=
          { name := "generic", generics := ["T: Default"], receiver := "&self", result := "T" } }]

def unaliased : Plugin where
  options := "collapse = false, aliases = false"
  selfType := "Unaliased"
  methods :=
    [{ source :=
        { name := "say", receiver := "&self", params := [("word", "String")], result := "String" }
       behaviour := giving List.head? },
      { source :=
          { name := "say_loud"
            receiver := "&self"
            params := [("word", "String")]
            result := "String" }
        behaviour := giving fun
          | [.plain (.string word)] => some (.plain (.string (word.map Char.toUpper)))
          | _ => none },
      { source := { name := "sa", receiver := "&mut self" }
        behaviour := noting "sa" }]

/-- Every shape of parameter and result, with methods that are kept out for several reasons. -/
def shapes (selfType options : String) : Plugin where
  options := options
  selfType := selfType
  methods :=
    [{ source := { name := "a", receiver := "&mut self" }
       behaviour := noting "a" },
      { source :=
          { name := "ab", receiver := "&mut self", params := [("x", "i32")], result := "i32" }
        behaviour := fun log ds =>
          match ds with
          | [.plain (.i32 x)] =>
            { state := log ++ ["ab(" ++ toString x.toInt ++ ")"]
              params := ds
              ret := some (.plain (.i32 (x * 2))) }
          | _ => { state := log, params := ds } },
      { source :=
          { name := "abc"
            receiver := "&mut self"
            params := [("x", "&mut i32"), ("s", "&str"), ("y", "&mut String")]
            result := "String" }
        behaviour := fun log ds =>
          match ds with
          | [.plain (.i32 x), .plain (.string s), .plain (.string y)] =>
            { state := log ++ ["abc(" ++ toString x.toInt ++ ", " ++ s ++ ", " ++ y ++ ")"]
              params :=
                [.plain (.i32 (x + .ofNat s.utf8ByteSize)), .plain (.string s),
                  .plain (.string (y ++ s))]
              ret := some (.plain (.string (y ++ s ++ "!"))) }
          | _ => { state := log, params := ds } },
      { source :=
          { name := "swap"
            receiver := "&mut self"
            params := [("a", "&mut Object"), ("b", "&mut Object")] }
        behaviour := fun log ds => { state := log, params := ds.reverse } },
      { source :=
          { name := "view", receiver := "&self", params := [("a", "&Object")], result := "Object" }
        behaviour := giving List.head? },
      { source :=
          { name := "total", receiver := "&self", params := [("xs", "&[u8]")], result := "u32" }
        behaviour := giving fun
          | [.plain (.bytes xs)] => some (.plain (.u32 (xs.foldl (fun n x => n + x.toUInt32) 0)))
          | _ => none },
      { source :=
          { name := "push"
            receiver := "&mut self"
            params := [("xs", "&mut Vec<u8>"), ("x", "u8")]
            result := "usize" }
        behaviour := fun log ds =>
          match ds with
          | [.plain (.bytes xs), .plain (.u8 x)] =>
            { state := log
              params := [.plain (.bytes (xs ++ [x])), .plain (.u8 x)]
              ret := some (.plain (.usize (.ofNat (xs.length + 1)))) }
          | _ => { state := log, params := ds } },
      { source := { name := "reverse", receiver := "&mut self", params := [("xs", "&mut [u8]")] }
        behaviour := fun log ds =>
          match ds with
          | [.plain (.bytes xs)] => { state := log, params := [.plain (.bytes xs.reverse)] }
          | _ => { state := log, params := ds } },
      { source :=
          { name := "maybe"
            receiver := "&self"
            params := [("x", "Option<i32>")]
            result := "Option<i32>" }
        behaviour := giving fun
          | [.plain (.maybeI32 x)] => some (.plain (.maybeI32 (x.map fun n => -n)))
          | _ => none },
      { source := { name := "unit", receiver := "&mut self", result := "()" }
        behaviour := noting "unit" },
      { source :=
          { name := "r#match"
            receiver := "&self"
            params := [("label", "&str")]
            result := "bool" }
        behaviour := giving fun
          | [.plain (.string label)] => some (.plain (.bool (label == "yes")))
          | _ => none },
      { source :=
          { name := "naïve", receiver := "&mut self", params := [("c", "char"), ("flag", "bool")] }
        behaviour := fun log ds =>
          match ds with
          | [.plain (.char c), .plain (.bool flag)] =>
            { state := log ++ ["naïve(" ++ c.toString ++ ", " ++ toString flag ++ ")"]
              params := ds }
          | _ => { state := log, params := ds } },
      { source := { name := "any", receiver := "&self", params := [("_rest", "&[Object]")] } },
      { source := { name := "borrowed", receiver := "&self", result := "&str" } },
      { source := { attributes := ["hook(skip)"], name := "abd", receiver := "&mut self" }
        behaviour := noting "abd" }]

def mixed : Plugin := shapes "Mixed" "collapse = true"

def mixedFlat : Plugin := shapes "MixedFlat" "collapse = false"

def empty : Plugin where
  selfType := "Empty"
  methods := [{ source := { visibility := "pub", name := "helper", receiver := "&self" } }]

def all : List Plugin := [scenario, unaliased, mixed, mixedFlat, empty]

def named? (name : String) : Option Plugin := all.find? (·.selfType == name)

def expansion (p : Plugin) : Except ExpansionError Expansion :=
  (Expansion.ofSource p.options
    { selfType := p.selfType, members := p.methods.map fun m => .method m.source }).value

def behaviour (p : Plugin) (ident : String) : Behaviour (List String) :=
  match p.methods.find? (·.source.name == ident) with
  | some m => m.behaviour
  | none => fun log ds => { state := log, params := ds }

end Plugin

end HookDispatch.Sample
