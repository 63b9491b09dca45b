import HookDispatch.Generation.Generator
import HookDispatch.Machine.Behaviour

/-!
A sample plugin whose hook names overlap: `Init`, `InitUser` and `InitUserGroup` share their
beginnings, `Increment` borrows mutably, `Sum` returns a value, and `Describe` is public and
untagged, so it is no hook. Its state is the list of calls it took.
-/
namespace HookDispatch.Sample.Scenario

def method (name : String) (params : List Parameter) (ret : ReturnType := .void) : Method where
  name := name
  owner := "ScenarioPlugin"
  params := params
  ret := ret

/-- The hooks with what they do. Numbers wrap around. -/
def hooks : List (Method × Behaviour (List String)) :=
  [(method "Init" [], fun log ds => { state := log ++ ["Init()"], params := ds }),
    (method "InitUser" [{ name := "user", element := ⟨"String"⟩ }], fun log ds =>
      match ds with
      | [.plain (.string user)] =>
        { state := log ++ ["InitUser(" ++ user ++ ")"], params := ds }
      | _ => { state := log, params := ds }),
    (method "InitUserGroup"
      [{ name := "user", element := ⟨"String"⟩ }, { name := "group", element := ⟨"String"⟩ }],
      fun log ds =>
      match ds with
      | [.plain (.string user), .plain (.string group)] =>
        { state := log ++ ["InitUserGroup(" ++ user ++ ", " ++ group ++ ")"], params := ds }
      | _ => { state := log, params := ds }),
    (method "Increment" [{ name := "x", element := ⟨"i32"⟩, passing := .mutable }], fun log ds =>
      match ds with
      | [.plain (.i32 x)] => { state := log ++ ["Increment"], params := [.plain (.i32 (x + 1))] }
      | _ => { state := log, params := ds }),
    (method "Sum" [{ name := "a", element := ⟨"i32"⟩ }, { name := "b", element := ⟨"i32"⟩ }]
      (.value ⟨"i32"⟩), fun log ds =>
      match ds with
      | [.plain (.i32 a), .plain (.i32 b)] =>
        { state := log ++ ["Sum"], params := ds, ret := some (.plain (.i32 (a + b))) }
      | _ => { state := log, params := ds })]

def table : MethodTable where
  typeName := "ScenarioPlugin"
  methods := hooks.map Prod.fst ++
    [{ method "Describe" [] (.value ⟨"String"⟩) with flags := { isPublic := true } }]

def invokers : HookTable (List String) :=
  hooks.foldl (fun t (m, behaviour) => t.bind (.ofMethod m) (m.faithful behaviour)) {}

def dispatcher (config : Config) : Traced (Except GeneratorError (Dispatcher (List String))) :=
  (Generator.standard config).compile table |>.map fun compiled =>
    match compiled with
    | .error e => .error e
    | .ok p => Dispatcher.ofProgram p invokers

end HookDispatch.Sample.Scenario
