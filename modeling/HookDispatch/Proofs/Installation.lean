import HookDispatch.Proofs.AddedMethod

/-!
Installing dispatchers. The installed method is invisible to the collector, visible to the check
that looks for it, and fit to be a contract itself. Hence installing one does not change the hooks
of a type, and whatever else happens to the type and its generator, it happens at most once.
-/
namespace HookDispatch

namespace MethodTable

variable {t : MethodTable} {m : Method} {name : String}

def Declares (t : MethodTable) (name : String) : Prop :=
  ∃ m ∈ t.methods, m.owner = t.typeName ∧ m.name = name

instance (t : MethodTable) (name : String) : Decidable (t.Declares name) :=
  inferInstanceAs (Decidable (∃ m ∈ t.methods, _))

theorem isSome_findDeclared : (t.findDeclared name).isSome = true ↔ t.Declares name := by
  simp only [findDeclared, declared, List.find?_isSome, List.mem_filter, beq_iff_eq, and_assoc,
    Declares]

def addAll (t : MethodTable) (ms : List Method) : MethodTable :=
  { t with methods := t.methods ++ ms }

@[simp]
theorem addAll_nil (t : MethodTable) : t.addAll [] = t := by
  rw [addAll, List.append_nil]

theorem add_addAll (t : MethodTable) (ms : List Method) (m : Method) :
    (t.addAll ms).add m = t.addAll (ms ++ [m]) := by
  simp only [add, addAll, List.append_assoc]

theorem addAll_addAll (t : MethodTable) (ms ms' : List Method) :
    (t.addAll ms).addAll ms' = t.addAll (ms ++ ms') := by
  simp only [addAll, List.append_assoc]

theorem declares_add : (t.add m).Declares name ↔
    t.Declares name ∨ m.owner = t.typeName ∧ m.name = name := by
  simp only [Declares, methods_add, typeName_add, List.mem_append, List.mem_singleton, or_and_right,
    exists_or, exists_eq_left]

theorem Declares.addAll (h : t.Declares name) (ms : List Method) :
    (t.addAll ms).Declares name := by
  obtain ⟨m, hm, hdeclared⟩ := h
  exact ⟨m, List.mem_append_left _ hm, hdeclared⟩

/-- What later methods add to the hooks depends on the earlier ones by their hooks only. -/
theorem collect_addAll_congr {t' : MethodTable} (htype : t.typeName = t'.typeName)
    (h : t.collect.value = t'.collect.value) (ms : List Method) :
    (t.addAll ms).collect.value = (t'.addAll ms).collect.value := by
  induction ms generalizing t t' with
  | nil => simpa only [addAll_nil] using h
  | cons m ms ih =>
    have hadd : ∀ t : MethodTable, t.addAll (m :: ms) = (t.add m).addAll ms := by
      intro t
      simp only [MethodTable.addAll, add, List.append_assoc, List.singleton_append]
    rw [hadd, hadd]
    refine ih htype ?_
    simp only [collect_add, collectStep, skipReason_congr htype, h]
    split
    · rfl
    · split <;> rfl

end MethodTable

namespace Generator

variable {g : Generator} {t : MethodTable} {f : Framework}

theorem ofFramework_eq_ok : ofFramework f = .ok g ↔
    f.contract? dispatchMethodName = some g.contract ∧ g.contract.contractFault = none ∧
      g.config = {} := by
  rw [ofFramework]
  split
  · rename_i hnone
    simp [hnone]
  · rename_i contract hcontract
    split
    · rename_i fault hfault
      simp only [hcontract, reduceCtorEq, Option.some.injEq, false_iff]
      rintro ⟨rfl, hnone, -⟩
      rw [hnone] at hfault
      cases hfault
    · rename_i hnone
      rw [Except.ok.injEq, hcontract, Option.some.injEq]
      constructor
      · rintro rfl
        exact ⟨rfl, hnone, rfl⟩
      · rintro ⟨rfl, -, hconfig⟩
        rw [← hconfig]

/-- Every accepted contract has the one name. -/
theorem name_contract_of_ofFramework (h : ofFramework f = .ok g) :
    g.contract.name = dispatchMethodName := by
  obtain ⟨hfind, -, -⟩ := ofFramework_eq_ok.mp h
  simpa only [beq_iff_eq] using List.find?_some hfind

theorem skipReason_overrideFor (g : Generator) (t : MethodTable) (typeName : String) :
    t.skipReason (g.overrideFor typeName) = some .isPublic := rfl

theorem collect_add_overrideFor (g : Generator) (t : MethodTable) (typeName : String) :
    (t.add (g.overrideFor typeName)).collect.value = t.collect.value := by
  refine MethodTable.collect_add_of_not_accepts fun h => ?_
  have hskip := h.1
  rw [skipReason_overrideFor] at hskip
  cases hskip

/-- What overrides a contract has its shape. -/
theorem contractFault_overrideFor (h : g.contract.contractFault = none) (typeName : String) :
    (g.overrideFor typeName).contractFault = none := by
  have hkind : g.contract.flags.isStatic = false ∧ g.contract.flags.isVirtual = true ∧
      g.contract.genericParams = 0 := by
    rw [Method.contractFault] at h
    split_ifs at h with hstatic hvirtual hgeneric <;> simp_all
  obtain ⟨hstatic, hvirtual, hgeneric⟩ := hkind
  rw [← h, Method.contractFault, Method.contractFault, hstatic, hvirtual, hgeneric]
  rfl

theorem compile_congr {t' : MethodTable} (htype : t.typeName = t'.typeName)
    (h : t.collect.value = t'.collect.value) : (g.compile t).value = (g.compile t').value := by
  simp only [compile, htype, h]

theorem generate_of_declares (h : t.Declares g.contract.name) :
    g.generate t = (t, ⟨[], .error (.alreadyInstalled t.typeName)⟩) := by
  rw [generate, if_pos (MethodTable.isSome_findDeclared.mpr h)]

/-- Installation in full: it is refused at the start, or the type has no program and stays as it
is, or it has one and gets the override. -/
theorem generate_cases (g : Generator) (t : MethodTable) :
    (t.Declares g.contract.name ∧
      g.generate t = (t, ⟨[], .error (.alreadyInstalled t.typeName)⟩)) ∨
    (¬ t.Declares g.contract.name ∧ ∃ e, (g.compile t).value = .error e ∧
      g.generate t = (t, g.compile t)) ∨
    (¬ t.Declares g.contract.name ∧ ∃ p, (g.compile t).value = .ok p ∧
      g.generate t = (t.add (g.overrideFor t.typeName), g.compile t)) := by
  by_cases hdeclares : t.Declares g.contract.name
  · exact Or.inl ⟨hdeclares, generate_of_declares hdeclares⟩
  · refine Or.inr ?_
    rw [generate, if_neg fun h => hdeclares (MethodTable.isSome_findDeclared.mp h)]
    split
    · rename_i e hcompile
      rw [hcompile]
      exact Or.inl ⟨hdeclares, e, rfl, rfl⟩
    · rename_i p hcompile
      rw [hcompile]
      exact Or.inr ⟨hdeclares, p, rfl, rfl⟩

theorem generate_of_error {e : GeneratorError} (h : (g.generate t).2.value = .error e) :
    (g.generate t).1 = t := by
  obtain ⟨-, hgenerate⟩ | ⟨-, _, -, hgenerate⟩ | ⟨-, p, hcompile, hgenerate⟩ := g.generate_cases t
  · rw [hgenerate]
  · rw [hgenerate]
  · rw [hgenerate] at h
    cases h.symm.trans hcompile

theorem generate_of_ok {p : Program} (h : (g.generate t).2.value = .ok p) :
    (g.generate t).1 = t.add (g.overrideFor t.typeName) ∧ (g.compile t).value = .ok p := by
  obtain ⟨-, hgenerate⟩ | ⟨-, _, hcompile, hgenerate⟩ | ⟨-, _, -, hgenerate⟩ := g.generate_cases t
  · rw [hgenerate] at h
    cases h
  · rw [hgenerate] at h
    cases h.symm.trans hcompile
  · rw [hgenerate] at h ⊢
    exact ⟨rfl, h⟩

/-- Nothing but a declared method of the contract's name keeps a type from its dispatcher. -/
theorem Fits.generate_error_iff (h : g.Fits t) :
    (∃ e, (g.generate t).2.value = .error e) ↔ t.Declares g.contract.name := by
  obtain ⟨p, hp, -⟩ := h.exists_program
  obtain ⟨hold, hgenerate⟩ | ⟨-, e, hcompile, -⟩ | ⟨hnew, -, -, hgenerate⟩ := g.generate_cases t
  · exact iff_of_true ⟨_, congrArg (·.2.value) hgenerate⟩ hold
  · cases hp.symm.trans hcompile
  · refine iff_of_false ?_ hnew
    rintro ⟨e, he⟩
    rw [hgenerate] at he
    cases he.symm.trans hp

/-- A framework that declares an installed method first accepts it. -/
theorem ofFramework_overrideFor (h : g.contract.contractFault = none)
    (hname : g.contract.name = dispatchMethodName) {typeName : String} {before after : List Method}
    (hcontracts : f.contracts = before ++ g.overrideFor typeName :: after)
    (hbefore : ∀ m ∈ before, m.name ≠ dispatchMethodName) :
    ofFramework f = .ok { contract := g.overrideFor typeName } := by
  refine ofFramework_eq_ok.mpr ⟨?_, contractFault_overrideFor h typeName, rfl⟩
  have hnone : before.find? (·.name == dispatchMethodName) = none :=
    List.find?_eq_none.mpr fun m hm => by simpa only [beq_iff_eq] using hbefore m hm
  rw [Framework.contract?, hcontracts, List.find?_append, hnone, Option.none_or,
    List.find?_cons_of_pos]
  exact beq_iff_eq.mpr hname

end Generator

/-- What may happen to a type and the generator that serves it. -/
inductive Change where
  | generate
  | configure (config : Config)
  | add (m : Method)

def Change.method? : Change → Option Method
  | .generate => none
  | .configure _ => none
  | .add m => some m

structure Session where
  generator : Generator
  table : MethodTable
  programs : List Program := []

namespace Session

def step (s : Session) : Change → Session
  | .generate =>
    let (table, generated) := s.generator.generate s.table
    match generated.value with
    | .ok p => { s with table, programs := s.programs ++ [p] }
    | .error _ => { s with table }
  | .configure config => { s with generator := { s.generator with config } }
  | .add m => { s with table := s.table.add m }

def run (s : Session) (changes : List Change) : Session := changes.foldl step s

/-- The states of a session on a type with the given methods, by the methods that were added since:
no program was generated, or one was when the type did not declare the contract's name. -/
inductive Reaches (contract : Method) (t : MethodTable) : List Method → Session → Prop
  | waiting (config : Config) (ms : List Method) :
    Reaches contract t ms ⟨⟨contract, config⟩, t.addAll ms, []⟩
  | installed (config config' : Config) (before after : List Method) {p : Program}
    (hnew : ¬ (t.addAll before).Declares contract.name)
    (hp : (Generator.compile ⟨contract, config⟩ (t.addAll before)).value = .ok p) :
    Reaches contract t (before ++ after)
      ⟨⟨contract, config'⟩, ((t.addAll before).add
        (Generator.overrideFor ⟨contract, config⟩ t.typeName)).addAll after, [p]⟩

variable {contract : Method} {t : MethodTable} {ms : List Method} {s : Session}

theorem Reaches.contract_eq (h : Reaches contract t ms s) : s.generator.contract = contract := by
  cases h <;> rfl

/-- The name of the contract is declared once a program was generated. -/
theorem Reaches.declares_iff (h : Reaches contract t ms s) :
    s.table.Declares contract.name ↔
      s.programs ≠ [] ∨ (t.addAll ms).Declares contract.name := by
  cases h with
  | waiting => simp
  | installed config config' before after hnew hp =>
    have hinstalled : (((t.addAll before).add
        (Generator.overrideFor ⟨contract, config⟩ t.typeName)).addAll after).Declares
          contract.name :=
      (MethodTable.declares_add.mpr (Or.inr ⟨rfl, rfl⟩)).addAll after
    exact iff_of_true hinstalled (Or.inl (List.cons_ne_nil _ _))

theorem Reaches.collect_eq (h : Reaches contract t ms s) :
    s.table.collect.value = (t.addAll ms).collect.value := by
  cases h with
  | waiting => rfl
  | installed config config' before after hnew hp =>
    rw [← MethodTable.addAll_addAll]
    refine MethodTable.collect_addAll_congr ?_ ?_ after
    · rfl
    · exact Generator.collect_add_overrideFor _ (t.addAll before) _

theorem Reaches.programs_le (h : Reaches contract t ms s) : s.programs.length ≤ 1 := by
  cases h with
  | waiting => exact Nat.zero_le 1
  | installed => exact Nat.le_refl 1

theorem Reaches.step (h : Reaches contract t ms s) (change : Change) :
    Reaches contract t (ms ++ change.method?.toList) (s.step change) := by
  have hdeclares := h.declares_iff
  cases change with
  | generate =>
    rw [Change.method?, Option.toList_none, List.append_nil]
    obtain ⟨-, hgenerate⟩ | ⟨-, e, hcompile, hgenerate⟩ | ⟨hnew, p, hcompile, hgenerate⟩ :=
      s.generator.generate_cases s.table
    · rw [Session.step, hgenerate]
      exact h
    · rw [Session.step, hgenerate]
      simp only [hcompile]
      exact h
    · rw [h.contract_eq] at hnew
      rw [Session.step, hgenerate]
      simp only [hcompile]
      cases h with
      | waiting config ms =>
        have hinstalled := Reaches.installed config config ms [] hnew hcompile
        rwa [List.append_nil, MethodTable.addAll_nil] at hinstalled
      | installed => exact absurd (hdeclares.mpr (Or.inl (List.cons_ne_nil _ _))) hnew
  | configure config =>
    rw [Change.method?, Option.toList_none, List.append_nil]
    cases h with
    | waiting _ ms => exact .waiting config ms
    | installed config' _ before after hnew hp =>
      exact .installed config' config before after hnew hp
  | add m =>
    rw [Change.method?, Option.toList_some]
    cases h with
    | waiting config ms =>
      rw [Session.step, MethodTable.add_addAll]
      exact .waiting config (ms ++ [m])
    | installed config config' before after hnew hp =>
      rw [Session.step, MethodTable.add_addAll _ after, List.append_assoc]
      exact .installed config config' before (after ++ [m]) hnew hp

theorem Reaches.run (h : Reaches contract t ms s) (changes : List Change) :
    Reaches contract t (ms ++ changes.filterMap Change.method?) (s.run changes) := by
  induction changes generalizing ms s with
  | nil =>
    rw [List.filterMap_nil, List.append_nil]
    exact h
  | cons change changes ih =>
    have hsplit : (change :: changes).filterMap Change.method? =
        change.method?.toList ++ changes.filterMap Change.method? := by
      cases hmethod : change.method? <;> simp [hmethod]
    rw [hsplit, ← List.append_assoc]
    exact ih (h.step change)

end Session

/-- A type gets at most one dispatcher. It is installed exactly if the type does not declare one,
after the methods that are there, and otherwise nothing changes; the program is that of the type
before and afterwards. In every session the hooks are those of the methods that were there or added,
and only a program or a method that the type declares itself stands in the way of installing. A
framework that is built from an installed method accepts it. -/
theorem installation {f : Framework} {base : Generator}
    (hf : Generator.ofFramework f = .ok base) :
    (∀ (config : Config) (t : MethodTable) (g : Generator), g = { base with config } →
      (t.Declares dispatchMethodName →
        g.generate t = (t, ⟨[], .error (.alreadyInstalled t.typeName)⟩)) ∧
      (g.Fits t → ((∃ e, (g.generate t).2.value = .error e) ↔ t.Declares dispatchMethodName)) ∧
      (∀ e, (g.generate t).2.value = .error e → (g.generate t).1 = t) ∧
      ∀ p, (g.generate t).2.value = .ok p →
        (g.generate t).1 = t.add (g.overrideFor t.typeName) ∧
        (g.compile t).value = .ok p ∧ (g.compile (g.generate t).1).value = .ok p) ∧
    (∀ (config : Config) (t : MethodTable) (changes : List Change) (s : Session),
      s = Session.run ⟨{ base with config }, t, []⟩ changes →
      s.programs.length ≤ 1 ∧ s.generator.contract = base.contract ∧
      (s.table.Declares dispatchMethodName ↔ s.programs ≠ [] ∨
        ∃ m ∈ t.methods ++ changes.filterMap Change.method?,
          m.owner = t.typeName ∧ m.name = dispatchMethodName) ∧
      s.table.collect.value = (t.addAll (changes.filterMap Change.method?)).collect.value ∧
      ∀ entry ∈ s.table.collect.value.entries, entry.2 ≠ base.overrideFor t.typeName) ∧
    ∀ (rebuilt : Framework) (before after : List Method) (typeName : String),
      rebuilt.contracts = before ++ base.overrideFor typeName :: after →
      (∀ m ∈ before, m.name ≠ dispatchMethodName) →
      Generator.ofFramework rebuilt = .ok { contract := base.overrideFor typeName } := by
  have hname := Generator.name_contract_of_ofFramework hf
  obtain ⟨-, haccepted, -⟩ := Generator.ofFramework_eq_ok.mp hf
  refine ⟨?_, ?_, ?_⟩
  · rintro config t g rfl
    rw [← hname]
    refine ⟨fun h => Generator.generate_of_declares h, fun h => h.generate_error_iff,
      fun e h => Generator.generate_of_error h, ?_⟩
    intro p hp
    obtain ⟨hinstalled, hbefore⟩ := Generator.generate_of_ok hp
    have hhooks := Generator.collect_add_overrideFor { base with config } t t.typeName
    have hsame := Generator.compile_congr (g := { base with config }) (t.typeName_add _) hhooks
    exact ⟨hinstalled, hbefore, hinstalled ▸ hsame.trans hbefore⟩
  · rintro config t changes s rfl
    have hstart : Session.Reaches base.contract t [] ⟨{ base with config }, t.addAll [], []⟩ :=
      .waiting config []
    rw [MethodTable.addAll_nil] at hstart
    have hreaches := hstart.run changes
    refine ⟨hreaches.programs_le, hreaches.contract_eq, hname ▸ hreaches.declares_iff,
      hreaches.collect_eq, ?_⟩
    intro entry hentry hoverride
    obtain ⟨hskip, -⟩ := MethodTable.admits_collect _ entry hentry
    rw [hoverride, Generator.skipReason_overrideFor] at hskip
    cases hskip
  · intro rebuilt before after typeName hcontracts hbefore
    exact Generator.ofFramework_overrideFor haccepted hname hcontracts hbefore

namespace Specimen

def inherited : Method := { Framework.standardContract with owner := "Base" }

end Specimen

/-- With the inherited contract in its table, the specimen gets a dispatcher, but no second one. -/
theorem installation_specimen :
    Generator.ofFramework Framework.standard = .ok (.standard {}) ∧
      ∃ g : Generator, g = .standard { collapse := false } ∧
        g.Fits (Specimen.table.add Specimen.inherited) ∧
        ∃ p, (g.generate (Specimen.table.add Specimen.inherited)).2.value = .ok p ∧
          (g.generate (g.generate (Specimen.table.add Specimen.inherited)).1).2.value =
            .error (.alreadyInstalled "T") ∧
          Generator.ofFramework ⟨"again", [Specimen.second, g.overrideFor "T"]⟩ =
            .ok ⟨g.overrideFor "T", {}⟩ := by
  obtain ⟨hgenerate, -, hrebuilt⟩ := installation Generator.ofFramework_standard
  have hfits : (Generator.standard { collapse := false }).Fits
      (Specimen.table.add Specimen.inherited) := by decide +kernel
  obtain ⟨-, hfails, -, hsucceeds⟩ :=
    hgenerate { collapse := false } (Specimen.table.add Specimen.inherited)
      (.standard { collapse := false }) rfl
  refine ⟨Generator.ofFramework_standard, _, rfl, hfits, ?_⟩
  cases hvalue : ((Generator.standard { collapse := false }).generate
      (Specimen.table.add Specimen.inherited)).2.value with
  | error e =>
    have hdeclares := (hfails hfits).mp ⟨e, hvalue⟩
    exact absurd hdeclares (by decide)
  | ok p =>
    obtain ⟨hinstalled, -, -⟩ := hsucceeds p hvalue
    obtain ⟨hrefused, -⟩ :=
      hgenerate { collapse := false } ((Generator.standard { collapse := false }).generate
        (Specimen.table.add Specimen.inherited)).1 (.standard { collapse := false }) rfl
    rw [hinstalled] at hrefused ⊢
    refine ⟨p, rfl, ?_, hrebuilt _ [Specimen.second] [] "T" rfl (by decide)⟩
    exact congrArg (·.2.value) (hrefused (by decide))

end HookDispatch
