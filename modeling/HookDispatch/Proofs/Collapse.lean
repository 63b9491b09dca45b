import HookDispatch.Proofs.Dispatch
import HookDispatch.Proofs.Program.Temporaries
import HookDispatch.Proofs.Specimen

/-!
Comparing whole names where only one is left. With and without this shortcut a program finds the
same hook for a name and then does the same operations in a state with the same effects; with it
the program is not longer and a run does not take more steps.
-/
namespace HookDispatch

namespace Edges

variable {length : Nat} {edges : Edges}

theorem steps_le_effort (collapse : Bool) (depth : Nat) (bytes : List UInt8) (edges : Edges)
    (st : Stats) : st.steps ≤ (edges.effort collapse length depth bytes st).steps := by
  induction edges generalizing depth bytes st with
  | nil => rw [effort_nil]
  | cons id byte terminal below rest ihBelow ihRest =>
    cases bytes with
    | nil => exact Nat.le_refl _
    | cons b tail =>
      have htested : st.steps ≤ (st.tested depth).steps := Nat.le_add_right _ _
      rw [effort]
      split
      · split
        · exact Nat.le_trans htested (Nat.le_add_right _ _)
        · have hmoved : (st.tested depth).steps ≤ (st.tested depth).moved.steps :=
            Nat.le_add_right _ _
          split
          · exact Nat.le_trans htested hmoved
          · exact Nat.le_trans htested (Nat.le_trans hmoved (ihBelow _ _ _))
      · exact Nat.le_trans htested (ihRest _ _ _)

/-- The tests with the shortcut are not more than those without it. -/
theorem steps_effort_le (depth : Nat) (bytes : List UInt8) (edges : Edges) {st st' : Stats}
    (h : st.steps ≤ st'.steps) :
    (edges.effort true length depth bytes st).steps ≤
      (edges.effort false length depth bytes st').steps := by
  induction edges generalizing depth bytes st st' with
  | nil => rwa [effort_nil, effort_nil]
  | cons id byte terminal below rest ihBelow ihRest =>
    cases bytes with
    | nil => exact h
    | cons b tail =>
      have htested : (st.tested depth).steps ≤ (st'.tested depth).steps := Nat.add_le_add_right h 3
      have hmoved : (st.tested depth).moved.steps ≤ (st'.tested depth).moved.steps :=
        Nat.add_le_add_right htested 2
      rw [effort, effort]
      by_cases hbyte : byte = b
      · rw [if_pos hbyte, if_pos hbyte]
        simp only [Bool.true_and, Bool.false_and, Bool.false_eq_true, if_false]
        split
        · refine Nat.le_trans hmoved ?_
          split
          · exact Nat.le_refl _
          · exact steps_le_effort false _ _ _ _
        · split
          · exact hmoved
          · exact ihBelow _ _ hmoved
      · rw [if_neg hbyte, if_neg hbyte]
        exact ihRest _ _ htested

theorem length_emitCall_le {r : Registry} (path : List UInt8) {leaf : Leaf}
    (h : edges.soleLeaf = some leaf) :
    (r.emitCall leaf.hook).length ≤ (edges.emit r false path).length := by
  induction edges generalizing path leaf with
  | nil => cases h
  | cons id byte terminal below rest ihBelow ihRest =>
    rw [emit_cons, List.length_append, List.length_append]
    unfold emitInside
    obtain ⟨rfl, ⟨hook, rfl, rfl, rfl⟩ | ⟨rfl, inner, hinner, rfl⟩⟩ := soleLeaf_cons h
    · simp only [Bool.false_and, Bool.false_eq_true, if_false, first?, List.length_append]
      omega
    · have hbelow := ihBelow (path ++ [byte]) hinner
      cases hfirst : below.first? with
      | none =>
        rw [eq_nil_of_first?_eq_none hfirst] at hinner
        cases hinner
      | some first =>
        simp only [Bool.false_and, Bool.false_eq_true, if_false, List.length_append]
        omega

/-- The code with the shortcut is not longer than the code without it. -/
theorem length_emit_le (r : Registry) (path : List UInt8) (edges : Edges) :
    (edges.emit r true path).length ≤ (edges.emit r false path).length := by
  induction edges generalizing path with
  | nil => exact Nat.le_refl _
  | cons id byte terminal below rest ihBelow ihRest =>
    have hinside : (below.emitInside r true (path ++ [byte]) id terminal).length ≤
        (below.emitInside r false (path ++ [byte]) id terminal).length := by
      have hbelow := ihBelow (path ++ [byte])
      unfold emitInside
      simp only [Bool.true_and, Bool.false_and, Bool.false_eq_true, if_false]
      split
      · rename_i leaf hleaf
        split at hleaf
        · rename_i hterminal
          rw [Option.isNone_iff_eq_none] at hterminal
          have hcall := length_emitCall_le (r := r) (path ++ [byte]) hleaf
          cases hfirst : below.first? with
          | none =>
            rw [eq_nil_of_first?_eq_none hfirst] at hleaf
            cases hleaf
          | some first =>
            rw [hterminal]
            simp only [List.length_append, Emission.ofItems, List.length_map, List.length_cons,
              List.length_nil]
            omega
        · cases hleaf
      · cases terminal with
        | none =>
          cases below.first? <;> simp only [List.length_append] <;> omega
        | some hook =>
          cases below.first? <;> simp only [List.length_append] <;> omega
    have hrest := ihRest path
    rw [emit_cons, emit_cons]
    simp only [List.length_append]
    omega

end Edges

theorem Trie.length_emit_le (t : Trie) (r : Registry) :
    (t.emit r true).length ≤ (t.emit r false).length := by
  have hgroup := t.edges.length_emit_le r []
  rw [emit, emit]
  simp only [List.length_append]
  split
  · exact Nat.le_refl _
  · simp only [List.length_append]
    omega

theorem Trie.steps_effort_le (t : Trie) (name : List UInt8) (st : Stats) :
    (t.effort true name st).steps ≤ (t.effort false name st).steps := by
  rw [effort, effort]
  split
  · exact Nat.le_refl _
  · exact Edges.steps_effort_le _ _ _ (Nat.le_refl _)

/-- The operations that answer a name are determined by its hook. -/
theorem Registry.Answers.unique {r : Registry} {found : Option MethodId}
    {body body' : List Operation} (h : r.Answers found body) (h' : r.Answers found body') :
    body = body' := by
  cases h with
  | call hcalls =>
    cases h' with
    | call hcalls' =>
      cases hcalls.get?_eq.symm.trans hcalls'.get?_eq
      rfl
  | reject =>
    cases h'
    rfl

/-- Two runs that cannot be told apart from outside. -/
structure Run.Agree {σ : Type} (s s' : Run σ) : Prop where
  answer_eq : s.answer = s'.answer
  result_eq : s.result = s'.result
  args_eq : s.args = s'.args
  target_eq : s.target = s'.target
  supply_eq : s.supply = s'.supply

theorem Run.agree_of_effects {σ : Type} {s s' : Run σ} (h : s.effects = s'.effects) :
    s.Agree s' where
  answer_eq := by rw [answer, answer, outcome_eq h]
  result_eq := result_eq h
  args_eq := args_eq h
  target_eq := target_eq h
  supply_eq := supply_eq h

/-- The steps of operations in a row are added to those before. -/
theorem Run.steps_straight {σ : Type} {ops : Array Operation} {invokers : Array (Invoker σ)}
    {name : List UInt8} {s : Run σ} {seg : List Operation} (hseg : ∀ op ∈ seg, op.target = none)
    (hops : Holds ops s.pc seg) :
    (straight invokers name seg s).stats.steps =
      s.stats.steps + (along invokers name seg s).length :=
  (climb_straight hseg hops).steps

/-- Comparing whole names is a mere shortcut. Programs with it and without it bind the same invokers
or refuse for the same reason; their runs agree, and with the shortcut neither the program nor a run
is longer. A program so large that its rejection has no label of its own is left out for names
without a hook. -/
theorem collapse_refines {r : Registry} {withAliases : Bool} {t : Trie} (typeName : String)
    (hbuilt : Trie.ofRegistry r withAliases = .ok t)
    (hgeneric : ∀ entry ∈ r.entries, entry.2.ret.isGeneric = false) :
    ((t.emit r false).length ≤ UInt32.size →
      (∃ p, (t.compile r true typeName).2.value = .ok p) ∧
        ∃ p, (t.compile r false typeName).2.value = .ok p) ∧
    ∀ p q, (t.compile r true typeName).2.value = .ok p →
      (t.compile r false typeName).2.value = .ok q →
      p.size ≤ q.size ∧ ∀ (σ : Type) (table : HookTable σ),
        (Dispatcher.ofProgram p table).map Dispatcher.invokers =
          (Dispatcher.ofProgram q table).map Dispatcher.invokers ∧
        ∀ c u, Dispatcher.ofProgram p table = .ok c → Dispatcher.ofProgram q table = .ok u →
          ∀ target supply name result args,
            (t.get? (name.getD "") = none → q.size ≤ UInt32.size) →
            (c.call target supply name result args).Agree
                (u.call target supply name result args) ∧
              (c.call target supply name result args).stats.steps ≤
                (u.call target supply name result args).stats.steps := by
  have hsound := (Trie.reachable_ofRegistry hbuilt).sound
  have hlength := t.length_emit_le r
  constructor
  · intro hsize
    have hcount := Nat.le_trans (Trie.size_le_emit hbuilt false) hsize
    have hhooks := Trie.callable_ofRegistry hbuilt hcount hgeneric
    obtain ⟨p, hp, -⟩ := Trie.compile_ok hsound hhooks true typeName (by omega)
    obtain ⟨q, hq, -⟩ := Trie.compile_ok hsound hhooks false typeName hsize
    exact ⟨⟨p, hp⟩, q, hq⟩
  intro p q hp hq
  have hsizes : p.size ≤ q.size := by
    rw [Trie.size_of_compile hp, Trie.size_of_compile hq]
    exact hlength
  obtain ⟨L⟩ := Trie.exists_layout hsound hp
  obtain ⟨M⟩ := Trie.exists_layout hsound hq
  refine ⟨hsizes, fun σ table => ⟨?_, ?_⟩⟩
  · rw [Dispatcher.ofProgram, Dispatcher.ofProgram, L.hooks, M.hooks]
    cases Dispatcher.bindAll table (r.entries.map Prod.fst) <;> rfl
  intro c u hc hu target supply name result args hsize
  obtain ⟨rfl, hinvokersC⟩ := Dispatcher.ofProgram_eq_ok hc
  obtain ⟨rfl, hinvokersU⟩ := Dispatcher.ofProgram_eq_ok hu
  have hinvokers : c.invokers = u.invokers := by
    refine Array.ext_getElem? fun i => ?_
    rw [hinvokersC, hinvokersU, L.hooks, M.hooks]
  have hstart : c.start target supply none args = u.start target supply none args := by
    rw [Dispatcher.start, Dispatcher.start, L.temps_eq, M.temps_eq]
  obtain ⟨-, s, body, -, heffects, hstats, hanswers, hholds, hcall, -⟩ :=
    c.answered L hsound target supply name result args fun hnone =>
      Nat.le_trans hsizes (hsize hnone)
  obtain ⟨-, s', body', -, heffects', hstats', hanswers', hholds', hcall', -⟩ :=
    u.answered M hsound target supply name result args hsize
  obtain rfl := hanswers.unique hanswers'
  have hsame : s.effects = s'.effects := by rw [heffects, heffects', hstart]
  rw [hcall, hcall', hinvokers]
  refine ⟨Run.agree_of_effects (Run.effects_straight body hsame), ?_⟩
  rw [Run.steps_straight hanswers.target hholds, Run.steps_straight hanswers.target hholds',
    Run.length_along body hsame, hstats, hstats']
  exact Nat.add_le_add_right (t.steps_effort_le _ _) _

/-- With the shortcut the long key of the second hook is found in fewer steps, or as many. -/
theorem collapse_specimen :
    ∃ p q c u, (Specimen.trie.compile Specimen.registry true "T").2.value = .ok p ∧
      (Specimen.trie.compile Specimen.registry false "T").2.value = .ok q ∧
      Dispatcher.ofProgram p (.ofBindings Specimen.bindings) = .ok c ∧
      Dispatcher.ofProgram q (.ofBindings Specimen.bindings) = .ok u ∧
      (c.call 0 0 (some "ab(i32)") none #[⟨9, .unit⟩]).Agree
          (u.call 0 0 (some "ab(i32)") none #[⟨9, .unit⟩]) ∧
        (c.call 0 0 (some "ab(i32)") none #[⟨9, .unit⟩]).stats.steps ≤
          (u.call 0 0 (some "ab(i32)") none #[⟨9, .unit⟩]).stats.steps := by
  obtain ⟨p, c, hp, hc⟩ := Specimen.exists_dispatcher true
  obtain ⟨q, u, hq, hu⟩ := Specimen.exists_dispatcher false
  obtain ⟨-, hrefines⟩ := collapse_refines "T" Specimen.trie_eq (by decide)
  obtain ⟨-, hruns⟩ := (hrefines p q hp hq).2 Nat (.ofBindings Specimen.bindings)
  refine ⟨p, q, c, u, hp, hq, hc, hu, hruns c u hc hu 0 0 _ none _ fun hnone => ?_⟩
  have hfound : Specimen.trie.get? "ab(i32)" = some ⟨1⟩ := by decide
  cases hfound.symm.trans hnone

end HookDispatch
