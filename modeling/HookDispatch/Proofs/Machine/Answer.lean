import HookDispatch.Proofs.Machine.Scan
import HookDispatch.Proofs.Trie.Sound

/-!
A whole run of a compiled program. After the result is cleared the run only tests the name, until it
is at the call that the trie gives for the name or at the rejection; from there on it is a row of
operations without branches, which ends with a return.
-/
namespace HookDispatch

/-- The counters after all tests of a name. -/
def Trie.effort (t : Trie) (collapse : Bool) (name : List UInt8) (st : Stats) : Stats :=
  if name = [] then { st with steps := st.steps + 2 }
  else
    t.edges.effort collapse name.length 0 name
      { st with steps := st.steps + if t.edges.first?.isNone then 3 else 4 }

theorem Edges.effort_nil (collapse : Bool) (length depth : Nat) (bytes : List UInt8) (st : Stats) :
    nil.effort collapse length depth bytes st = st := by
  cases bytes <;> rfl

namespace Layout

variable {t : Trie} {r : Registry} {collapse : Bool} {p : Program}

variable {σ : Type} {s : Run σ}

def begun (s : Run σ) (name : List UInt8) : Run σ :=
  { s with
    pc := s.pc + 3
    length := name.length
    position := 0
    result := none
    stats := { s.stats with steps := s.stats.steps + 3 } }

theorem rejects (L : Layout t r collapse p) (h : s.pc = p.size - 2) :
    ∃ body, r.Answers none body ∧ Holds p.operations s.pc body :=
  ⟨rejection, .reject, h ▸ L.holds_rejection⟩

/-- If there is a name the cursor is put before it. -/
theorem begins (L : Layout t r collapse p) (invokers : Array (Invoker σ)) {name : List UInt8}
    (hpc : s.pc = 0) (hopen : s.outcome = none) (hname : name ≠ []) :
    Run.Scans p.operations invokers name (Run.exec invokers name s.tick .clearResult)
      (begun s name) := by
  have hlaid : Laid p.operations L.place s.pc (t.methodItems L.group) := hpc ▸ L.laid
  obtain ⟨-, ⟨hempty, -⟩, ⟨hinit, -⟩, -⟩ := hlaid
  have hfilled : name.isEmpty = false := by
    rw [List.isEmpty_eq_false_iff]
    exact hname
  refine .trans (Run.scans_single rfl (Run.climb_passed hopen hempty hfilled)) ?_
  exact Run.scans_single rfl (Run.climb_plain
    (s := (Run.exec invokers name s.tick .clearResult).tick) hopen hinit rfl)

/-- From the cursor before a name the tests of the edges lead to what answers it. -/
theorem arrives_group (L : Layout t r collapse p) (ht : t.Sound) (invokers : Array (Invoker σ))
    {name : List UInt8} (hpc : s.pc = 0) (hopen : s.outcome = none)
    (hsize : t.edges.get? name = none → p.size ≤ UInt32.size) (hname : name ≠ []) {first : NodeId}
    (hfirst : t.edges.first? = some first) :
    ∃ s', Run.Scans p.operations invokers name (begun s name) s' ∧
      s'.stats = t.edges.effort collapse name.length 0 name
        { s.stats with steps := s.stats.steps + 4 } ∧
      ∃ body, r.Answers (t.edges.get? name) body ∧ Holds p.operations s'.pc body := by
  have hlaid : Laid p.operations L.place s.pc (t.methodItems L.group) := hpc ▸ L.laid
  rw [Trie.methodItems, laid_append, laid_append, Trie.opening, laid_append, hfirst] at hlaid
  obtain ⟨⟨⟨-, ⟨hguard, -⟩, -⟩, hgroup⟩, -⟩ := hlaid
  obtain ⟨b, tail, rfl⟩ := List.exists_cons_of_ne_nil hname
  have hpassed : (begun s (b :: tail)).holds (b :: tail) .exhausted = false := rfl
  have hguarded : Run.Scans p.operations invokers (b :: tail) (begun s (b :: tail))
      (begun s (b :: tail)).tick := Run.scans_single rfl (Run.climb_passed hopen hguard hpassed)
  have hentry : (L.place (.node first)).toNat = s.pc + 4 :=
    Run.place_first L.emitted hgroup hfirst
  have hat : Run.AtGroup (b :: tail) L.place [] (b :: tail) t.edges (begun s (b :: tail)).tick := by
    refine ⟨hopen, ?_, rfl, rfl, rfl⟩
    rw [hfirst]
    exact hentry.symm
  have hout : t.edges.get? (b :: tail) = none →
      s.pc + 4 + L.group.length ≤ (L.place .epilogue).toNat := by
    intro hnone
    rw [L.toNat_epilogue (hsize hnone), L.size_eq, Trie.methodItems, Trie.opening, hfirst, hpc]
    simp only [Option.isNone_some, Bool.false_eq_true, if_false, List.length_append,
      List.length_cons, List.length_nil, List.length_map, rejection]
    omega
  have hfinds : Run.Finds r collapse p.operations invokers (b :: tail) L.place 0 (b :: tail)
      t.edges (begun s (b :: tail)).tick :=
    Run.finds_of_emitted L.emitted ht.spelled hgroup hout hat
  obtain ⟨s', hscans, hstats, harrived⟩ := hfinds
  refine ⟨s', hguarded.trans hscans, hstats, ?_⟩
  cases hfound : t.edges.get? (b :: tail) with
  | none =>
    rw [hfound] at harrived
    exact L.rejects (harrived.trans (L.toNat_epilogue (hsize hfound)))
  | some hook =>
    rw [hfound] at harrived
    obtain ⟨key, m, hcalls, hholds⟩ := harrived
    exact ⟨_, .call hcalls, hholds⟩

/-- From its start a run comes to the operations that answer the name. -/
theorem arrives (L : Layout t r collapse p) (ht : t.Sound) (invokers : Array (Invoker σ))
    (text : String) (hpc : s.pc = 0) (hopen : s.outcome = none)
    (hsize : t.get? text = none → p.size ≤ UInt32.size) :
    ∃ s', Run.Scans p.operations invokers (Text.bytes text)
        (Run.exec invokers (Text.bytes text) s.tick .clearResult) s' ∧
      s'.stats = t.effort collapse (Text.bytes text) s.stats ∧
      ∃ body, r.Answers (t.get? text) body ∧ Holds p.operations s'.pc body := by
  rw [Trie.get?_eq] at hsize ⊢
  rw [Trie.effort]
  by_cases hname : Text.bytes text = []
  · have hlaid : Laid p.operations L.place s.pc (t.methodItems L.group) := hpc ▸ L.laid
    obtain ⟨-, ⟨hempty, -⟩, -⟩ := hlaid
    have hout := L.toNat_epilogue (hsize (by rw [hname, Edges.get?_nil_path]))
    have hup : s.pc + 1 < (L.place .epilogue).toNat := by
      have hfive := L.five_le_size
      omega
    rw [if_pos hname, hname, Edges.get?_nil_path]
    exact ⟨_, Run.scans_single rfl (Run.climb_taken hopen hempty rfl hup), rfl, L.rejects hout⟩
  rw [if_neg hname]
  have hcursor := L.begins invokers hpc hopen hname
  cases hfirst : t.edges.first? with
  | none =>
    have hnil := Edges.eq_nil_of_first?_eq_none hfirst
    have hgroup : L.group = [] := by
      rw [← List.head?_eq_none_iff, L.emitted.head?, hfirst]
      rfl
    have hend : s.pc + 3 = p.size - 2 := by
      rw [L.size_eq, Trie.methodItems, hgroup, Trie.opening, hfirst, hpc]
      rfl
    rw [hnil, Edges.get?_nil, Edges.effort_nil]
    exact ⟨_, hcursor, rfl, L.rejects hend⟩
  | some first =>
    obtain ⟨s', hscans, hstats, hanswers⟩ :=
      L.arrives_group ht invokers hpc hopen hsize hname hfirst
    exact ⟨s', hcursor.trans hscans, hstats, hanswers⟩

end Layout

theorem Run.ended_straight {σ : Type} (invokers : Array (Invoker σ)) (name : List UInt8)
    (seg : List Operation) (s : Run σ) :
    (straight invokers name (seg ++ [.ret]) s).outcome.isSome := by
  rw [straight_append, straight]
  split
  · assumption
  · rfl

namespace Dispatcher

variable {σ : Type}

def trace (d : Dispatcher σ) (target : σ) (supply : Supply) (name : Option String)
    (result : Option Object) (args : Array Object) : List (Operation × Run σ) :=
  Run.trace d.program.operations d.invokers (Text.bytes (name.getD "")) (d.program.size + 1)
    (d.start target supply result args)

/-- A run only tests the name, and then does the operations that answer it. -/
theorem answered {t : Trie} {r : Registry} {collapse : Bool} (d : Dispatcher σ)
    (L : Layout t r collapse d.program) (ht : t.Sound) (target : σ) (supply : Supply)
    (name : Option String) (result : Option Object) (args : Array Object)
    (hsize : t.get? (name.getD "") = none → d.program.size ≤ UInt32.size) :
    ∃ tests s body, (∀ e ∈ tests, e.1.marshals = false) ∧
      s.effects = (d.start target supply none args).effects ∧
      s.stats = t.effort collapse (Text.bytes (name.getD "")) {} ∧
      r.Answers (t.get? (name.getD "")) body ∧ Holds d.program.operations s.pc body ∧
      d.call target supply name result args =
        Run.straight d.invokers (Text.bytes (name.getD "")) body s ∧
      d.trace target supply name result args =
        tests ++ Run.along d.invokers (Text.bytes (name.getD "")) body s := by
  obtain ⟨s, ⟨done, hclimb, hscans⟩, hstats, body, hanswers, hholds⟩ := L.arrives ht d.invokers
    (name.getD "") (s := d.start target supply result args) rfl rfl hsize
  obtain ⟨seg, hseg, -⟩ := hanswers.ends_once
  have hclear : d.program.operations[(d.start target supply result args).pc]? =
      some .clearResult := L.laid.1.1
  have hwhole := ((Run.climb_plain rfl hclear rfl).trans hclimb).trans
    (Run.climb_straight hanswers.target hholds)
  have hended : (Run.straight d.invokers (Text.bytes (name.getD "")) body s).outcome.isSome := by
    rw [hseg]
    exact Run.ended_straight _ _ seg s
  obtain ⟨hgo, htrace⟩ := hwhole.whole rfl hended
  refine ⟨_, s, body, ?_, ?_, hstats, hanswers, hholds, hgo, htrace⟩
  · intro e hmem
    rcases List.mem_append.mp hmem with hmem | hmem
    · rw [List.mem_singleton.mp hmem]
      rfl
    · exact Operation.marshals_of_scans (hscans e hmem)
  · exact hclimb.effects hscans

end Dispatcher

end HookDispatch
