import HookDispatch.Proofs.Machine.Effects
import HookDispatch.Proofs.Text.RoundTrip

/-!
Running the code of an edge group. From the first test of a group control climbs to the call of the
hook that the rest of the name leads to, or to the rejection if there is none, and does nothing but
tests on the way. What the tests cost is computed along the edges. Only a miss needs the label of
the rejection, so a hit is found in a program of any size.
-/
namespace HookDispatch

namespace Stats

def tested (st : Stats) (position : Nat) : Stats :=
  ⟨st.steps + 3, st.compares + 1, max st.inspected (position + 1)⟩

def moved (st : Stats) : Stats := { st with steps := st.steps + 2 }

def compared (st : Stats) (length keyLength : Nat) : Stats :=
  ⟨st.steps + 2, st.compares + 1,
    if length = keyLength then max st.inspected length else st.inspected⟩

end Stats

def Edges.effort (collapse : Bool) (length : Nat) : Nat → List UInt8 → Edges → Stats → Stats
  | depth, b :: tail, .cons _ byte terminal below rest, st =>
    if byte = b then
      match (if collapse && terminal.isNone then below.soleLeaf else none) with
      | some leaf => (st.tested depth).compared length (depth + 1 + leaf.suffix.length)
      | none =>
        if tail = [] then (st.tested depth).moved
        else below.effort collapse length (depth + 1) tail (st.tested depth).moved
    else rest.effort collapse length depth (b :: tail) (st.tested depth)
  | _, _, _, st => st

namespace Run

variable {σ : Type} {ops : Array Operation} {invokers : Array (Invoker σ)} {name : List UInt8}
  {done : List (Operation × Run σ)} {s s' : Run σ}

theorem climb_plain {op : Operation} (hopen : s.outcome = none) (hop : ops[s.pc]? = some op)
    (htarget : op.target = none) :
    Climb ops invokers name [(op, s)] s (exec invokers name s.tick op) :=
  .single hopen hop (by rw [pc_exec htarget]; exact Nat.lt_succ_self s.pc)

theorem climb_taken {c : Condition} {l : Label} (hopen : s.outcome = none)
    (hop : ops[s.pc]? = some (.branch c l)) (hholds : s.holds name c = true)
    (hup : s.pc < l.toNat) :
    Climb ops invokers name [(.branch c l, s)] s { s.tick with pc := l.toNat } := by
  have hexec : exec invokers name s.tick (.branch c l) = { s.tick with pc := l.toNat } :=
    if_pos hholds
  rw [← hexec]
  exact .single hopen hop (by rw [hexec]; exact hup)

theorem climb_passed {c : Condition} {l : Label} (hopen : s.outcome = none)
    (hop : ops[s.pc]? = some (.branch c l)) (hholds : s.holds name c = false) :
    Climb ops invokers name [(.branch c l, s)] s s.tick := by
  have hneg : ¬s.tick.holds name c = true := by
    rw [Bool.not_eq_true]
    exact hholds
  have hexec : exec invokers name s.tick (.branch c l) = s.tick := if_neg hneg
  have hup : s.pc < (exec invokers name s.tick (.branch c l)).pc := by
    rw [hexec]
    exact Nat.lt_succ_self s.pc
  have h := Climb.single hopen hop hup
  rwa [hexec] at h

def Scans (ops : Array Operation) (invokers : Array (Invoker σ)) (name : List UInt8)
    (s s' : Run σ) : Prop :=
  ∃ done, Climb ops invokers name done s s' ∧ ∀ e ∈ done, e.1.scans = true

theorem Scans.refl (s : Run σ) : Scans ops invokers name s s :=
  ⟨[], .refl s, fun _ h => absurd h List.not_mem_nil⟩

theorem Scans.trans {s'' : Run σ} (h : Scans ops invokers name s s')
    (h' : Scans ops invokers name s' s'') : Scans ops invokers name s s'' := by
  obtain ⟨done, hclimb, hscans⟩ := h
  obtain ⟨done', hclimb', hscans'⟩ := h'
  refine ⟨done ++ done', hclimb.trans hclimb', ?_⟩
  intro e hmem
  rcases List.mem_append.mp hmem with hmem | hmem
  · exact hscans e hmem
  · exact hscans' e hmem

theorem scans_single {op : Operation} (hop : op.scans = true)
    (h : Climb ops invokers name [(op, s)] s s') : Scans ops invokers name s s' :=
  ⟨_, h, fun e hmem => by rw [List.mem_singleton.mp hmem]; exact hop⟩

section Test
variable {place : JumpTarget → Label} {id : NodeId} {byte : UInt8} {group : Edges}

def compared (s : Run σ) (name : List UInt8) (byte : UInt8) : Run σ :=
  { s with
    pc := s.pc + 2
    loaded := name[s.position]?
    flag := name[s.position]? == some byte
    stats := ⟨s.stats.steps + 2, s.stats.compares + 1, max s.stats.inspected (s.position + 1)⟩ }

theorem scans_compared (hopen : s.outcome = none)
    (hlaid : Laid ops place s.pc (Edges.testItems id byte group)) :
    Scans ops invokers name s (s.compared name byte) := by
  obtain ⟨⟨hload, -⟩, ⟨hcompare, -⟩, -⟩ := hlaid
  refine .trans (scans_single rfl (climb_plain hopen hload rfl)) ?_
  exact scans_single rfl (climb_plain (s := exec invokers name s.tick .loadByte) hopen hcompare rfl)

def matched (s : Run σ) (byte : UInt8) : Run σ :=
  { s with
    pc := s.pc + 3, loaded := some byte, flag := true, stats := s.stats.tested s.position }

/-- A byte that agrees is passed. -/
theorem scans_matched (hopen : s.outcome = none)
    (hlaid : Laid ops place s.pc (Edges.testItems id byte group))
    (hbyte : name[s.position]? = some byte) :
    Scans ops invokers name s (s.matched byte) := by
  have hcompared : s.compared name byte =
      { s with
        pc := s.pc + 2
        loaded := some byte
        flag := true
        stats := ⟨s.stats.steps + 2, s.stats.compares + 1,
          max s.stats.inspected (s.position + 1)⟩ } := by
    rw [compared, hbyte, beq_self_eq_true]
  have h : Scans ops invokers name s (s.compared name byte) := scans_compared hopen hlaid
  rw [hcompared] at h
  exact h.trans (scans_single rfl (climb_passed hopen hlaid.2.2.1.1 rfl))

/-- A byte that does not agree is a reason to go on elsewhere. -/
theorem scans_mismatch (hopen : s.outcome = none)
    (hlaid : Laid ops place s.pc (Edges.testItems id byte group))
    (hbyte : name[s.position]? ≠ some byte)
    (hup : s.pc + 2 < (place (.orEpilogue group.first?)).toNat) :
    ∃ loaded, Scans ops invokers name s
      { s with
        pc := (place (.orEpilogue group.first?)).toNat
        loaded
        flag := false
        stats := s.stats.tested s.position } := by
  have hflag : (name[s.position]? == some byte) = false := by
    rw [beq_eq_false_iff_ne]
    exact hbyte
  have hcompared : s.compared name byte =
      { s with
        pc := s.pc + 2
        loaded := name[s.position]?
        flag := false
        stats := ⟨s.stats.steps + 2, s.stats.compares + 1,
          max s.stats.inspected (s.position + 1)⟩ } := by
    rw [compared, hflag]
  have h : Scans ops invokers name s (s.compared name byte) := scans_compared hopen hlaid
  rw [hcompared] at h
  exact ⟨_, h.trans (scans_single rfl (climb_taken hopen hlaid.2.2.1.1 rfl hup))⟩

end Test

section Leave
variable {place : JumpTarget → Label} {c : Condition} {t : JumpTarget}

/-- The cursor moves on, and no branch is taken. -/
theorem scans_onward (hopen : s.outcome = none)
    (hlaid : Laid ops place s.pc [.plain .advance, .jump c t])
    (hholds : { s with position := s.position + 1 }.holds name c = false) :
    Scans ops invokers name s
      { s with pc := s.pc + 2, position := s.position + 1, stats := s.stats.moved } := by
  obtain ⟨⟨hadvance, -⟩, ⟨hbranch, -⟩, -⟩ := hlaid
  refine .trans (scans_single rfl (climb_plain hopen hadvance rfl)) ?_
  exact scans_single rfl
    (climb_passed (s := exec invokers name s.tick .advance) hopen hbranch hholds)

/-- The cursor moves on, and a branch is taken. -/
theorem scans_away (hopen : s.outcome = none)
    (hlaid : Laid ops place s.pc [.plain .advance, .jump c t])
    (hholds : { s with position := s.position + 1 }.holds name c = true)
    (hup : s.pc + 1 < (place t).toNat) :
    Scans ops invokers name s
      { s with
        pc := (place t).toNat, position := s.position + 1, stats := s.stats.moved } := by
  obtain ⟨⟨hadvance, -⟩, ⟨hbranch, -⟩, -⟩ := hlaid
  refine .trans (scans_single rfl (climb_plain hopen hadvance rfl)) ?_
  exact scans_single rfl
    (climb_taken (s := exec invokers name s.tick .advance) hopen hbranch hholds hup)

end Leave

section Whole
variable {place : JumpTarget → Label} {key : String}

theorem utf8ByteSize_eq (s : String) : s.utf8ByteSize = (Text.bytes s).length := rfl

theorem exec_compareName (hlength : s.length = name.length) :
    exec invokers name s.tick (.compareName key) =
      { s with
        pc := s.pc + 1
        flag := name == Text.bytes key
        stats := ⟨s.stats.steps + 1, s.stats.compares + 1,
          if s.length = (Text.bytes key).length then max s.stats.inspected s.length
          else s.stats.inspected⟩ } := by
  rw [exec, compareName, utf8ByteSize_eq, ← hlength]
  split <;> rfl

/-- The whole name is the key. -/
theorem scans_same (hopen : s.outcome = none) (hlength : s.length = name.length)
    (hlaid : Laid ops place s.pc [.plain (.compareName key), .jump .different .epilogue])
    (hname : name = Text.bytes key) :
    Scans ops invokers name s
      { s with
        pc := s.pc + 2
        flag := true
        stats := s.stats.compared s.length (Text.bytes key).length } := by
  obtain ⟨⟨hcompare, -⟩, ⟨hbranch, -⟩, -⟩ := hlaid
  have h : Climb ops invokers name [(.compareName key, s)] s
      (exec invokers name s.tick (.compareName key)) := climb_plain hopen hcompare rfl
  rw [exec_compareName hlength, beq_iff_eq.mpr hname] at h
  exact .trans (scans_single rfl h) (scans_single rfl (climb_passed hopen hbranch rfl))

/-- The whole name is not the key. -/
theorem scans_different (hopen : s.outcome = none) (hlength : s.length = name.length)
    (hlaid : Laid ops place s.pc [.plain (.compareName key), .jump .different .epilogue])
    (hname : name ≠ Text.bytes key) (hup : s.pc + 1 < (place .epilogue).toNat) :
    Scans ops invokers name s
      { s with
        pc := (place .epilogue).toNat
        flag := false
        stats := s.stats.compared s.length (Text.bytes key).length } := by
  obtain ⟨⟨hcompare, -⟩, ⟨hbranch, -⟩, -⟩ := hlaid
  have h : Climb ops invokers name [(.compareName key, s)] s
      (exec invokers name s.tick (.compareName key)) := climb_plain hopen hcompare rfl
  rw [exec_compareName hlength, beq_eq_false_iff_ne.mpr hname] at h
  exact .trans (scans_single rfl h) (scans_single rfl (climb_taken hopen hbranch rfl hup))

end Whole

/-- A run is at the first test of a group, with the bytes of the name that are left. -/
structure AtGroup (name : List UInt8) (place : JumpTarget → Label) (path bytes : List UInt8)
    (edges : Edges) (s : Run σ) : Prop where
  running : s.outcome = none
  pc_eq : s.pc = (place (.orEpilogue edges.first?)).toNat
  length_eq : s.length = name.length
  position_eq : s.position = path.length
  name_eq : name = path ++ bytes

/-- Control is at the call of a hook, or at the rejection. -/
def Arrived (r : Registry) (ops : Array Operation) (place : JumpTarget → Label) (s : Run σ) :
    Option MethodId → Prop
  | some hook => ∃ key m, r.Calls hook key m ∧ Holds ops s.pc (m.callSequence hook)
  | none => s.pc = (place .epilogue).toNat

/-- The tests of a group lead to what the bytes lead to. -/
def Finds (r : Registry) (collapse : Bool) (ops : Array Operation) (invokers : Array (Invoker σ))
    (name : List UInt8) (place : JumpTarget → Label) (depth : Nat) (bytes : List UInt8)
    (edges : Edges) (s : Run σ) : Prop :=
  ∃ s', Scans ops invokers name s s' ∧
    s'.stats = edges.effort collapse name.length depth bytes s.stats ∧
      Arrived r ops place s' (edges.get? bytes)

/-- If the bytes lead to no hook, the rejection stands behind the items at a position. -/
def Clears (place : JumpTarget → Label) (bytes : List UInt8) (edges : Edges) (pos : Nat)
    (items : List Item) : Prop :=
  edges.get? bytes = none → pos + items.length ≤ (place .epilogue).toNat

section Group
variable {r : Registry} {collapse : Bool} {place : JumpTarget → Label} {path tail : List UInt8}
  {b : UInt8} {edges : Edges} {items : List Item}

theorem AtGroup.getElem?_position (hs : AtGroup name place path (b :: tail) edges s) :
    name[s.position]? = some b := by
  rw [hs.position_eq, hs.name_eq, List.getElem?_append_right (Nat.le_refl _), Nat.sub_self]
  rfl

theorem AtGroup.position_lt (hs : AtGroup name place path (b :: tail) edges s) (htail : tail ≠ []) :
    s.position + 1 < s.length := by
  have hpositive := List.length_pos_iff.mpr htail
  rw [hs.length_eq, hs.position_eq, hs.name_eq, List.length_append, List.length_cons]
  omega

theorem AtGroup.length_of_single (hs : AtGroup name place path [b] edges s) :
    s.length = s.position + 1 := by
  rw [hs.length_eq, hs.position_eq, hs.name_eq, List.length_append, List.length_singleton]

theorem spelled_below {id : NodeId} {byte : UInt8} {terminal : Option MethodId}
    {below rest : Edges}
    (h : ∀ q hook, (q, hook) ∈ (Edges.cons id byte terminal below rest).terminals →
      ∃ key, Text.bytes key = path ++ q) :
    ∀ q hook, (q, hook) ∈ below.terminals → ∃ key, Text.bytes key = path ++ [byte] ++ q := by
  intro q hook hmem
  rw [List.append_assoc]
  exact h (byte :: q) hook (Edges.mem_terminals_cons.mpr (Or.inr (Or.inl ⟨q, rfl, hmem⟩)))

theorem spelled_rest {id : NodeId} {byte : UInt8} {terminal : Option MethodId}
    {below rest : Edges}
    (h : ∀ q hook, (q, hook) ∈ (Edges.cons id byte terminal below rest).terminals →
      ∃ key, Text.bytes key = path ++ q) :
    ∀ q hook, (q, hook) ∈ rest.terminals → ∃ key, Text.bytes key = path ++ q :=
  fun q hook hmem => h q hook (Edges.mem_terminals_cons.mpr (Or.inr (Or.inr hmem)))

/-- A group is entered at its first test. -/
theorem place_first {pos : Nat} {next : NodeId} (hemitted : edges.Emitted r collapse path items)
    (hlaid : Laid ops place pos items) (hfirst : edges.first? = some next) :
    (place (.node next)).toNat = pos := by
  have hhead := hemitted.head?
  rw [hfirst] at hhead
  obtain ⟨more, rfl⟩ : ∃ more, items = .entry next :: more := by
    cases items with
    | nil => cases hhead
    | cons item more => exact ⟨more, by rw [Option.some.inj hhead]⟩
  exact hlaid.1.2 next rfl

section Clear
variable {id : NodeId} {byte : UInt8} {terminal : Option MethodId} {below rest : Edges}
  {front inside : List Item} {pos : Nat}

theorem Clears.among_rest (hbyte : byte ≠ b)
    (h : Clears place (b :: tail) (.cons id byte terminal below rest) pos
      (Edges.testItems id byte rest ++ inside ++ items)) :
    Clears place (b :: tail) rest (pos + (Edges.testItems id byte rest ++ inside).length)
      items := by
  intro hnone
  have hend := h ((Edges.get?_cons_rest hbyte).trans hnone)
  rwa [List.length_append, ← Nat.add_assoc] at hend

theorem Clears.among_below (htail : tail ≠ [])
    (h : Clears place (byte :: tail) (.cons id byte terminal below rest) pos
      (Edges.testItems id byte rest ++ (front ++ inside) ++ items)) :
    Clears place tail below (pos + 3 + front.length) inside := by
  intro hnone
  have hend := h ((Edges.get?_cons_below htail).trans hnone)
  have htest : (Edges.testItems id byte rest).length = 3 := rfl
  rw [List.length_append, List.length_append, List.length_append] at hend
  omega

/-- The rejection stands behind the two operations with which a search leaves the edge. -/
theorem Clears.past_leave {leave turn : Item}
    (h : Clears place (byte :: tail) (.cons id byte terminal below rest) pos
      (Edges.testItems id byte rest ++ ([leave, turn] ++ inside) ++ items))
    (hnone : (Edges.cons id byte terminal below rest).get? (byte :: tail) = none) :
    pos + 4 < (place .epilogue).toNat := by
  have hend := h hnone
  simp only [List.length_append, Edges.testItems, List.length_cons, List.length_nil] at hend
  omega

end Clear

/-- An edge is passed if its byte agrees; else the search goes on among the later siblings. -/
theorem finds_edge {id : NodeId} {byte : UInt8} {terminal : Option MethodId} {below rest : Edges}
    {inside : List Item} {pos : Nat}
    (hs : AtGroup name place path (b :: tail) (.cons id byte terminal below rest) s)
    (hlaid : Laid ops place pos (Edges.testItems id byte rest ++ inside ++ items))
    (hout : Clears place (b :: tail) (.cons id byte terminal below rest) pos
      (Edges.testItems id byte rest ++ inside ++ items))
    (hemitted : rest.Emitted r collapse path items)
    (hrest : ∀ s after, Laid ops place after items → Clears place (b :: tail) rest after items →
      AtGroup name place path (b :: tail) rest s →
      Finds r collapse ops invokers name place path.length (b :: tail) rest s)
    (hmatch : byte = b → s.pc = pos → Laid ops place (s.pc + 3) inside →
      Scans ops invokers name s (s.matched b) →
      Finds r collapse ops invokers name place path.length (b :: tail)
        (.cons id byte terminal below rest) s) :
    Finds r collapse ops invokers name place path.length (b :: tail)
      (.cons id byte terminal below rest) s := by
  rw [laid_append, laid_append] at hlaid
  obtain ⟨⟨htest, hinside⟩, hafter⟩ := hlaid
  obtain rfl : s.pc = pos := hs.pc_eq.trans (htest.1.2 id rfl)
  by_cases hbyte : byte = b
  · subst hbyte
    exact hmatch rfl rfl hinside (scans_matched hs.running htest hs.getElem?_position)
  have houtRest := hout.among_rest hbyte
  have hup : s.pc + 2 < (place (.orEpilogue rest.first?)).toNat := by
    have hbehind : s.pc + 2 < s.pc + (Edges.testItems id byte rest ++ inside).length := by
      rw [List.length_append, show (Edges.testItems id byte rest).length = 3 from rfl]
      omega
    cases hfirst : rest.first? with
    | none =>
      have hnil := Edges.eq_nil_of_first?_eq_none hfirst
      subst hnil
      have hend := houtRest (Edges.get?_nil _)
      rw [JumpTarget.orEpilogue]
      omega
    | some next =>
      rw [JumpTarget.orEpilogue, place_first hemitted hafter hfirst]
      exact hbehind
  have hmiss : name[s.position]? ≠ some byte := by
    rw [hs.getElem?_position]
    exact fun h => hbyte (Option.some.inj h).symm
  obtain ⟨loaded, hscan⟩ := scans_mismatch hs.running htest hmiss hup
  have hat : AtGroup name place path (b :: tail) rest
      { s with
        pc := (place (.orEpilogue rest.first?)).toNat
        loaded
        flag := false
        stats := s.stats.tested s.position } :=
    ⟨hs.running, rfl, hs.length_eq, hs.position_eq, hs.name_eq⟩
  obtain ⟨s', hscan', hstats, harrived⟩ := hrest _ _ hafter houtRest hat
  refine ⟨s', hscan.trans hscan', ?_, ?_⟩
  · rw [hstats, Edges.effort, if_neg hbyte, hs.position_eq]
  · rw [Edges.get?_cons_rest hbyte]
    exact harrived

/-- Below an edge whose byte agrees, the search goes on with the rest of the name. -/
theorem finds_below {id : NodeId} {byte : UInt8} {terminal : Option MethodId} {below rest : Edges}
    {pc : Nat} (hs : AtGroup name place path (byte :: tail) (.cons id byte terminal below rest) s)
    (hopen : (if collapse && terminal.isNone then below.soleLeaf else none) = none)
    (htail : tail ≠ []) (hpc : pc = (place (.orEpilogue below.first?)).toNat)
    (hscan : Scans ops invokers name s
      { s.matched byte with
        pc := pc, position := s.position + 1, stats := (s.stats.tested s.position).moved })
    (hbelow : ∀ s c tail', tail = c :: tail' → AtGroup name place (path ++ [byte]) tail below s →
      Finds r collapse ops invokers name place (path ++ [byte]).length tail below s) :
    Finds r collapse ops invokers name place path.length (byte :: tail)
      (.cons id byte terminal below rest) s := by
  obtain ⟨c, tail', htail'⟩ := List.exists_cons_of_ne_nil htail
  have hat : AtGroup name place (path ++ [byte]) tail below
      { s.matched byte with
        pc := pc, position := s.position + 1, stats := (s.stats.tested s.position).moved } := by
    refine ⟨hs.running, hpc, hs.length_eq, ?_, ?_⟩
    · rw [List.length_append, hs.position_eq]
      rfl
    · rw [hs.name_eq, List.append_assoc]
      rfl
  obtain ⟨s', hscan', hstats, harrived⟩ := hbelow _ c tail' htail' hat
  refine ⟨s', hscan.trans hscan', ?_, ?_⟩
  · rw [hstats, Edges.effort, if_pos rfl]
    simp only [hopen, if_neg htail, List.length_append, List.length_singleton, hs.position_eq]
  · rw [Edges.get?_cons_below htail]
    exact harrived

/-- A name that ends at a terminal is handed to its hook. -/
theorem finds_end {id : NodeId} {byte : UInt8} {hook : MethodId} {below rest : Edges}
    {t : JumpTarget} {key : Signature} {m : Method}
    (hs : AtGroup name place path [byte] (.cons id byte (some hook) below rest) s)
    (hleave : Laid ops place (s.pc + 3) [.plain .advance, .jump .remaining t])
    (hcalls : r.Calls hook key m) (hcall : Laid ops place (s.pc + 5) (m.callItems hook))
    (hscan : Scans ops invokers name s (s.matched byte)) :
    Finds r collapse ops invokers name place path.length [byte]
      (.cons id byte (some hook) below rest) s := by
  have hend := hs.length_of_single
  have hholds : { s.matched byte with position := (s.matched byte).position + 1 }.holds name
      .remaining = false :=
    decide_eq_false (show ¬s.position + 1 < s.length by omega)
  refine ⟨_, hscan.trans (scans_onward hs.running hleave hholds), ?_, ?_⟩
  · simp only [Edges.effort, if_true, Option.isNone_some, Bool.and_false, Bool.false_eq_true,
      if_false, ← hs.position_eq]
    rfl
  · rw [Edges.get?_cons_end]
    exact ⟨key, m, hcalls, holds_of_laid hcall⟩

/-- Past a terminal the search goes on below it. -/
theorem finds_past {id : NodeId} {byte : UInt8} {hook : MethodId} {below rest : Edges}
    (hs : AtGroup name place path (byte :: tail) (.cons id byte (some hook) below rest) s)
    (htail : tail ≠ [])
    (hleave : Laid ops place (s.pc + 3)
      [.plain .advance, .jump .remaining (.orEpilogue below.first?)])
    (hup : s.pc + 4 < (place (.orEpilogue below.first?)).toNat)
    (hscan : Scans ops invokers name s (s.matched byte))
    (hbelow : ∀ s c tail', tail = c :: tail' → AtGroup name place (path ++ [byte]) tail below s →
      Finds r collapse ops invokers name place (path ++ [byte]).length tail below s) :
    Finds r collapse ops invokers name place path.length (byte :: tail)
      (.cons id byte (some hook) below rest) s := by
  have hholds : { s.matched byte with position := (s.matched byte).position + 1 }.holds name
      .remaining = true :=
    decide_eq_true (show s.position + 1 < s.length from hs.position_lt htail)
  refine finds_below hs ?_ htail rfl (hscan.trans (scans_away hs.running hleave hholds hup)) hbelow
  rw [Option.isNone_some, Bool.and_false]
  rfl

/-- A name that ends where no hook ends is rejected. -/
theorem finds_stop {id : NodeId} {byte : UInt8} {below rest : Edges}
    (hs : AtGroup name place path [byte] (.cons id byte none below rest) s)
    (hopen : (if collapse && (none : Option MethodId).isNone then below.soleLeaf else none) = none)
    (hleave : Laid ops place (s.pc + 3) [.plain .advance, .jump .exhausted .epilogue])
    (hup : s.pc + 4 < (place .epilogue).toNat)
    (hscan : Scans ops invokers name s (s.matched byte)) :
    Finds r collapse ops invokers name place path.length [byte] (.cons id byte none below rest)
      s := by
  have hend := hs.length_of_single
  have hholds : { s.matched byte with position := (s.matched byte).position + 1 }.holds name
      .exhausted = true :=
    decide_eq_true (show s.length ≤ s.position + 1 by omega)
  refine ⟨_, hscan.trans (scans_away hs.running hleave hholds hup), ?_, ?_⟩
  · simp only [Edges.effort, if_true, hopen, ← hs.position_eq]
    rfl
  · rw [Edges.get?_cons_end]
    rfl

/-- Where no hook ends, a name that goes on is looked for below. -/
theorem finds_onward {id : NodeId} {byte : UInt8} {below rest : Edges}
    (hs : AtGroup name place path (byte :: tail) (.cons id byte none below rest) s)
    (hopen : (if collapse && (none : Option MethodId).isNone then below.soleLeaf else none) = none)
    (htail : tail ≠ [])
    (hleave : Laid ops place (s.pc + 3) [.plain .advance, .jump .exhausted .epilogue])
    (hpc : s.pc + 5 = (place (.orEpilogue below.first?)).toNat)
    (hscan : Scans ops invokers name s (s.matched byte))
    (hbelow : ∀ s c tail', tail = c :: tail' → AtGroup name place (path ++ [byte]) tail below s →
      Finds r collapse ops invokers name place (path ++ [byte]).length tail below s) :
    Finds r collapse ops invokers name place path.length (byte :: tail)
      (.cons id byte none below rest) s := by
  have hholds : { s.matched byte with position := (s.matched byte).position + 1 }.holds name
      .exhausted = false :=
    decide_eq_false (show ¬s.length ≤ s.position + 1 from Nat.not_le.mpr (hs.position_lt htail))
  exact finds_below hs hopen htail hpc (hscan.trans (scans_onward hs.running hleave hholds)) hbelow

/-- Where whole names are compared, only the key is found. -/
theorem finds_whole {id : NodeId} {byte : UInt8} {below rest : Edges} {leaf : Edges.Leaf}
    {text : String} {key : Signature} {m : Method}
    (hs : AtGroup name place path (byte :: tail) (.cons id byte none below rest) s)
    (hcollapse : collapse = true) (hleaf : below.soleLeaf = some leaf)
    (htext : Text.bytes text = path ++ [byte] ++ leaf.suffix)
    (hcompare : Laid ops place (s.pc + 3) [.plain (.compareName text), .jump .different .epilogue])
    (hcalls : r.Calls leaf.hook key m) (hcall : Laid ops place (s.pc + 5) (m.callItems leaf.hook))
    (hout : (Edges.cons id byte none below rest).get? (byte :: tail) = none →
      s.pc + 4 < (place .epilogue).toNat)
    (hscan : Scans ops invokers name s (s.matched byte)) :
    Finds r collapse ops invokers name place path.length (byte :: tail)
      (.cons id byte none below rest) s := by
  have hlength : (Text.bytes text).length = path.length + 1 + leaf.suffix.length := by
    rw [htext, List.length_append, List.length_append, List.length_singleton]
  have hsole : (if collapse && (none : Option MethodId).isNone then below.soleLeaf else none) =
      some leaf := by
    rw [hcollapse]
    exact hleaf
  have hfound : (Edges.cons id byte none below rest).get? (byte :: tail) =
      if tail = leaf.suffix then some leaf.hook else none := by
    by_cases htail : tail = []
    · rw [htail, Edges.get?_cons_end, if_neg (Edges.suffix_ne_nil_of_soleLeaf hleaf).symm]
    · rw [Edges.get?_cons_below htail, Edges.get?_of_soleLeaf hleaf]
  by_cases htail : tail = leaf.suffix
  · have hname : name = Text.bytes text := by
      rw [hs.name_eq, htext, htail, List.append_assoc]
      rfl
    refine ⟨_, hscan.trans (scans_same hs.running hs.length_eq hcompare hname), ?_, ?_⟩
    · simp only [Edges.effort, if_true, hsole, ← hs.position_eq, ← hs.length_eq, hlength]
      rfl
    · rw [hfound, if_pos htail]
      exact ⟨key, m, hcalls, holds_of_laid hcall⟩
  · rw [hfound, if_neg htail] at hout
    have hname : name ≠ Text.bytes text := by
      rw [hs.name_eq, htext, List.append_assoc]
      intro h
      exact htail (List.cons.inj (List.append_cancel_left h)).2
    refine ⟨_, hscan.trans (scans_different hs.running hs.length_eq hcompare hname (hout rfl)),
      ?_, ?_⟩
    · simp only [Edges.effort, if_true, hsole, ← hs.position_eq, ← hs.length_eq, hlength]
      rfl
    · rw [hfound, if_neg htail]
      rfl

/-- The code of a group finds the hook that the rest of the name leads to. -/
theorem finds_of_emitted (h : edges.Emitted r collapse path items)
    (hspelled : ∀ q hook, (q, hook) ∈ edges.terminals → ∃ key, Text.bytes key = path ++ q)
    {pos : Nat} (hlaid : Laid ops place pos items) (hout : Clears place (b :: tail) edges pos items)
    (hs : AtGroup name place path (b :: tail) edges s) :
    Finds r collapse ops invokers name place path.length (b :: tail) edges s := by
  -- The later siblings are the same in all cases; what is special is the code below the edge.
  induction h generalizing pos s b tail with
  | nil => exact ⟨s, .refl s, rfl, hs.pc_eq⟩
  | @collapsed path id byte below rest leaf key m items hcollapse hleaf hcalls hrest ih =>
    refine finds_edge hs hlaid hout hrest (fun s' after => ih (spelled_rest hspelled)) ?_
    rintro rfl rfl hinside hscan
    have hterminals := Edges.terminals_of_soleLeaf hleaf
    obtain ⟨text, htext⟩ := spelled_below hspelled leaf.suffix leaf.hook
      (by rw [hterminals]; exact List.mem_singleton_self _)
    rw [← htext, Text.showBytes_bytes, laid_append] at hinside
    exact finds_whole hs hcollapse hleaf htext hinside.1 hcalls hinside.2 hout.past_leave hscan
  | @leaf path id byte hook rest key m items hcalls hrest ih =>
    refine finds_edge hs hlaid hout hrest (fun s' after => ih (spelled_rest hspelled)) ?_
    rintro rfl rfl hinside hscan
    rw [laid_append] at hinside
    by_cases htail : tail = []
    · subst htail
      exact finds_end hs hinside.1 hcalls hinside.2 hscan
    have hup := hout.past_leave (by rw [Edges.get?_cons_below htail, Edges.get?_nil])
    refine finds_past hs htail hinside.1 hup hscan ?_
    rintro s' c tail' rfl hs'
    exact ⟨s', .refl s', rfl, hs'.pc_eq⟩
  | @inner path id first byte hook below rest key m inside items hfirst hcalls hbelow hrest ihBelow
      ihRest =>
    refine finds_edge hs hlaid hout hrest (fun s' after => ihRest (spelled_rest hspelled)) ?_
    rintro rfl rfl hinside hscan
    rw [laid_append, laid_append] at hinside
    obtain ⟨⟨hleave, hcall⟩, hinside⟩ := hinside
    by_cases htail : tail = []
    · subst htail
      exact finds_end hs hleave hcalls hcall hscan
    have hup : s.pc + 4 < (place (.node first)).toNat := by
      rw [place_first hbelow hinside hfirst, List.length_append]
      simp only [List.length_cons, List.length_nil]
      omega
    refine finds_past hs htail (by rw [hfirst]; exact hleave) (by rw [hfirst]; exact hup) hscan ?_
    rintro s' c tail' rfl hs'
    exact ihBelow (spelled_below hspelled) hinside (hout.among_below htail) hs'
  | @passing path id first byte below rest inside items hopen hfirst hbelow hrest ihBelow ihRest =>
    refine finds_edge hs hlaid hout hrest (fun s' after => ihRest (spelled_rest hspelled)) ?_
    rintro rfl rfl hinside hscan
    rw [laid_append] at hinside
    obtain ⟨hleave, hinside⟩ := hinside
    have hsole : (if collapse && (none : Option MethodId).isNone then below.soleLeaf else none) =
        none := by
      cases collapse with
      | false => rfl
      | true => exact hopen rfl
    by_cases htail : tail = []
    · subst htail
      exact finds_stop hs hsole hleave (hout.past_leave Edges.get?_cons_end) hscan
    have hpc : s.pc + 5 = (place (.orEpilogue below.first?)).toNat := by
      rw [hfirst, JumpTarget.orEpilogue, place_first hbelow hinside hfirst]
      rfl
    refine finds_onward hs hsole htail hleave hpc hscan ?_
    rintro s' c tail' rfl hs'
    exact ihBelow (spelled_below hspelled) hinside (hout.among_below htail) hs'

end Group

end Run

end HookDispatch
