import HookDispatch.Proofs.Program.Patching

/-!
The queue of pending jumps, whatever it holds. Its entries are taken in order, and an entry is bad
by what it names and by the entries before it, since these have given their branches a target. All
branches before the first bad entry are rewritten and nothing else is. So resolving succeeds exactly
if the queue names every pending branch once, and nothing else, with targets whose places are known.
-/
namespace HookDispatch

def JumpTarget.label? (firstOp : NodeId → Option Label) (epilogue : Label) :
    JumpTarget → Option Label
  | .node id => firstOp id
  | .epilogue => some epilogue

def PendingAt (ops : Array Operation) (i : Nat) : Prop :=
  ∃ c, ops[i]? = some (.branch c .pending)

namespace PendingJump

section Queue

variable (firstOp : NodeId → Option Label) (epilogue : Label) (ops : Array Operation)

structure Patchable (queue : List PendingJump) : Prop where
  distinct : (queue.map fun jump => jump.op.toNat).Nodup
  pending : ∀ jump ∈ queue, PendingAt ops jump.op.toNat
  placed : ∀ jump ∈ queue, ∃ l, jump.target.label? firstOp epilogue = some l

/-- What is wrong with an entry after the entries before it. Of several faults the first counts. -/
inductive Flaw (before : List PendingJump) (jump : PendingJump) : CompileError → Prop
  | unresolved {id : NodeId} (htarget : jump.target = .node id) (hplace : firstOp id = none) :
      Flaw before jump (.unresolvedJump jump.op.toNat id)
  | notABranch {l : Label} (hplace : jump.target.label? firstOp epilogue = some l)
      (hop : ∀ c l', ops[jump.op.toNat]? ≠ some (.branch c l')) :
      Flaw before jump (.notABranch jump.op.toNat)
  | alreadyResolved {l l' : Label} {c : Condition}
      (hplace : jump.target.label? firstOp epilogue = some l)
      (hop : ops[jump.op.toNat]? = some (.branch c l'))
      (htaken : l' ≠ .pending ∨ ∃ earlier ∈ before, earlier.op.toNat = jump.op.toNat) :
      Flaw before jump (.alreadyResolved jump.op.toNat)

/-- The branches of the queue, which were pending, have the labels of their targets, and nothing
else is changed. -/
structure Rewritten (queue : List PendingJump) (resolved : Array Operation) : Prop where
  size : resolved.size = ops.size
  queued : ∀ jump ∈ queue, ∃ c l, ops[jump.op.toNat]? = some (.branch c .pending) ∧
    jump.target.label? firstOp epilogue = some l ∧
    resolved[jump.op.toNat]? = some (.branch c l)
  others : ∀ i, (∀ jump ∈ queue, jump.op.toNat ≠ i) → resolved[i]? = ops[i]?

/-- How a queue is settled: all branches have their targets, an entry is bad, or a branch that was
not queued is left. -/
inductive Settled (queue : List PendingJump) (resolved : Array Operation) :
    Except CompileError Nat → Prop
  | done (hqueue : Patchable firstOp epilogue ops queue)
      (hrewritten : Rewritten firstOp epilogue ops queue resolved)
      (hnone : ∀ i, ¬ PendingAt resolved i) :
      Settled queue resolved (.ok queue.length)
  | stopped {before after : List PendingJump} {jump : PendingJump} {e : CompileError}
      (hsplit : queue = before ++ jump :: after)
      (hbefore : Patchable firstOp epilogue ops before)
      (hflaw : Flaw firstOp epilogue ops before jump e)
      (hrewritten : Rewritten firstOp epilogue ops before resolved) :
      Settled queue resolved (.error e)
  | dangling {i : Nat} (hqueue : Patchable firstOp epilogue ops queue)
      (hrewritten : Rewritten firstOp epilogue ops queue resolved)
      (hleft : PendingAt resolved i) (hleast : ∀ j < i, ¬ PendingAt resolved j) :
      Settled queue resolved (.error (.danglingBranch i))

end Queue

variable {firstOp : NodeId → Option Label} {epilogue l : Label} {c : Condition}
  {ops cur resolved : Array Operation} {jump : PendingJump} {before queue : List PendingJump}
  {e : CompileError}

section Patch

theorem destination_of_placed (hplace : jump.target.label? firstOp epilogue = some l) :
    jump.destination firstOp epilogue = .ok l := by
  unfold destination
  cases htarget : jump.target with
  | epilogue =>
    rw [htarget] at hplace
    cases hplace
    rfl
  | node id =>
    rw [htarget] at hplace
    have hfirst : firstOp id = some l := hplace
    simp only [hfirst]

theorem obstacle_of_pending (hop : PendingAt cur jump.op.toNat) : jump.obstacle cur = none := by
  obtain ⟨c, hop⟩ := hop
  unfold obstacle
  rw [hop]
  rfl

/-- An entry that nothing is wrong with has its branch rewritten. -/
theorem patch_of_pending (hplace : jump.target.label? firstOp epilogue = some l)
    (hop : PendingAt cur jump.op.toNat) :
    jump.patch firstOp epilogue cur =
      .ok (cur.modify jump.op.toNat (Operation.withTarget l)) := by
  unfold patch
  rw [destination_of_placed hplace]
  simp only [obstacle_of_pending hop]

theorem patch_of_obstacle (hplace : jump.target.label? firstOp epilogue = some l)
    (h : jump.obstacle cur = some e) : jump.patch firstOp epilogue cur = .error e := by
  unfold patch
  rw [destination_of_placed hplace]
  simp only [h]

theorem obstacle_of_no_branch (hop : ∀ c l, cur[jump.op.toNat]? ≠ some (.branch c l)) :
    jump.obstacle cur = some (.notABranch jump.op.toNat) := by
  unfold obstacle
  cases hfound : cur[jump.op.toNat]? with
  | none => rfl
  | some op =>
    cases op with
    | branch c l => exact absurd hfound (hop c l)
    | _ => rfl

theorem obstacle_of_resolved (hop : cur[jump.op.toNat]? = some (.branch c l))
    (hl : l ≠ .pending) : jump.obstacle cur = some (.alreadyResolved jump.op.toNat) := by
  have htaken : l.isPending = false := beq_eq_false_iff_ne.mpr hl
  unfold obstacle
  rw [hop]
  simp only [Option.bind_some, Operation.target, htaken, Bool.false_eq_true, if_false]

end Patch

section Rewritten

theorem Rewritten.nil : Rewritten firstOp epilogue ops [] ops where
  size := rfl
  queued := by simp
  others := fun _ _ => rfl

/-- What stands at a queued index was a branch, and is one. -/
theorem Rewritten.branch_iff (h : Rewritten firstOp epilogue ops queue cur) (i : Nat) :
    (∃ c l, cur[i]? = some (.branch c l)) ↔ ∃ c l, ops[i]? = some (.branch c l) := by
  by_cases hqueued : ∃ jump ∈ queue, jump.op.toNat = i
  · obtain ⟨jump, hjump, rfl⟩ := hqueued
    obtain ⟨c, l, hop, -, hcur⟩ := h.queued jump hjump
    exact iff_of_true ⟨c, l, hcur⟩ ⟨c, .pending, hop⟩
  · rw [h.others i (by simpa using hqueued)]

/-- Pending branches that are not queued stay, and no queued one does. -/
theorem Rewritten.pendingAt_iff (h : Rewritten firstOp epilogue ops queue cur)
    (hlabels : ∀ target l, JumpTarget.label? firstOp epilogue target = some l → l ≠ .pending)
    (i : Nat) :
    PendingAt cur i ↔ PendingAt ops i ∧ ∀ jump ∈ queue, jump.op.toNat ≠ i := by
  by_cases hqueued : ∃ jump ∈ queue, jump.op.toNat = i
  · obtain ⟨jump, hjump, rfl⟩ := hqueued
    obtain ⟨c, l, -, hplace, hcur⟩ := h.queued jump hjump
    constructor
    · rintro ⟨c', hpending⟩
      rw [hcur] at hpending
      cases hpending
      exact absurd rfl (hlabels _ _ hplace)
    · rintro ⟨-, hnone⟩
      exact absurd rfl (hnone jump hjump)
  · have hnone : ∀ jump ∈ queue, jump.op.toNat ≠ i := by simpa using hqueued
    unfold PendingAt
    rw [h.others i hnone]
    exact (and_iff_left hnone).symm

/-- One more entry is rewritten. -/
theorem Rewritten.concat (h : Rewritten firstOp epilogue ops before cur)
    (hplace : jump.target.label? firstOp epilogue = some l)
    (hop : PendingAt ops jump.op.toNat) (hfresh : ∀ j ∈ before, j.op.toNat ≠ jump.op.toNat) :
    Rewritten firstOp epilogue ops (before ++ [jump])
      (cur.modify jump.op.toNat (Operation.withTarget l)) := by
  obtain ⟨c, hop⟩ := hop
  have hcur : cur[jump.op.toNat]? = some (.branch c .pending) := by
    rw [h.others _ hfresh, hop]
  constructor
  · rw [Array.size_modify, h.size]
  · intro j hj
    rcases List.mem_append.mp hj with hold | hnew
    · obtain ⟨c', l', hop', hplace', hcur'⟩ := h.queued j hold
      refine ⟨c', l', hop', hplace', ?_⟩
      rw [Array.getElem?_modify, if_neg (hfresh j hold).symm, hcur']
    · rw [List.mem_singleton.mp hnew]
      refine ⟨c, l, hop, hplace, ?_⟩
      rw [Array.getElem?_modify, if_pos rfl, hcur]
      rfl
  · intro i hi
    have hne : jump.op.toNat ≠ i := hi jump (by simp)
    rw [Array.getElem?_modify, if_neg hne]
    exact h.others i fun j hj => hi j (List.mem_append_left _ hj)

end Rewritten

section Patchable

theorem Patchable.nil : Patchable firstOp epilogue ops [] := ⟨by simp, by simp, by simp⟩

theorem Patchable.of_append {after : List PendingJump}
    (h : Patchable firstOp epilogue ops (before ++ after)) :
    Patchable firstOp epilogue ops before where
  distinct := by
    have hdistinct := h.distinct
    rw [List.map_append] at hdistinct
    exact hdistinct.of_append_left
  pending jump hjump := h.pending jump (List.mem_append_left _ hjump)
  placed jump hjump := h.placed jump (List.mem_append_left _ hjump)

theorem patchable_concat : Patchable firstOp epilogue ops (before ++ [jump]) ↔
    Patchable firstOp epilogue ops before ∧ PendingAt ops jump.op.toNat ∧
      (∃ l, jump.target.label? firstOp epilogue = some l) ∧
      ∀ j ∈ before, j.op.toNat ≠ jump.op.toNat := by
  constructor
  · intro h
    refine ⟨h.of_append, h.pending jump (by simp), h.placed jump (by simp), ?_⟩
    intro j hj heq
    have hdistinct := h.distinct
    rw [List.map_append, List.nodup_append] at hdistinct
    exact hdistinct.2.2 _ (List.mem_map_of_mem hj) _ (by simp) heq
  · rintro ⟨hbefore, hpending, hplaced, hfresh⟩
    constructor
    · rw [List.map_append, List.nodup_append]
      refine ⟨hbefore.distinct, by simp, ?_⟩
      intro i hi i' hi' heq
      obtain ⟨j, hj, rfl⟩ := List.mem_map.mp hi
      exact hfresh j hj (heq.trans (by simpa using hi'))
    · intro j hj
      rcases List.mem_append.mp hj with hold | hnew
      · exact hbefore.pending j hold
      · rwa [List.mem_singleton.mp hnew]
    · intro j hj
      rcases List.mem_append.mp hj with hold | hnew
      · exact hbefore.placed j hold
      · rwa [List.mem_singleton.mp hnew]

/-- An entry extends a queue without bad entries, or it is bad. -/
theorem patchable_or_flaw (hbefore : Patchable firstOp epilogue ops before)
    (jump : PendingJump) :
    Patchable firstOp epilogue ops (before ++ [jump]) ∨
      ∃ e, Flaw firstOp epilogue ops before jump e := by
  cases hplace : jump.target.label? firstOp epilogue with
  | none =>
    cases htarget : jump.target with
    | epilogue =>
      rw [htarget] at hplace
      cases hplace
    | node id =>
      rw [htarget] at hplace
      exact Or.inr ⟨_, .unresolved htarget hplace⟩
  | some l =>
    by_cases hbranch : ∃ c l', ops[jump.op.toNat]? = some (.branch c l')
    · obtain ⟨c, l', hop⟩ := hbranch
      by_cases htaken : l' ≠ .pending ∨ ∃ earlier ∈ before, earlier.op.toNat = jump.op.toNat
      · exact Or.inr ⟨_, .alreadyResolved hplace hop htaken⟩
      · obtain ⟨hpending, hfresh⟩ := not_or.mp htaken
        rw [not_ne_iff.mp hpending] at hop
        exact Or.inl (patchable_concat.mpr
          ⟨hbefore, ⟨c, hop⟩, ⟨l, hplace⟩, by simpa using hfresh⟩)
    · exact Or.inr ⟨_, .notABranch hplace (by simpa using hbranch)⟩

/-- Not both. -/
theorem Patchable.not_flaw (h : Patchable firstOp epilogue ops (before ++ [jump])) :
    ¬ Flaw firstOp epilogue ops before jump e := by
  obtain ⟨-, ⟨c, hop⟩, ⟨l, hplace⟩, hfresh⟩ := patchable_concat.mp h
  intro hflaw
  cases hflaw with
  | unresolved htarget hfirst =>
    rw [htarget] at hplace
    cases hfirst.symm.trans hplace
  | notABranch _ hno => exact hno _ _ hop
  | alreadyResolved _ hop' htaken =>
    rw [hop] at hop'
    cases hop'
    rcases htaken with hne | ⟨earlier, hearlier, heq⟩
    · exact hne rfl
    · exact hfresh earlier hearlier heq

end Patchable

section Run

variable (hlabels : ∀ target l, JumpTarget.label? firstOp epilogue target = some l → l ≠ .pending)
include hlabels

/-- A bad entry is found where the entries before it are rewritten already. -/
theorem patch_of_flaw (hcur : Rewritten firstOp epilogue ops before cur)
    (h : Flaw firstOp epilogue ops before jump e) :
    jump.patch firstOp epilogue cur = .error e := by
  cases h with
  | unresolved htarget hplace =>
    unfold patch destination
    simp only [htarget, hplace]
  | notABranch hplace hno =>
    apply patch_of_obstacle hplace
    apply obstacle_of_no_branch
    intro c l hop
    obtain ⟨c', l', hop'⟩ := (hcur.branch_iff _).mp ⟨c, l, hop⟩
    exact hno c' l' hop'
  | alreadyResolved hplace hop htaken =>
    obtain ⟨c, l, hbranch⟩ := (hcur.branch_iff _).mpr ⟨_, _, hop⟩
    apply patch_of_obstacle hplace
    apply obstacle_of_resolved hbranch
    rintro rfl
    obtain ⟨⟨c', hpending⟩, hfresh⟩ := (hcur.pendingAt_iff hlabels _).mp ⟨c, hbranch⟩
    rw [hop] at hpending
    cases hpending
    rcases htaken with hne | ⟨earlier, hearlier, heq⟩
    · exact hne rfl
    · exact hfresh earlier hearlier heq

/-- A good entry is rewritten behind the entries before it. -/
theorem exists_patch (hcur : Rewritten firstOp epilogue ops before cur)
    (h : Patchable firstOp epilogue ops (before ++ [jump])) :
    ∃ next, jump.patch firstOp epilogue cur = .ok next ∧
      Rewritten firstOp epilogue ops (before ++ [jump]) next := by
  obtain ⟨-, hop, ⟨l, hplace⟩, hfresh⟩ := patchable_concat.mp h
  have hpending : PendingAt cur jump.op.toNat := (hcur.pendingAt_iff hlabels _).mpr ⟨hop, hfresh⟩
  exact ⟨_, patch_of_pending hplace hpending, hcur.concat hplace hop hfresh⟩

/-- The entries are patched up to the first bad one. -/
theorem patchAll_cases (hbefore : Patchable firstOp epilogue ops before)
    (hcur : Rewritten firstOp epilogue ops before cur) (queue : List PendingJump) :
    (∃ resolved, patchAll firstOp epilogue queue cur = (resolved, none) ∧
      Patchable firstOp epilogue ops (before ++ queue) ∧
      Rewritten firstOp epilogue ops (before ++ queue) resolved) ∨
    ∃ resolved e done jump after, patchAll firstOp epilogue queue cur = (resolved, some e) ∧
      queue = done ++ jump :: after ∧ Patchable firstOp epilogue ops (before ++ done) ∧
      Flaw firstOp epilogue ops (before ++ done) jump e ∧
      Rewritten firstOp epilogue ops (before ++ done) resolved := by
  induction queue generalizing before cur with
  | nil => exact Or.inl ⟨cur, rfl, by simpa using hbefore, by simpa using hcur⟩
  | cons jump queue ih =>
    rcases patchable_or_flaw hbefore jump with hjump | ⟨e, hflaw⟩
    · obtain ⟨next, hpatch, hnext⟩ := exists_patch hlabels hcur hjump
      rw [patchAll_cons hpatch]
      rcases ih hjump hnext with ⟨resolved, hall, hqueue, hrewritten⟩ |
        ⟨resolved, e, done, bad, after, hall, rfl, hdone, hflaw, hrewritten⟩
      · rw [List.append_assoc] at hqueue hrewritten
        exact Or.inl ⟨resolved, hall, hqueue, hrewritten⟩
      · rw [List.append_assoc] at hdone hflaw hrewritten
        exact Or.inr ⟨resolved, e, jump :: done, bad, after, hall, rfl, hdone, hflaw, hrewritten⟩
    · refine Or.inr ⟨cur, e, [], jump, queue, ?_, rfl, ?_, ?_, ?_⟩
      · rw [patchAll, patch_of_flaw hlabels hcur hflaw]
      · simpa using hbefore
      · simpa using hflaw
      · simpa using hcur

end Run

section Left

theorem isPendingBranch_iff {op : Operation} :
    op.isPendingBranch = true ↔ ∃ c, op = .branch c .pending := by
  cases op with
  | branch c l => simp [Operation.isPendingBranch, Operation.target, Label.isPending]
  | _ => simp [Operation.isPendingBranch, Operation.target]

theorem not_pendingAt_of_findIdx? (h : resolved.findIdx? Operation.isPendingBranch = none)
    (i : Nat) : ¬ PendingAt resolved i := by
  rintro ⟨c, hop⟩
  have hfree := Array.findIdx?_eq_none_iff.mp h _ (Array.mem_of_getElem? hop)
  rw [isPendingBranch_iff.mpr ⟨c, rfl⟩] at hfree
  cases hfree

theorem pendingAt_of_findIdx? {i : Nat}
    (h : resolved.findIdx? Operation.isPendingBranch = some i) :
    PendingAt resolved i ∧ ∀ j < i, ¬ PendingAt resolved j := by
  obtain ⟨hi, hop, hbefore⟩ := Array.findIdx?_eq_some_iff_getElem.mp h
  constructor
  · obtain ⟨c, hop⟩ := isPendingBranch_iff.mp hop
    exact ⟨c, by rw [Array.getElem?_eq_getElem hi, hop]⟩
  · rintro j hj ⟨c, hpending⟩
    obtain ⟨hlt, hop⟩ := Array.getElem?_eq_some_iff.mp hpending
    exact hbefore j hj (isPendingBranch_iff.mpr ⟨c, hop⟩)

end Left

section Settled

theorem patchable_iff : Patchable firstOp epilogue ops queue ↔
    (queue.map fun jump => jump.op.toNat).Nodup ∧
      (∀ jump ∈ queue, PendingAt ops jump.op.toNat) ∧
      ∀ jump ∈ queue, ∀ id, jump.target = .node id → (firstOp id).isSome := by
  have hplaced : ∀ target : JumpTarget, (∃ l, target.label? firstOp epilogue = some l) ↔
      ∀ id, target = .node id → (firstOp id).isSome := by
    intro target
    cases target with
    | node id => simp [JumpTarget.label?, Option.isSome_iff_exists]
    | epilogue => simp [JumpTarget.label?]
  constructor
  · intro h
    exact ⟨h.distinct, h.pending, fun jump hjump => (hplaced jump.target).mp (h.placed jump hjump)⟩
  · rintro ⟨hdistinct, hpending, hplaces⟩
    exact ⟨hdistinct, hpending, fun jump hjump => (hplaced jump.target).mpr (hplaces jump hjump)⟩

variable (hlabels : ∀ target l, JumpTarget.label? firstOp epilogue target = some l → l ≠ .pending)
include hlabels

theorem settled_resolveJumps (queue : List PendingJump) (ops : Array Operation) :
    ∃ resolved answer, resolveJumps queue firstOp epilogue ops = (resolved, answer) ∧
      Settled firstOp epilogue ops queue resolved answer := by
  unfold resolveJumps
  rcases patchAll_cases hlabels .nil .nil queue with ⟨resolved, hall, hqueue, hrewritten⟩ |
    ⟨resolved, e, done, jump, after, hall, hsplit, hdone, hflaw, hrewritten⟩
  · rw [hall]
    cases hfind : resolved.findIdx? Operation.isPendingBranch with
    | none =>
      refine ⟨resolved, .ok queue.length, by simp only [hfind], ?_⟩
      exact .done hqueue hrewritten (not_pendingAt_of_findIdx? hfind)
    | some i =>
      obtain ⟨hleft, hleast⟩ := pendingAt_of_findIdx? hfind
      refine ⟨resolved, .error (.danglingBranch i), by simp only [hfind], ?_⟩
      exact .dangling hqueue hrewritten hleft hleast
  · rw [hall]
    exact ⟨resolved, .error e, rfl, .stopped hsplit hdone hflaw hrewritten⟩

theorem Settled.eq_ok_iff {answer : Except CompileError Nat}
    (h : Settled firstOp epilogue ops queue resolved answer) :
    answer = .ok queue.length ↔ Patchable firstOp epilogue ops queue ∧
      ∀ i, PendingAt ops i → ∃ jump ∈ queue, jump.op.toNat = i := by
  cases h with
  | done hqueue hrewritten hnone =>
    refine iff_of_true rfl ⟨hqueue, ?_⟩
    intro i hpending
    by_contra hqueued
    apply hnone i
    exact (hrewritten.pendingAt_iff hlabels i).mpr ⟨hpending, by simpa using hqueued⟩
  | stopped hsplit _ hflaw _ =>
    refine iff_of_false (by simp) ?_
    rintro ⟨hqueue, -⟩
    rw [hsplit, List.append_cons] at hqueue
    exact hqueue.of_append.not_flaw hflaw
  | dangling hqueue hrewritten hleft _ =>
    refine iff_of_false (by simp) ?_
    rintro ⟨-, hall⟩
    obtain ⟨hpending, hfree⟩ := (hrewritten.pendingAt_iff hlabels _).mp hleft
    obtain ⟨jump, hjump, heq⟩ := hall _ hpending
    exact hfree jump hjump heq

end Settled

/-- Any queue is settled in one of three ways. It is done exactly if its indices are distinct, each
is that of a pending branch, all nodes have places and no pending branch is left out. -/
theorem queue_settled {t : Trie} {epilogue : Label} (hepilogue : epilogue ≠ .pending)
    (hmarks : ∀ id l, t.firstOp? id = some l → l ≠ .pending) (queue : List PendingJump)
    (ops : Array Operation) :
    ∃ resolved answer, resolveJumps queue t.firstOp? epilogue ops = (resolved, answer) ∧
      Settled t.firstOp? epilogue ops queue resolved answer ∧
      (answer = .ok queue.length ↔
        ((queue.map fun jump => jump.op.toNat).Nodup ∧
          (∀ jump ∈ queue, PendingAt ops jump.op.toNat) ∧
          ∀ jump ∈ queue, ∀ id, jump.target = .node id → (t.firstOp? id).isSome) ∧
        ∀ i, PendingAt ops i → ∃ jump ∈ queue, jump.op.toNat = i) := by
  have hlabels : ∀ target l, JumpTarget.label? t.firstOp? epilogue target = some l →
      l ≠ .pending := by
    intro target l hplace
    cases target with
    | node id => exact hmarks id l hplace
    | epilogue =>
      cases hplace
      exact hepilogue
  obtain ⟨resolved, answer, hresolve, hsettled⟩ := settled_resolveJumps hlabels queue ops
  refine ⟨resolved, answer, hresolve, hsettled, ?_⟩
  rw [hsettled.eq_ok_iff hlabels, patchable_iff]

end PendingJump

namespace Specimen

def unpatched : Array Operation :=
  #[.branch .different .pending, .branch .exhausted .pending, .loadByte, .setHandled false, .ret]

def queue : List PendingJump := [⟨⟨0⟩, .node 1⟩, ⟨⟨1⟩, .epilogue⟩]

def marked : Trie := Trie.empty.mark [(1, ⟨2⟩)]

theorem firstOp?_marked {id : NodeId} {l : Label} (h : marked.firstOp? id = some l) :
    id = 1 ∧ l = ⟨2⟩ := by
  obtain ⟨entry, hfind, rfl⟩ := Option.map_eq_some_iff.mp h
  obtain rfl : entry = (1, ⟨2⟩) := List.mem_singleton.mp (List.mem_of_find?_eq_some hfind)
  have hid : (1 : NodeId) = id := by simpa using List.find?_some hfind
  exact ⟨hid.symm, rfl⟩

theorem eq_of_pendingAt_unpatched {i : Nat} (h : PendingAt unpatched i) : i = 0 ∨ i = 1 := by
  obtain ⟨c, hop⟩ := h
  obtain ⟨hlt, hop⟩ := Array.getElem?_eq_some_iff.mp hop
  match i, hlt with
  | 0, _ => exact Or.inl rfl
  | 1, _ => exact Or.inr rfl
  | 2, _ | 3, _ | 4, _ => cases hop

end Specimen

open Specimen in
/-- The queue is done. Queued twice, it is not. -/
theorem queue_settled_specimen :
    (⟨3⟩ : Label) ≠ .pending ∧ (∀ id l, marked.firstOp? id = some l → l ≠ .pending) ∧
      (resolveJumps queue marked.firstOp? ⟨3⟩ unpatched).2 = .ok 2 ∧
      (resolveJumps (queue ++ queue) marked.firstOp? ⟨3⟩ unpatched).2 ≠ .ok 4 := by
  have hepilogue : (⟨3⟩ : Label) ≠ .pending := by decide
  have hmarks : ∀ id l, marked.firstOp? id = some l → l ≠ .pending := by
    intro id l hfirst
    rw [(firstOp?_marked hfirst).2]
    decide
  obtain ⟨resolved, answer, hresolve, -, hdone⟩ :=
    PendingJump.queue_settled hepilogue hmarks queue unpatched
  obtain ⟨resolved', answer', hresolve', -, hdone'⟩ :=
    PendingJump.queue_settled hepilogue hmarks (queue ++ queue) unpatched
  refine ⟨hepilogue, hmarks, ?_, ?_⟩
  · rw [hresolve]
    refine hdone.mpr ⟨⟨by decide, ?_, ?_⟩, ?_⟩
    · intro jump hjump
      rcases List.mem_pair.mp hjump with rfl | rfl
      · exact ⟨.different, rfl⟩
      · exact ⟨.exhausted, rfl⟩
    · intro jump hjump id htarget
      rcases List.mem_pair.mp hjump with rfl | rfl
      · cases htarget
        rfl
      · cases htarget
    · intro i hpending
      rcases eq_of_pendingAt_unpatched hpending with rfl | rfl
      · exact ⟨_, List.mem_cons_self, rfl⟩
      · exact ⟨_, List.mem_cons_of_mem _ List.mem_cons_self, rfl⟩
  · rw [hresolve']
    intro hok
    obtain ⟨⟨hdistinct, -⟩, -⟩ := hdone'.mp hok
    revert hdistinct
    decide

end HookDispatch
