import HookDispatch.Expansion.Basic
import HookDispatch.Proofs.CallOrder
import HookDispatch.Proofs.DispatchLoop.Calling
import HookDispatch.Proofs.Installation

/-!
What the loop of an expanded block unboxes and calls. Every statement but the steps to the next
block stands for an operation of the program, and every operation that reads an argument or calls
is part of the call of a collected hook. So arguments are unboxed to the storage types of the
parameters of hooks, and only hooks are called.
-/
namespace HookDispatch

def Operation.unboxed? : Operation → Option TypeName
  | unboxArg _ type | unboxTemp _ type _ => some type
  | _ => none

/-- Arguments are unpacked to the storage types of the parameters. -/
theorem Method.exists_param_of_unpackFrom {index temp : Nat} {ps : List Parameter} {op : Operation}
    {type : TypeName} (h : op ∈ unpackFrom index temp ps) (hop : op.unboxed? = some type) :
    ∃ p ∈ ps, p.storage = type := by
  induction ps generalizing index temp with
  | nil => cases h
  | cons p ps ih =>
    rw [unpackFrom] at h
    split at h
    · rcases List.mem_cons.mp h with rfl | h
      · exact ⟨p, List.mem_cons_self, Option.some.inj hop⟩
      rcases List.mem_cons.mp h with rfl | h
      · cases hop
      · obtain ⟨q, hq, hstorage⟩ := ih h
        exact ⟨q, List.mem_cons_of_mem p hq, hstorage⟩
    · rcases List.mem_cons.mp h with rfl | h
      · exact ⟨p, List.mem_cons_self, Option.some.inj hop⟩
      · obtain ⟨q, hq, hstorage⟩ := ih h
        exact ⟨q, List.mem_cons_of_mem p hq, hstorage⟩

theorem Method.exists_param_of_callSequence {m : Method} {hook : MethodId} {op : Operation}
    {type : TypeName} (h : op ∈ m.callSequence hook) (hop : op.unboxed? = some type) :
    ∃ p ∈ m.params, p.storage = type := by
  simp only [callSequence, List.mem_append, List.mem_cons, List.not_mem_nil, or_false] at h
  rcases h with (((h | rfl) | h) | h) | rfl | rfl
  · exact exists_param_of_unpackFrom h hop
  · cases hop
  · obtain ⟨_, _, rfl⟩ := mem_storeReturn h
    cases hop
  · obtain ⟨_, _, _, rfl⟩ := mem_writeBackFrom h
    cases hop
  · cases hop
  · cases hop

namespace Layout

variable {t : Trie} {r : Registry} {collapse : Bool} {p : Program} {op : Operation}

/-- A program handles arguments and results in calls of the registry's hooks only. -/
theorem exists_call (L : Layout t r collapse p) (hop : op ∈ p.operations.toList)
    (hmarshals : op.marshals = true) :
    ∃ hook key m, r.Calls hook key m ∧ op ∈ m.callSequence hook := by
  obtain ⟨pos, hpos⟩ := List.mem_iff_getElem?.mp hop
  rw [Array.getElem?_toList] at hpos
  obtain ⟨hook, key, m, -, -, i, hcalls, -, -, hop'⟩ := L.exists_call_at hpos hmarshals
  exact ⟨hook, key, m, hcalls, List.mem_of_getElem? hop'⟩

end Layout

namespace DispatchLoop

theorem exists_of_map_eq_ok {ε α β : Type} {f : α → β} {x : Except ε α} {y : β}
    (h : x.map f = .ok y) : ∃ a, x = .ok a ∧ f a = y := by
  cases x with
  | error e => cases h
  | ok a => exact ⟨a, rfl, Except.ok.inj h⟩

def Stmt.read? : Stmt → Option Read
  | bindValue _ read | bindTemp _ read => some read
  | _ => none

variable {p : Program} {ids : Identifiers} {start next : Nat} {s s' : Operands} {op : Operation}
  {stmt : Stmt} {stmts : List Stmt} {arm : Arm} {loop : DispatchLoop}

/-- The statement is one of those for the operation. -/
def StandsFor (p : Program) (ids : Identifiers) (op : Operation) (stmt : Stmt) : Prop :=
  ∃ next s stmts s', lowerOperation p ids next s op = .ok (stmts, s') ∧ stmt ∈ stmts

theorem exists_operation_of_mem {ops : List Operation}
    (h : lowerOperations p ids next s ops = .ok stmts) (hstmt : stmt ∈ stmts) :
    ∃ op ∈ ops, StandsFor p ids op stmt := by
  induction ops generalizing s stmts with
  | nil =>
    cases h
    cases hstmt
  | cons op rest ih =>
    obtain ⟨head, s', tail, hhead, htail, rfl⟩ := lowerOperations_cons h
    rcases List.mem_append.mp hstmt with hstmt | hstmt
    · exact ⟨op, List.mem_cons_self, next, s, head, s', hhead, hstmt⟩
    · obtain ⟨op', hop', hstands⟩ := ih htail hstmt
      exact ⟨op', List.mem_cons_of_mem op hop', hstands⟩

theorem exists_lowerBlock_of_mem {starts : List Nat} {arms : List Arm}
    (h : lowerBlocks p ids starts = .ok arms) (harm : arm ∈ arms) :
    ∃ start next, lowerBlock p ids start next = .ok arm := by
  induction starts generalizing arms with
  | nil =>
    cases h
    cases harm
  | cons first starts ih =>
    rw [lowerBlocks] at h
    split at h
    · cases h
    · next arm' harm' =>
      obtain ⟨others, htail, rfl⟩ := exists_of_map_eq_ok h
      rcases List.mem_cons.mp harm with rfl | harm
      · exact ⟨first, _, harm'⟩
      · exact ih htail harm

/-- The statements of a loop stand for operations, or go to the next block. -/
theorem exists_operation (h : ofProgram p ids = .ok loop) (harm : arm ∈ loop.arms)
    (hstmt : stmt ∈ arm.body) :
    (∃ n, stmt = .goto n) ∨ ∃ op ∈ p.operations.toList, StandsFor p ids op stmt := by
  obtain ⟨start, next, hblock⟩ := exists_lowerBlock_of_mem (ofProgram_eq_ok h) harm
  obtain ⟨-, body, hbody, heq⟩ := lowerBlock_eq_ok hblock
  rw [heq, List.mem_append] at hstmt
  rcases hstmt with hstmt | hstmt
  · obtain ⟨op, hop, hstands⟩ := exists_operation_of_mem hbody hstmt
    exact Or.inr ⟨op, List.mem_of_mem_drop (List.mem_of_mem_take hop), hstands⟩
  · rw [onward] at hstmt
    split at hstmt
    · cases hstmt
    · exact Or.inl ⟨next, List.mem_singleton.mp hstmt⟩

/-- A statement reads an argument for an operation that unboxes it, calls for one that calls, or
does neither. -/
theorem StandsFor.cases (h : StandsFor p ids op stmt) :
    (∃ index type read, op.unboxed? = some type ∧ Read.ofType index type = .ok read ∧
      stmt.read? = some read) ∨
    (∃ hook actuals, op = .call hook ∧ callStmt p ids hook actuals = .ok stmt) ∨
    (stmt.read? = none ∧ ∀ ident actuals keeps, stmt ≠ .call ident actuals keeps) := by
  obtain ⟨next, s, stmts, s', hlower, hstmt⟩ := h
  cases op with
  | unboxArg index type | unboxTemp index type temp =>
    obtain ⟨read, hread, heq⟩ := exists_of_map_eq_ok hlower
    obtain ⟨rfl, -⟩ := Prod.mk.inj heq
    rw [List.mem_singleton.mp hstmt]
    exact Or.inl ⟨index, type, read, rfl, hread, rfl⟩
  | call hook =>
    obtain ⟨stmt', hcall, heq⟩ := exists_of_map_eq_ok hlower
    obtain ⟨rfl, -⟩ := Prod.mk.inj heq
    rw [List.mem_singleton.mp hstmt]
    exact Or.inr (Or.inl ⟨hook, s.actuals, rfl, hcall⟩)
  | pushTemp | setHandled =>
    cases hlower
    cases hstmt
  | _ =>
    cases hlower
    rw [List.mem_singleton.mp hstmt]
    exact Or.inr (Or.inr ⟨rfl, fun _ _ _ => Stmt.noConfusion⟩)

/-- A call is one of a hook of the program, by the identifier of its name. -/
theorem exists_hook_of_callStmt {hook : MethodId} {actuals : List Actual}
    (h : callStmt p ids hook actuals = .ok stmt) :
    ∃ entry ident, p.hook? hook = some entry ∧ ids.lookup entry.2.name = some ident ∧
      stmt = .call ident actuals (!entry.2.ret.isVoid) := by
  cases hhook : p.hook? hook with
  | none =>
    rw [callStmt, hhook] at h
    cases h
  | some entry =>
    obtain ⟨ident, hident, rfl⟩ := callStmt_eq_ok hhook h
    exact ⟨entry, ident, rfl, hident, rfl⟩

/-- What is read at a type is unboxed to it. -/
theorem type_of_ofType {index index' : Nat} {type type' : TypeName} {written : Source.TypeExpr}
    (h : Read.ofType index type = .ok (.typed index' type' written)) : type' = type := by
  rw [Read.ofType] at h
  split_ifs at h
  · cases h
  · split at h
    · cases h
      rfl
    · cases h

variable {t : Trie} {r : Registry} {collapse : Bool}

/-- A loop unboxes arguments to the storage types of the parameters of hooks. -/
theorem exists_param_of_read (L : Layout t r collapse p) (h : ofProgram p ids = .ok loop)
    (harm : arm ∈ loop.arms) (hstmt : stmt ∈ arm.body) {index : Nat} {type : TypeName}
    {written : Source.TypeExpr} (hread : stmt.read? = some (.typed index type written)) :
    ∃ entry ∈ r.entries, ∃ param ∈ entry.2.params, param.storage = type := by
  obtain ⟨n, rfl⟩ | ⟨op, hop, hstands⟩ := exists_operation h harm hstmt
  · cases hread
  obtain ⟨index', type', read, hunboxed, htype, hread'⟩ | ⟨hook, actuals, -, hcall⟩ | ⟨hnone, -⟩ :=
    hstands.cases
  · obtain rfl := Option.some.inj (hread'.symm.trans hread)
    obtain rfl := type_of_ofType htype
    have hmarshals : op.marshals = true := by cases op <;> first | rfl | cases hunboxed
    obtain ⟨hook, key, m, hcalls, hmem⟩ := L.exists_call hop hmarshals
    exact ⟨(key, m), List.mem_of_getElem? hcalls.get?_eq,
      Method.exists_param_of_callSequence hmem hunboxed⟩
  · obtain ⟨entry, ident, -, -, rfl⟩ := exists_hook_of_callStmt hcall
    cases hread
  · cases hnone.symm.trans hread

/-- A loop calls the methods of hooks. -/
theorem exists_entry_of_call (L : Layout t r collapse p) (h : ofProgram p ids = .ok loop)
    (harm : arm ∈ loop.arms) {ident : String} {actuals : List Actual} {keeps : Bool}
    (hstmt : .call ident actuals keeps ∈ arm.body) :
    ∃ entry ∈ r.entries, ids.lookup entry.2.name = some ident := by
  obtain ⟨n, heq⟩ | ⟨op, -, hstands⟩ := exists_operation h harm hstmt
  · cases heq
  obtain ⟨_, _, read, -, -, hread⟩ | ⟨hook, actuals', -, hcall⟩ | ⟨-, hnone⟩ := hstands.cases
  · cases hread
  · obtain ⟨entry, ident', hhook, hident, heq⟩ := exists_hook_of_callStmt hcall
    cases heq
    rw [Program.hook?, L.hooks] at hhook
    exact ⟨entry, List.mem_of_getElem? hhook, hident⟩
  · exact absurd rfl (hnone ident actuals keeps)

end DispatchLoop

/-- A type that is compiled has a trie of its hooks, which the program is made of. -/
theorem Generator.exists_trie_of_compile {g : Generator} {table : MethodTable} {p : Program}
    (h : (g.compile table).value = .ok p) :
    ∃ t, Trie.ofRegistry table.collect.value g.config.aliases = .ok t ∧
      (t.compile table.collect.value g.config.collapse table.typeName).2.value = .ok p := by
  rw [compile, compileRegistry] at h
  cases ht : Trie.ofRegistry table.collect.value g.config.aliases with
  | error e =>
    simp only [ht] at h
    cases h
  | ok t =>
    simp only [ht] at h
    refine ⟨t, rfl, ?_⟩
    split at h
    · cases h
    · next hcompile =>
      cases h
      rw [hcompile]

/-- An expanded block is described, and its loop is made of a program for its hooks. -/
theorem Expansion.exists_layout {o : Options} {b : Source.ImplBlock} {e : Expansion}
    (h : (ofBlock o b).value = .ok e) :
    ∃ d t, b.describe = .ok d ∧
      Nonempty (Layout t d.table.collect.value o.config.collapse e.program) ∧
      DispatchLoop.ofProgram e.program d.identifiers = .ok e.loop := by
  rw [ofBlock] at h
  split at h
  · cases h
  · split at h
    · cases h
    · next d hdescribe =>
      split at h
      · cases h
      · next program hgenerate =>
        obtain ⟨loop, hloop, rfl⟩ := DispatchLoop.exists_of_map_eq_ok h
        have hcompile : ((Generator.standard o.config).generate d.table).2.value = .ok program := by
          rw [hgenerate]
        obtain ⟨t, ht, hp⟩ :=
          Generator.exists_trie_of_compile (Generator.generate_of_ok hcompile).2
        have hsound := (Trie.reachable_ofRegistry ht).sound
        exact ⟨d, t, hdescribe, Trie.exists_layout hsound hp, hloop⟩

end HookDispatch
