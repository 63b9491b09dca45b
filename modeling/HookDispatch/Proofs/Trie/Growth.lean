import HookDispatch.Trie.Basic
import Mathlib.Data.List.Nodup
import Mathlib.Data.List.Range

/-!
What an insertion does to the edges of a trie. The nodes that were there keep their numbers, the
new ones are numbered from the size of the trie on, exactly the inserted key gets a hook, and every
path still leads to a hook. The facts are stated for one edge group and then for the whole trie.
-/
namespace HookDispatch

namespace Edges

def numbers : Edges → List NodeId
  | nil => []
  | cons id _ _ below rest => id :: (below.numbers ++ rest.numbers)

def terminals : Edges → List (List UInt8 × MethodId)
  | nil => []
  | cons _ byte terminal below rest =>
    terminal.toList.map ([byte], ·) ++ below.terminals.map (Prod.map (byte :: ·) id) ++
      rest.terminals

def Productive : Edges → Prop
  | nil => True
  | cons _ _ terminal below rest =>
    (terminal.isSome ∨ below ≠ nil) ∧ below.Productive ∧ rest.Productive

def get? (path : List UInt8) (edges : Edges) : Option MethodId :=
  (edges.seek path).bind Prod.snd

section Lookup
variable {id : NodeId} {byte b : UInt8} {terminal : Option MethodId} {below rest : Edges}
  {path : List UInt8}

@[simp]
theorem get?_nil_path (edges : Edges) : edges.get? [] = none := by
  cases edges <;> rfl

@[simp]
theorem get?_nil (path : List UInt8) : nil.get? path = none := by
  cases path <;> rfl

theorem get?_cons_end : (cons id byte terminal below rest).get? [byte] = terminal := by
  simp only [get?, seek, if_true, Option.bind_some]

theorem get?_cons_below (hpath : path ≠ []) :
    (cons id byte terminal below rest).get? (byte :: path) = below.get? path := by
  simp only [get?, seek, if_true, if_neg hpath]

theorem get?_cons_rest (hbyte : byte ≠ b) :
    (cons id byte terminal below rest).get? (b :: path) = rest.get? (b :: path) := by
  simp only [get?, seek, if_neg hbyte]

end Lookup

theorem mem_terminals_cons {id : NodeId} {byte : UInt8} {terminal : Option MethodId}
    {below rest : Edges} {path : List UInt8} {hook : MethodId} :
    (path, hook) ∈ (cons id byte terminal below rest).terminals ↔
      (path = [byte] ∧ terminal = some hook) ∨
      (∃ tail, path = byte :: tail ∧ (tail, hook) ∈ below.terminals) ∨
      (path, hook) ∈ rest.terminals := by
  simp only [terminals, List.mem_append, List.mem_map, Option.mem_toList,
    Prod.mk.injEq, Prod.map_apply, id_eq, Prod.exists]
  constructor
  · rintro ((⟨h, hterminal, hpath, rfl⟩ | ⟨tail, h, hmem, hpath, rfl⟩) | hmem)
    · exact Or.inl ⟨hpath.symm, hterminal⟩
    · exact Or.inr (Or.inl ⟨tail, hpath.symm, hmem⟩)
    · exact Or.inr (Or.inr hmem)
  · rintro (⟨hpath, hterminal⟩ | ⟨tail, hpath, hmem⟩ | hmem)
    · exact Or.inl (Or.inl ⟨hook, hterminal, hpath.symm, rfl⟩)
    · exact Or.inl (Or.inr ⟨tail, hook, hmem, hpath.symm, rfl⟩)
    · exact Or.inr hmem

/-- A hook that is found is one of the hooks of the group. -/
theorem mem_terminals_of_get? {edges : Edges} {path : List UInt8} {hook : MethodId}
    (h : edges.get? path = some hook) : (path, hook) ∈ edges.terminals := by
  induction edges generalizing path with
  | nil => simp at h
  | cons id byte terminal below rest ihBelow ihRest =>
    rw [mem_terminals_cons]
    cases path with
    | nil => simp at h
    | cons b path =>
      by_cases hb : byte = b
      · subst hb
        by_cases hpath : path = []
        · subst hpath
          rw [get?_cons_end] at h
          exact Or.inl ⟨rfl, h⟩
        · rw [get?_cons_below hpath] at h
          exact Or.inr (Or.inl ⟨path, rfl, ihBelow h⟩)
      · rw [get?_cons_rest hb] at h
        exact Or.inr (Or.inr (ihRest h))

section Chain
variable {next : NodeId} {hook : MethodId}

theorem numbers_chain (path : List UInt8) :
    (chain next hook path).numbers = List.range' next path.length := by
  induction path generalizing next with
  | nil => rfl
  | cons b path ih =>
    rw [chain, numbers, ih, numbers, List.append_nil, List.length_cons, List.range'_succ]

theorem productive_chain (path : List UInt8) : (chain next hook path).Productive := by
  induction path generalizing next with
  | nil => trivial
  | cons b path ih =>
    refine ⟨?_, ih, trivial⟩
    cases path with
    | nil => exact Or.inl rfl
    | cons c path => exact Or.inr (by simp [chain])

theorem get?_chain {path q : List UInt8} (hpath : path ≠ []) :
    (chain next hook path).get? q = if q = path then some hook else none := by
  induction path generalizing next q with
  | nil => exact absurd rfl hpath
  | cons b path ih =>
    cases q with
    | nil => simp
    | cons c q =>
      by_cases hc : b = c
      · subst hc
        by_cases hq : q = []
        · subst hq
          rw [chain, get?_cons_end]
          by_cases hp : path = []
          · simp [hp]
          · simp [hp, Ne.symm hp]
        · rw [chain, get?_cons_below hq]
          by_cases hp : path = []
          · simp [hp, hq, chain]
          · rw [ih hp]
            simp
      · rw [chain, get?_cons_rest hc, get?_nil, if_neg]
        rintro ⟨⟩
        exact hc rfl

theorem mem_terminals_chain {path q : List UInt8} {h : MethodId}
    (hmem : (q, h) ∈ (chain next hook path).terminals) : q = path ∧ h = hook := by
  induction path generalizing next q with
  | nil => simp [chain, terminals] at hmem
  | cons b path ih =>
    rw [chain, mem_terminals_cons] at hmem
    rcases hmem with ⟨rfl, hterminal⟩ | ⟨tail, rfl, hmem⟩ | hmem
    · by_cases hp : path = []
      · subst hp
        rw [if_pos rfl, Option.some.injEq] at hterminal
        exact ⟨rfl, hterminal.symm⟩
      · rw [if_neg hp] at hterminal
        exact absurd hterminal (by simp)
    · obtain ⟨rfl, rfl⟩ := ih hmem
      exact ⟨rfl, rfl⟩
    · simp [terminals] at hmem

end Chain

section Insert
variable {next : NodeId} {hook : MethodId}

theorem insert_ne_nil {path : List UInt8} {edges : Edges} (h : edges ≠ nil) :
    edges.insert next hook path ≠ nil := by
  cases edges with
  | nil => exact absurd rfl h
  | cons id byte terminal below rest =>
    cases path with
    | nil => simp
    | cons b path =>
      rw [insert]
      split <;> simp

/-- Nodes keep their numbers, and new ones are numbered in a row. -/
theorem numbers_insert (path : List UInt8) (edges : Edges) :
    (edges.insert next hook path).numbers.Perm
      (edges.numbers ++ List.range' next (edges.missing path)) := by
  induction edges generalizing path with
  | nil =>
    cases path with
    | nil => simp [numbers]
    | cons b path => rw [insert, numbers_chain, numbers, missing, List.nil_append]
  | cons id byte terminal below rest ihBelow ihRest =>
    cases path with
    | nil => simp
    | cons b path =>
      by_cases hb : byte = b
      · rw [insert, if_pos hb, missing, if_pos hb, numbers, numbers, List.cons_append]
        refine List.Perm.cons id ?_
        refine ((ihBelow path).append_right rest.numbers).trans ?_
        rw [List.append_assoc, List.append_assoc]
        exact List.perm_append_comm.append_left below.numbers
      · rw [insert, if_neg hb, missing, if_neg hb, numbers, numbers, List.cons_append,
          List.append_assoc]
        exact List.Perm.cons id ((ihRest (b :: path)).append_left below.numbers)

theorem productive_insert {path : List UInt8} {edges : Edges} (h : edges.Productive) :
    (edges.insert next hook path).Productive := by
  induction edges generalizing path with
  | nil =>
    cases path with
    | nil => simpa using h
    | cons b path => exact productive_chain (b :: path)
  | cons id byte terminal below rest ihBelow ihRest =>
    cases path with
    | nil => simpa using h
    | cons b path =>
      obtain ⟨hnode, hbelow, hrest⟩ := h
      by_cases hb : byte = b
      · rw [insert, if_pos hb]
        refine ⟨?_, ihBelow hbelow, hrest⟩
        rcases hnode with hterminal | hedges
        · obtain ⟨h, rfl⟩ := Option.isSome_iff_exists.mp hterminal
          refine Or.inl ?_
          split <;> simp
        · exact Or.inr (insert_ne_nil hedges)
      · rw [insert, if_neg hb]
        exact ⟨hnode, hbelow, ihRest hrest⟩

/-- Exactly the inserted path gets the hook, unless it had one. -/
theorem get?_insert {path : List UInt8} (hpath : path ≠ []) (q : List UInt8) (edges : Edges) :
    (edges.insert next hook path).get? q =
      if q = path then (edges.get? path).or (some hook) else edges.get? q := by
  induction edges generalizing path q with
  | nil =>
    cases path with
    | nil => exact absurd rfl hpath
    | cons b path => rw [insert, get?_chain hpath, get?_nil, get?_nil, Option.none_or]
  | cons id byte terminal below rest ihBelow ihRest =>
    cases path with
    | nil => exact absurd rfl hpath
    | cons b path =>
      cases q with
      | nil => simp
      | cons c q =>
        by_cases hb : byte = b
        · subst hb
          rw [insert, if_pos rfl]
          by_cases hc : byte = c
          · subst hc
            by_cases hq : q = []
            · subst hq
              rw [get?_cons_end, get?_cons_end]
              by_cases hp : path = []
              · simp [hp, get?_cons_end]
              · simp [hp, Ne.symm hp]
            · rw [get?_cons_below hq, get?_cons_below hq]
              by_cases hp : path = []
              · simp [hp, hq]
              · rw [ihBelow hp, get?_cons_below hp]
                simp
          · rw [get?_cons_rest hc, get?_cons_rest hc, if_neg]
            rintro ⟨⟩
            exact hc rfl
        · rw [insert, if_neg hb]
          by_cases hc : byte = c
          · subst hc
            rw [if_neg (by rintro ⟨⟩; exact hb rfl)]
            by_cases hq : q = []
            · rw [hq, get?_cons_end, get?_cons_end]
            · rw [get?_cons_below hq, get?_cons_below hq]
          · rw [get?_cons_rest hc, get?_cons_rest hc, get?_cons_rest hb, ihRest (by simp)]

theorem mem_terminals_insert {path q : List UInt8} {h : MethodId} {edges : Edges}
    (hmem : (q, h) ∈ (edges.insert next hook path).terminals) :
    (q, h) ∈ edges.terminals ∨ (q = path ∧ h = hook) := by
  induction edges generalizing path q with
  | nil =>
    cases path with
    | nil => simp [terminals] at hmem
    | cons b path => exact Or.inr (mem_terminals_chain hmem)
  | cons id byte terminal below rest ihBelow ihRest =>
    cases path with
    | nil => exact Or.inl (by simpa using hmem)
    | cons b path =>
      rw [mem_terminals_cons]
      by_cases hb : byte = b
      · subst hb
        rw [insert, if_pos rfl, mem_terminals_cons] at hmem
        rcases hmem with ⟨rfl, hterminal⟩ | ⟨tail, rfl, hmem⟩ | hmem
        · by_cases hp : path = []
          · subst hp
            rw [if_pos rfl] at hterminal
            cases terminal with
            | none => exact Or.inr ⟨rfl, by simpa using hterminal.symm⟩
            | some old => exact Or.inl (Or.inl ⟨rfl, by simpa using hterminal⟩)
          · rw [if_neg hp] at hterminal
            exact Or.inl (Or.inl ⟨rfl, hterminal⟩)
        · rcases ihBelow hmem with hold | ⟨rfl, rfl⟩
          · exact Or.inl (Or.inr (Or.inl ⟨tail, rfl, hold⟩))
          · exact Or.inr ⟨rfl, rfl⟩
        · exact Or.inl (Or.inr (Or.inr hmem))
      · rw [insert, if_neg hb, mem_terminals_cons] at hmem
        rcases hmem with hend | hbelow | hrest
        · exact Or.inl (Or.inl hend)
        · exact Or.inl (Or.inr (Or.inl hbelow))
        · rcases ihRest hrest with hold | hnew
          · exact Or.inl (Or.inr (Or.inr hold))
          · exact Or.inr hnew

end Insert

end Edges

end HookDispatch
