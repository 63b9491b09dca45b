import HookDispatch.Proofs.Trie.Growth

/-!
Edge groups that are a single path to one terminal. Such a group has no other hook, and a path
leads to its hook exactly if it is the whole path of the group.
-/
namespace HookDispatch.Edges

/-- A single path ends at its first edge or goes on below it. -/
theorem soleLeaf_cons {id : NodeId} {byte : UInt8} {terminal : Option MethodId}
    {below rest : Edges} {leaf : Leaf}
    (h : (cons id byte terminal below rest).soleLeaf = some leaf) :
    rest = nil ∧
      ((∃ hook, terminal = some hook ∧ below = nil ∧ leaf = ⟨id, hook, [byte]⟩) ∨
        terminal = none ∧ ∃ inner, below.soleLeaf = some inner ∧
          leaf = { inner with suffix := byte :: inner.suffix }) := by
  cases rest with
  | cons =>
    cases terminal with
    | none => cases h
    | some hook => cases below <;> cases h
  | nil =>
    refine ⟨rfl, ?_⟩
    cases terminal with
    | none =>
      rw [soleLeaf, Option.map_eq_some_iff] at h
      obtain ⟨inner, hinner, rfl⟩ := h
      exact Or.inr ⟨rfl, inner, hinner, rfl⟩
    | some hook =>
      cases below with
      | nil =>
        cases h
        exact Or.inl ⟨hook, rfl, rfl, rfl⟩
      | cons => cases h

theorem terminals_of_soleLeaf {edges : Edges} {leaf : Leaf} (h : edges.soleLeaf = some leaf) :
    edges.terminals = [(leaf.suffix, leaf.hook)] := by
  induction edges generalizing leaf with
  | nil => cases h
  | cons id byte terminal below rest ihBelow ihRest =>
    obtain ⟨rfl, ⟨hook, rfl, rfl, rfl⟩ | ⟨rfl, inner, hinner, rfl⟩⟩ := soleLeaf_cons h
    · rfl
    · rw [terminals, ihBelow hinner]
      rfl

theorem suffix_ne_nil_of_soleLeaf {edges : Edges} {leaf : Leaf} (h : edges.soleLeaf = some leaf) :
    leaf.suffix ≠ [] := by
  cases edges with
  | nil => cases h
  | cons id byte terminal below rest =>
    obtain ⟨-, ⟨hook, -, -, rfl⟩ | ⟨-, inner, -, rfl⟩⟩ := soleLeaf_cons h
    · exact List.cons_ne_nil _ _
    · exact List.cons_ne_nil _ _

theorem get?_of_soleLeaf {edges : Edges} {leaf : Leaf} (h : edges.soleLeaf = some leaf)
    (path : List UInt8) :
    edges.get? path = if path = leaf.suffix then some leaf.hook else none := by
  induction edges generalizing leaf path with
  | nil => cases h
  | cons id byte terminal below rest ihBelow ihRest =>
    have hne := suffix_ne_nil_of_soleLeaf h
    obtain ⟨rfl, hform⟩ := soleLeaf_cons h
    cases path with
    | nil => rw [get?_nil_path, if_neg (Ne.symm hne)]
    | cons b path =>
      by_cases hb : byte = b
      · subst hb
        by_cases hpath : path = []
        · subst hpath
          rw [get?_cons_end]
          rcases hform with ⟨hook, rfl, rfl, rfl⟩ | ⟨rfl, inner, hinner, rfl⟩
          · rw [if_pos rfl]
          · rw [if_neg]
            intro heq
            exact suffix_ne_nil_of_soleLeaf hinner (List.cons.inj heq).2.symm
        · rw [get?_cons_below hpath]
          rcases hform with ⟨hook, rfl, rfl, rfl⟩ | ⟨rfl, inner, hinner, rfl⟩
          · rw [get?_nil, if_neg]
            intro heq
            exact hpath (List.cons.inj heq).2
          · rw [ihBelow hinner]
            simp
      · rw [get?_cons_rest hb, get?_nil, if_neg]
        intro heq
        rcases hform with ⟨hook, rfl, rfl, rfl⟩ | ⟨rfl, inner, hinner, rfl⟩
        · exact hb (List.cons.inj heq).1.symm
        · exact hb (List.cons.inj heq).1.symm

end HookDispatch.Edges
