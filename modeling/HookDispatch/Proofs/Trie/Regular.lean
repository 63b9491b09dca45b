import HookDispatch.Proofs.Trie.Lookup
import HookDispatch.Proofs.Trie.Places

/-!
The form that tries keep while keys are inserted. A node has a larger number than its parent and its
siblings have other bytes, the numbers are those below the size, the keys are counted by the hooks,
and the paths to the nodes are the beginnings of the keys. The bytes of a key are followed one by
one, so most of this is shown for a path in an edge group and holds of the whole trie after the last
byte.
-/
namespace HookDispatch

namespace Edges

/-- Below a parent numbers grow, and the edges of each node have different bytes. -/
def Regular (parent : NodeId) : Edges → Prop
  | nil => True
  | cons id byte _ below rest =>
    parent < id ∧ byte ∉ rest.bytes ∧ below.Regular id ∧ rest.Regular parent

def paths : Edges → List (List UInt8)
  | nil => []
  | cons _ byte _ below rest => [byte] :: (below.paths.map (byte :: ·) ++ rest.paths)

section Regular
variable {parent id next : NodeId} {hook : MethodId} {byte b : UInt8} {terminal : Option MethodId}
  {below rest edges : Edges} {path q : List UInt8}

theorem Regular.nodup_bytes (h : edges.Regular parent) : edges.bytes.Nodup := by
  induction edges with
  | nil => exact List.nodup_nil
  | cons id byte terminal below rest ihBelow ihRest =>
    obtain ⟨-, hbyte, -, hrest⟩ := h
    exact List.nodup_cons.mpr ⟨hbyte, ihRest hrest⟩

theorem Regular.lt_of_mem_ids (h : edges.Regular parent) (hid : id ∈ edges.ids) : parent < id := by
  induction edges with
  | nil => cases hid
  | cons here byte terminal below rest ihBelow ihRest =>
    obtain ⟨hlt, -, -, hrest⟩ := h
    rcases List.mem_cons.mp hid with rfl | hid
    · exact hlt
    · exact ihRest hrest hid

/-- The group below a node is regular below that node. -/
theorem Regular.of_mem_places (h : edges.Regular parent) {p : Node}
    (hp : p ∈ edges.places parent path) : p.below.Regular p.id := by
  induction edges generalizing parent path with
  | nil => cases hp
  | cons id byte terminal below rest ihBelow ihRest =>
    obtain ⟨-, -, hbelow, hrest⟩ := h
    rw [places, List.mem_cons, List.mem_append] at hp
    rcases hp with rfl | hp | hp
    · exact hbelow
    · exact ihBelow hbelow hp
    · exact ihRest hrest hp

theorem regular_chain (h : parent < next) (path : List UInt8) :
    (chain next hook path).Regular parent := by
  induction path generalizing parent next with
  | nil => trivial
  | cons b path ih => exact ⟨h, List.not_mem_nil, ih (Nat.lt_add_one next), trivial⟩

/-- Only the first byte of a path can be new in its group. -/
theorem mem_bytes_insert (h : byte ∈ (edges.insert next hook path).bytes) :
    byte ∈ edges.bytes ∨ path.head? = some byte := by
  induction edges with
  | nil =>
    cases path with
    | nil => exact Or.inl h
    | cons b path =>
      rw [insert, chain, bytes, bytes, List.mem_singleton] at h
      exact Or.inr (congrArg some h.symm)
  | cons id here terminal below rest ihBelow ihRest =>
    cases path with
    | nil =>
      rw [insert_nil_path] at h
      exact Or.inl h
    | cons b path =>
      rw [insert] at h
      split at h
      · exact Or.inl h
      · rcases List.mem_cons.mp h with rfl | h
        · exact Or.inl List.mem_cons_self
        · rcases ihRest h with hold | hnew
          · exact Or.inl (List.mem_cons_of_mem here hold)
          · exact Or.inr hnew

/-- Inserting keeps a group regular if new nodes get numbers that are larger than all others. -/
theorem Regular.insert (h : edges.Regular parent) (hparent : parent < next)
    (hnext : ∀ n : Nat, n ∈ edges.numbers → n < next) :
    (edges.insert next hook path).Regular parent := by
  induction edges generalizing parent path with
  | nil =>
    cases path with
    | nil => exact h
    | cons b path => exact regular_chain hparent (b :: path)
  | cons id byte terminal below rest ihBelow ihRest =>
    cases path with
    | nil =>
      rw [insert_nil_path]
      exact h
    | cons b path =>
      obtain ⟨hlt, hbyte, hbelow, hrest⟩ := h
      have hnextBelow : ∀ n : Nat, n ∈ below.numbers → n < next := by
        intro n hn
        exact hnext n (List.mem_cons_of_mem id (List.mem_append_left _ hn))
      have hnextRest : ∀ n : Nat, n ∈ rest.numbers → n < next := by
        intro n hn
        exact hnext n (List.mem_cons_of_mem id (List.mem_append_right _ hn))
      by_cases hb : byte = b
      · rw [Edges.insert, if_pos hb]
        have hid : id < next := hnext id List.mem_cons_self
        exact ⟨hlt, hbyte, ihBelow hbelow hid hnextBelow, hrest⟩
      · rw [Edges.insert, if_neg hb]
        refine ⟨hlt, ?_, hbelow, ihRest hrest hparent hnextRest⟩
        intro hmem
        rcases mem_bytes_insert hmem with hold | hnew
        · exact hbyte hold
        · exact hb (Option.some.inj hnew).symm

theorem length_terminals_chain (hpath : path ≠ []) :
    (chain next hook path).terminals.length = 1 := by
  induction path generalizing next with
  | nil => exact absurd rfl hpath
  | cons b path ih =>
    rw [chain, terminals, List.length_append, List.length_append, List.length_map, List.length_map]
    by_cases hp : path = []
    · subst hp
      rfl
    · rw [if_neg hp, ih hp]
      rfl

/-- A hook is added exactly if the path had none. -/
theorem length_terminals_insert (hpath : path ≠ []) (edges : Edges) :
    (edges.insert next hook path).terminals.length =
      edges.terminals.length + if (edges.get? path).isNone then 1 else 0 := by
  induction edges generalizing path with
  | nil =>
    cases path with
    | nil => exact absurd rfl hpath
    | cons b path =>
      rw [insert, length_terminals_chain hpath, get?_nil]
      rfl
  | cons id byte terminal below rest ihBelow ihRest =>
    cases path with
    | nil => exact absurd rfl hpath
    | cons b path =>
      by_cases hb : byte = b
      · subst hb
        rw [insert, if_pos rfl]
        simp only [terminals, List.length_append, List.length_map]
        by_cases hp : path = []
        · subst hp
          rw [get?_cons_end, insert_nil_path, if_pos rfl]
          cases terminal with
          | none =>
            simp only [Option.none_or, Option.toList_none, Option.toList_some, List.length_nil,
              List.length_singleton, Option.isNone_none, if_true]
            omega
          | some old => rfl
        · have hbelow := ihBelow hp
          rw [get?_cons_below hp, if_neg hp]
          omega
      · have hrest := ihRest (List.cons_ne_nil b path)
        rw [insert, if_neg hb, get?_cons_rest hb]
        simp only [terminals, List.length_append, List.length_map]
        omega

theorem mem_paths_cons :
    q ∈ (cons id byte terminal below rest).paths ↔
      q = [byte] ∨ (∃ tail ∈ below.paths, q = byte :: tail) ∨ q ∈ rest.paths := by
  simp only [paths, List.mem_cons, List.mem_append, List.mem_map, eq_comm]

theorem ne_nil_of_mem_paths (h : q ∈ edges.paths) : q ≠ [] := by
  induction edges with
  | nil => cases h
  | cons id byte terminal below rest ihBelow ihRest =>
    rcases mem_paths_cons.mp h with rfl | ⟨tail, -, rfl⟩ | hrest
    · exact List.cons_ne_nil _ _
    · exact List.cons_ne_nil _ _
    · exact ihRest hrest

theorem head?_mem_of_mem_paths (h : b :: q ∈ edges.paths) : b ∈ edges.bytes := by
  induction edges with
  | nil => cases h
  | cons id byte terminal below rest ihBelow ihRest =>
    rcases mem_paths_cons.mp h with heq | ⟨tail, -, heq⟩ | hrest
    · rw [(List.cons.inj heq).1]
      exact List.mem_cons_self
    · rw [(List.cons.inj heq).1]
      exact List.mem_cons_self
    · exact List.mem_cons_of_mem byte (ihRest hrest)

/-- In a regular group every node has a path of its own. -/
theorem Regular.nodup_paths (h : edges.Regular parent) : edges.paths.Nodup := by
  induction edges generalizing parent with
  | nil => exact List.nodup_nil
  | cons id byte terminal below rest ihBelow ihRest =>
    obtain ⟨-, hbyte, hbelow, hrest⟩ := h
    have hfirst : ∀ tail : List UInt8, byte :: tail ∉ rest.paths := by
      intro tail hmem
      exact hbyte (head?_mem_of_mem_paths hmem)
    rw [paths, List.nodup_cons, List.nodup_append]
    refine ⟨?_, (ihBelow hbelow).map (List.cons_injective), ihRest hrest, ?_⟩
    · intro hmem
      rcases List.mem_append.mp hmem with hmem | hmem
      · obtain ⟨tail, htail, heq⟩ := List.mem_map.mp hmem
        exact ne_nil_of_mem_paths htail (List.cons.inj heq).2
      · exact hfirst [] hmem
    · intro q hq q' hq' heq
      subst heq
      obtain ⟨tail, -, rfl⟩ := List.mem_map.mp hq
      exact hfirst tail hq'

theorem length_paths (edges : Edges) : edges.paths.length = edges.numbers.length := by
  induction edges with
  | nil => rfl
  | cons id byte terminal below rest ihBelow ihRest =>
    simp only [paths, numbers, List.length_cons, List.length_append, List.length_map, ihBelow,
      ihRest]

/-- A path that begins with a byte is that byte, or goes on after it. -/
theorem prefix_cons_iff (hq : q ≠ []) : q <+: b :: path ↔
    q = [b] ∨ ∃ tail, tail ≠ [] ∧ tail <+: path ∧ q = b :: tail := by
  cases q with
  | nil => exact absurd rfl hq
  | cons c tail =>
    rw [List.cons_prefix_cons]
    by_cases htail : tail = []
    · subst htail
      simp
    · simp [htail, and_comm]

theorem mem_paths_chain : q ∈ (chain next hook path).paths ↔ q ≠ [] ∧ q <+: path := by
  induction path generalizing next q with
  | nil =>
    constructor
    · intro h
      cases h
    · rintro ⟨hq, hnil⟩
      exact absurd (List.prefix_nil.mp hnil) hq
  | cons b path ih =>
    rw [chain, mem_paths_cons]
    constructor
    · rintro (rfl | ⟨tail, htail, rfl⟩ | hnil)
      · exact ⟨List.cons_ne_nil _ _, (prefix_cons_iff (List.cons_ne_nil _ _)).mpr (Or.inl rfl)⟩
      · obtain ⟨hne, hprefix⟩ := ih.mp htail
        exact ⟨List.cons_ne_nil _ _, List.cons_prefix_cons.mpr ⟨rfl, hprefix⟩⟩
      · cases hnil
    · rintro ⟨hq, hprefix⟩
      rcases (prefix_cons_iff hq).mp hprefix with rfl | ⟨tail, htail, hinner, rfl⟩
      · exact Or.inl rfl
      · exact Or.inr (Or.inl ⟨tail, ih.mpr ⟨htail, hinner⟩, rfl⟩)

/-- Inserting a path adds its beginnings, and no other path. -/
theorem mem_paths_insert : q ∈ (edges.insert next hook path).paths ↔
    q ∈ edges.paths ∨ (q ≠ [] ∧ q <+: path) := by
  induction edges generalizing path q with
  | nil =>
    cases path with
    | nil => simp [paths]
    | cons b path =>
      rw [insert, mem_paths_chain]
      simp [paths]
  | cons id byte terminal below rest ihBelow ihRest =>
    cases path with
    | nil => simp
    | cons b path =>
      by_cases hq : q = []
      · constructor
        · intro h
          exact absurd hq (ne_nil_of_mem_paths h)
        · rintro (h | h)
          · exact absurd hq (ne_nil_of_mem_paths h)
          · exact absurd hq h.1
      by_cases hb : byte = b
      · subst hb
        rw [insert, if_pos rfl, mem_paths_cons, mem_paths_cons, prefix_cons_iff hq]
        constructor
        · rintro (hend | ⟨tail, htail, rfl⟩ | hrest)
          · exact Or.inl (Or.inl hend)
          · rcases ihBelow.mp htail with hold | ⟨hne, hprefix⟩
            · exact Or.inl (Or.inr (Or.inl ⟨tail, hold, rfl⟩))
            · exact Or.inr ⟨hq, Or.inr ⟨tail, hne, hprefix, rfl⟩⟩
          · exact Or.inl (Or.inr (Or.inr hrest))
        · rintro ((hend | ⟨tail, htail, rfl⟩ | hrest) | ⟨-, hend | ⟨tail, hne, hprefix, rfl⟩⟩)
          · exact Or.inl hend
          · exact Or.inr (Or.inl ⟨tail, ihBelow.mpr (Or.inl htail), rfl⟩)
          · exact Or.inr (Or.inr hrest)
          · exact Or.inl hend
          · exact Or.inr (Or.inl ⟨tail, ihBelow.mpr (Or.inr ⟨hne, hprefix⟩), rfl⟩)
      · rw [insert, if_neg hb, mem_paths_cons, mem_paths_cons, ihRest, or_assoc, or_assoc]

end Regular

end Edges

namespace Trie

def insertEach (t : Trie) : List (String × MethodId) → Trie
  | [] => t
  | (key, hook) :: rest =>
    match t.insert key hook with
    | .error _ => t.insertEach rest
    | .ok grown => grown.insertEach rest

/-- A sound trie in which numbers, bytes and counts are in order. -/
structure Regular (t : Trie) : Prop extends t.Sound where
  edges_regular : t.edges.Regular root
  numbers_perm : (root :: t.edges.numbers).Perm (List.range t.size)
  keyCount_eq : t.keyCount = t.edges.terminals.length

variable {t t' : Trie} {key : String} {hook : MethodId}

theorem keyCount_insert (h : t.insert key hook = .ok t') :
    t'.keyCount = t.keyCount + if (t.get? key).isNone then 1 else 0 := by
  rw [insert] at h
  split at h
  · cases h
  · cases h
    split <;> rfl

/-- Only the empty key is refused. -/
theorem insert_eq_error {e : CompileError} :
    t.insert key hook = .error e ↔ key = "" ∧ e = .emptyKey := by
  rw [insert]
  by_cases hkey : key.isEmpty = true
  · rw [if_pos hkey, Except.error.injEq]
    have hempty : key = "" := String.isEmpty_iff.mp hkey
    constructor
    · intro he
      exact ⟨hempty, he.symm⟩
    · intro h
      exact h.2.symm
  · rw [if_neg hkey]
    constructor
    · intro h
      cases h
    · rintro ⟨hempty, -⟩
      exact absurd (String.isEmpty_iff.mpr hempty) hkey

theorem regular_empty : Trie.empty.Regular where
  toSound := sound_empty
  edges_regular := trivial
  numbers_perm := List.Perm.refl [root]
  keyCount_eq := rfl

theorem Regular.root_lt_size (ht : t.Regular) : root < t.size :=
  List.mem_range.mp (ht.numbers_perm.mem_iff.mp List.mem_cons_self)

theorem Regular.insert (ht : t.Regular) (h : t.insert key hook = .ok t') : t'.Regular := by
  obtain ⟨hkey, hedges, hsize⟩ := insert_eq_ok h
  refine ⟨ht.toSound.insert h, ?_, ?_, ?_⟩
  · rw [hedges]
    exact ht.edges_regular.insert ht.root_lt_size ht.numbers_lt
  · have hnumbers : (root :: (t.edges.insert t.size hook (Text.bytes key)).numbers).Perm
        (root :: (t.edges.numbers ++ List.range' t.size (t.edges.missing (Text.bytes key)))) :=
      (Edges.numbers_insert (Text.bytes key) t.edges).cons root
    rw [hedges, hsize, List.range_eq_range', ← List.range'_append_1, ← List.range_eq_range']
    refine hnumbers.trans ?_
    rw [← List.cons_append, Nat.zero_add]
    exact ht.numbers_perm.append_right _
  · rw [keyCount_insert h, hedges, Edges.length_terminals_insert hkey, get?_eq, ht.keyCount_eq]

theorem Regular.compile (ht : t.Regular) (r : Registry) (collapse : Bool) (typeName : String) :
    (t.compile r collapse typeName).1.Regular := by
  have hcount : (t.compile r collapse typeName).1.keyCount = t.keyCount := by
    rw [Trie.compile]
    split <;> rfl
  refine ⟨ht.toSound.compile r collapse typeName, ?_, ?_, ?_⟩
  · rw [edges_compile]
    exact ht.edges_regular
  · rw [edges_compile, size_compile]
    exact ht.numbers_perm
  · rw [edges_compile, hcount]
    exact ht.keyCount_eq

theorem Reachable.regular (ht : t.Reachable) : t.Regular := by
  induction ht with
  | empty => exact regular_empty
  | insert _ hinsert ih => exact ih.insert hinsert
  | compile r collapse typeName _ ih => exact ih.compile r collapse typeName

theorem insertEach_cons (t : Trie) (entry : String × MethodId) (keys : List (String × MethodId)) :
    (∃ e, t.insert entry.1 entry.2 = .error e ∧ t.insertEach (entry :: keys) = t.insertEach keys) ∨
      ∃ grown, t.insert entry.1 entry.2 = .ok grown ∧
        t.insertEach (entry :: keys) = grown.insertEach keys := by
  rw [insertEach]
  cases h : t.insert entry.1 entry.2 with
  | error e => exact Or.inl ⟨e, rfl, rfl⟩
  | ok grown => exact Or.inr ⟨grown, rfl, rfl⟩

theorem Reachable.insertEach (ht : t.Reachable) (keys : List (String × MethodId)) :
    (t.insertEach keys).Reachable := by
  induction keys generalizing t with
  | nil => exact ht
  | cons entry keys ih =>
    rcases t.insertEach_cons entry keys with ⟨e, -, heq⟩ | ⟨grown, hgrown, heq⟩
    · rw [heq]
      exact ih ht
    · rw [heq]
      exact ih (ht.insert hgrown)

/-- The paths of a trie after insertions. -/
theorem mem_paths_insertEach {keys : List (String × MethodId)} {q : List UInt8} :
    q ∈ (t.insertEach keys).edges.paths ↔
      q ∈ t.edges.paths ∨ (q ≠ [] ∧ ∃ entry ∈ keys, q <+: Text.bytes entry.1) := by
  induction keys generalizing t with
  | nil => simp [Trie.insertEach]
  | cons entry keys ih =>
    rcases t.insertEach_cons entry keys with ⟨e, herror, heq⟩ | ⟨grown, hgrown, heq⟩
    · have hnone : ¬ (q ≠ [] ∧ q <+: Text.bytes entry.1) := by
        rintro ⟨hq, hprefix⟩
        rw [Text.bytes_eq_nil_iff.mpr (insert_eq_error.mp herror).1] at hprefix
        exact hq (List.prefix_nil.mp hprefix)
      rw [heq, ih]
      simp only [List.mem_cons, exists_eq_or_imp]
      tauto
    · obtain ⟨-, hedges, -⟩ := insert_eq_ok hgrown
      rw [heq, ih, hedges, Edges.mem_paths_insert]
      simp only [List.mem_cons, exists_eq_or_imp]
      tauto

end Trie

end HookDispatch
