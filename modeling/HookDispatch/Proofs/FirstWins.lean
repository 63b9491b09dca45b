import HookDispatch.Proofs.NodeArena

/-!
A trie as a map on texts. The first insertion under a text decides what is found there, and the
node that an insertion tells is the one that its key leads to from then on. Later insertions add
nodes below the ones that are there. They change neither the bytes on the way to a node nor its
parent, and a new child comes after the children that the node has.
-/
namespace HookDispatch

namespace Edges

def find? (path : List UInt8) (edges : Edges) : Option NodeId :=
  (edges.seek path).map Prod.fst

section Find
variable {id next here : NodeId} {hook : MethodId} {byte b : UInt8} {terminal : Option MethodId}
  {below rest edges : Edges} {path q : List UInt8}

@[simp]
theorem find?_nil_path (edges : Edges) : edges.find? [] = none := by
  cases edges <;> rfl

@[simp]
theorem find?_nil (path : List UInt8) : nil.find? path = none := by
  cases path <;> rfl

@[simp]
theorem find?_cons_end : (cons id byte terminal below rest).find? [byte] = some id := by
  simp [find?, seek]

theorem find?_cons_below (hpath : path ≠ []) :
    (cons id byte terminal below rest).find? (byte :: path) = below.find? path := by
  simp [find?, seek, hpath]

theorem find?_cons_rest (hbyte : byte ≠ b) :
    (cons id byte terminal below rest).find? (b :: path) = rest.find? (b :: path) := by
  simp [find?, seek, hbyte]

/-- New nodes are numbered along their path. -/
theorem find?_chain (b : UInt8) (path : List UInt8) :
    (chain next hook (b :: path)).find? (b :: path) = some (next + path.length) := by
  induction path generalizing next b with
  | nil => simp [chain]
  | cons c path ih =>
    have hbelow := @ih (next + 1) c
    rw [chain, find?_cons_below (List.cons_ne_nil c path), hbelow, List.length_cons,
      Nat.add_assoc, Nat.add_comm 1]

/-- An inserted path leads to the node where its insertion lands. -/
theorem find?_insert (hpath : path ≠ []) (edges : Edges) :
    (edges.insert next hook path).find? path = some (edges.landing next here path) := by
  induction edges generalizing path here with
  | nil =>
    cases path with
    | nil => exact absurd rfl hpath
    | cons b path => exact find?_chain b path
  | cons id byte terminal below rest ihBelow ihRest =>
    cases path with
    | nil => exact absurd rfl hpath
    | cons b path =>
      by_cases hb : byte = b
      · subst hb
        by_cases hp : path = []
        · subst hp
          simp [insert, landing]
        · rw [insert, if_pos rfl, find?_cons_below hp, landing, if_pos rfl]
          exact ihBelow hp
      · rw [insert, if_neg hb, find?_cons_rest hb, landing, if_neg hb]
        exact ihRest (List.cons_ne_nil b path)

/-- A node that a path leads to stays there. -/
theorem find?_insert_of_some {node : NodeId} (h : edges.find? q = some node) :
    (edges.insert next hook path).find? q = some node := by
  induction edges generalizing path q with
  | nil => simp at h
  | cons id byte terminal below rest ihBelow ihRest =>
    cases path with
    | nil => simpa using h
    | cons b path =>
      cases q with
      | nil => simp at h
      | cons c q =>
        by_cases hc : byte = c
        · subst hc
          by_cases hq : q = []
          · subst hq
            rw [insert]
            split <;> simpa using h
          · rw [find?_cons_below hq] at h
            rw [insert]
            split
            · rw [find?_cons_below hq]
              exact ihBelow h
            · rw [find?_cons_below hq]
              exact h
        · rw [find?_cons_rest hc] at h
          rw [insert]
          split
          · rw [find?_cons_rest hc]
            exact h
          · rw [find?_cons_rest hc]
            exact ihRest h

theorem ids_prefix_insert (path : List UInt8) (edges : Edges) :
    edges.ids <+: (edges.insert next hook path).ids := by
  induction edges with
  | nil => exact List.nil_prefix
  | cons id byte terminal below rest ihBelow ihRest =>
    cases path with
    | nil =>
      rw [insert_nil_path]
    | cons b path =>
      rw [insert]
      split
      · exact List.prefix_rfl
      · exact List.cons_prefix_cons.mpr ⟨rfl, ihRest⟩

/-- A node keeps its place, and its children are the first ones that it has afterwards. -/
theorem exists_place_insert (next : NodeId) (hook : MethodId) (path : List UInt8)
    {parent : NodeId} {n : Node} (h : n ∈ edges.places parent q) :
    ∃ m ∈ (edges.insert next hook path).places parent q,
      m.id = n.id ∧ m.path = n.path ∧ m.parent = n.parent ∧ n.children <+: m.children := by
  induction edges generalizing parent path q with
  | nil => simp [places] at h
  | cons id byte terminal below rest ihBelow ihRest =>
    cases path with
    | nil =>
      rw [insert_nil_path]
      exact ⟨n, h, rfl, rfl, rfl, List.prefix_rfl⟩
    | cons b path =>
      rw [places, List.mem_cons, List.mem_append] at h
      rw [insert]
      split
      · rcases h with hhead | hbelow | hrest
        · subst hhead
          exact ⟨_, List.mem_cons_self, rfl, rfl, rfl, ids_prefix_insert path below⟩
        · obtain ⟨m, hm, hsame⟩ := ihBelow path hbelow
          exact ⟨m, List.mem_cons_of_mem _ (List.mem_append_left _ hm), hsame⟩
        · exact ⟨n, List.mem_cons_of_mem _ (List.mem_append_right _ hrest), rfl, rfl, rfl,
            List.prefix_rfl⟩
      · rcases h with hhead | hbelow | hrest
        · subst hhead
          exact ⟨_, List.mem_cons_self, rfl, rfl, rfl, List.prefix_rfl⟩
        · exact ⟨n, List.mem_cons_of_mem _ (List.mem_append_left _ hbelow), rfl, rfl, rfl,
            List.prefix_rfl⟩
        · obtain ⟨m, hm, hsame⟩ := ihRest (b :: path) hrest
          exact ⟨m, List.mem_cons_of_mem _ (List.mem_append_right _ hm), hsame⟩

end Find

end Edges

namespace Trie

/-- The nodes of the first trie are in the second: there they have the same key and the same
parent, and their children in the same order before all others. -/
def Keeps (t u : Trie) : Prop :=
  ∀ id n, t.node? id = some n → ∃ m, u.node? id = some m ∧ m.path = n.path ∧ m.key = n.key ∧
    m.parent = n.parent ∧ n.children <+: m.children

variable {t t' u : Trie} {key s : String} {hook : MethodId} {node : NodeId}

theorem Keeps.refl (t : Trie) : t.Keeps t := by
  intro id n hn
  exact ⟨n, hn, rfl, rfl, rfl, List.prefix_rfl⟩

theorem Keeps.trans (h : t.Keeps t') (h' : t'.Keeps u) : t.Keeps u := by
  intro id n hn
  obtain ⟨m, hm, hpath, hkey, hparent, hchildren⟩ := h id n hn
  obtain ⟨m', hm', hpath', hkey', hparent', hchildren'⟩ := h' id m hm
  exact ⟨m', hm', hpath'.trans hpath, hkey'.trans hkey, hparent'.trans hparent,
    hchildren.trans hchildren'⟩

theorem find?_eq (t : Trie) (h : key ≠ "") : t.find? key = t.edges.find? (Text.bytes key) := by
  unfold find? seek
  cases hbytes : Text.bytes key with
  | nil => exact absurd (Text.bytes_eq_nil_iff.mp hbytes) h
  | cons b path => rfl

/-- A key that leads to a node goes on leading to it. -/
theorem find?_insert_of_some (h : t.insert key hook = .ok t') (hs : t.find? s = some node) :
    t'.find? s = some node := by
  obtain ⟨-, hedges, -⟩ := insert_eq_ok h
  by_cases hempty : s = ""
  · subst hempty
    exact hs
  · rw [find?_eq t hempty] at hs
    rw [find?_eq t' hempty, hedges]
    exact Edges.find?_insert_of_some hs

theorem Regular.keeps_insert (ht : t.Regular) (h : t.insert key hook = .ok t') : t.Keeps t' := by
  intro id n hn
  have ht' : t'.Regular := ht.insert h
  obtain ⟨-, hedges, -⟩ := insert_eq_ok h
  obtain ⟨hplace, hid⟩ := ht.node?_eq_some.mp hn
  rw [places, List.mem_cons] at hplace
  rcases hplace with hroot | hinner
  · subst hroot
    refine ⟨t'.rootNode, ht'.node?_eq_some.mpr ⟨List.mem_cons_self, hid⟩, rfl, rfl, rfl, ?_⟩
    unfold Node.children rootNode
    rw [hedges]
    exact Edges.ids_prefix_insert _ _
  · obtain ⟨m, hm, hsame, hpath, hparent, hchildren⟩ :=
      Edges.exists_place_insert t.size hook (Text.bytes key) hinner
    rw [← hedges] at hm
    have hfound : m ∈ t'.places := List.mem_cons_of_mem _ hm
    refine ⟨m, ht'.node?_eq_some.mpr ⟨hfound, hsame.trans hid⟩, hpath, ?_, hparent, hchildren⟩
    unfold Node.key
    rw [hpath]

/-- Entering a key is the first step of inserting it with others. -/
theorem insertEach_enter (t : Trie) (key : String) (hook : MethodId)
    (rest : List (String × MethodId)) :
    t.insertEach ((key, hook) :: rest) = (t.enter key hook).2.insertEach rest := by
  rw [insertEach, enter]
  cases t.insert key hook <;> rfl

theorem enter_empty_key (t : Trie) (hook : MethodId) :
    t.enter "" hook = (.error .emptyKey, t) := rfl

/-- Entering a key that is not empty succeeds and tells the node that the key leads to. -/
theorem exists_enter (t : Trie) (hook : MethodId) (h : key ≠ "") :
    ∃ node t', t.insert key hook = .ok t' ∧ t.enter key hook = (.ok node, t') ∧
      t'.find? key = some node := by
  cases hinsert : t.insert key hook with
  | error e => exact absurd (insert_eq_error.mp hinsert).1 h
  | ok t' =>
    obtain ⟨hkey, hedges, -⟩ := insert_eq_ok hinsert
    refine ⟨t.edges.landing t.size root (Text.bytes key), t', rfl, ?_, ?_⟩
    · rw [enter, hinsert]
    · rw [find?_eq t' h, hedges]
      exact Edges.find?_insert hkey t.edges

section InsertEach
variable (keys : List (String × MethodId))

theorem Regular.keeps_insertEach (ht : t.Regular) : t.Keeps (t.insertEach keys) := by
  induction keys generalizing t with
  | nil => exact Keeps.refl t
  | cons entry keys ih =>
    rcases t.insertEach_cons entry keys with ⟨e, -, heq⟩ | ⟨grown, hgrown, heq⟩
    · rw [heq]
      exact ih ht
    · rw [heq]
      exact (ht.keeps_insert hgrown).trans (ih (ht.insert hgrown))

theorem find?_insertEach_of_some (h : t.find? s = some node) :
    (t.insertEach keys).find? s = some node := by
  induction keys generalizing t with
  | nil => exact h
  | cons entry keys ih =>
    rcases t.insertEach_cons entry keys with ⟨e, -, heq⟩ | ⟨grown, hgrown, heq⟩
    · rw [heq]
      exact ih h
    · rw [heq]
      exact ih (find?_insert_of_some hgrown h)

/-- What was there stays, and otherwise the first insertion that is not refused counts. -/
theorem get?_insertEach (t : Trie) (s : String) : (t.insertEach keys).get? s =
    (t.get? s).or (((keys.filter (·.1 ≠ "")).find? (·.1 == s)).map Prod.snd) := by
  induction keys generalizing t with
  | nil => simp [Trie.insertEach]
  | cons entry keys ih =>
    obtain ⟨key, hook⟩ := entry
    rcases t.insertEach_cons (key, hook) keys with ⟨e, herror, heq⟩ | ⟨grown, hgrown, heq⟩
    · have hempty : key = "" := (insert_eq_error.mp herror).1
      rw [heq, ih]
      simp [hempty]
    · have hkey : key ≠ "" := by
        intro hempty
        subst hempty
        cases hgrown
      rw [heq, ih, get?_insert hgrown]
      by_cases hs : s = key
      · subst hs
        simp [hkey]
      · have hne : key ≠ s := Ne.symm hs
        simp [hkey, hs, hne]

end InsertEach

/-- A trie is a map on texts in which the first insertion wins. Whatever was inserted before, a
text has the hook of the first insertion under it that was not refused. Entering a key tells the
node that the key leads to from then on; only the empty key is refused, and then the trie is the
same. The nodes keep their keys, their parents and their children in order. -/
theorem first_insertion_wins (earlier : List (String × MethodId)) :
    (∀ s, (Trie.empty.insertEach earlier).get? s =
      ((earlier.filter (·.1 ≠ "")).find? (·.1 == s)).map Prod.snd) ∧
    (∀ key hook, key ≠ "" →
      ∃ node t, (Trie.empty.insertEach earlier).enter key hook = (.ok node, t) ∧
        ∀ later, (t.insertEach later).find? key = some node) ∧
    (∀ hook, (Trie.empty.insertEach earlier).enter "" hook =
      (.error .emptyKey, Trie.empty.insertEach earlier)) ∧
    ∀ later, (Trie.empty.insertEach earlier).Keeps
      ((Trie.empty.insertEach earlier).insertEach later) := by
  have ht : (Trie.empty.insertEach earlier).Regular := (Reachable.empty.insertEach earlier).regular
  refine ⟨?_, ?_, ?_, ?_⟩
  · intro s
    rw [get?_insertEach, get?_empty, Option.none_or]
  · intro key hook hkey
    obtain ⟨node, t, -, henter, hfind⟩ := exists_enter (Trie.empty.insertEach earlier) hook hkey
    refine ⟨node, t, henter, ?_⟩
    intro later
    exact find?_insertEach_of_some later hfind
  · intro hook
    exact enter_empty_key _ hook
  · intro later
    exact ht.keeps_insertEach later

end Trie

end HookDispatch
