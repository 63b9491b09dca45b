import HookDispatch.Proofs.TypeName.Brackets

/-!
Texts whose brackets can be told apart in their spelling. Canonical texts show angle brackets as
square ones, but where an angle bracket opens after a name only, and a square bracket nowhere after
a name, the token before a bracket tells what it was, and it closes as it opened. Of such a text the
canonical text shows all tokens but the commas that are left out.
-/
namespace HookDispatch.TypeName

/-- Whether a bracket after the token holds the arguments of a name. The words `mut` and `const` are
no names. -/
def Token.isName : Token → Bool
  | .word w => w ≠ "mut".toList ∧ w ≠ "const".toList
  | .mark .pathSep => true
  | .mark _ => false

def Token.fits (named : Bool) : Token → Bool
  | .mark .less => named
  | .mark .squareOpen => !named
  | _ => true

theorem Mark.square_eq_self {m : Mark} (hopen : m.square ≠ .squareOpen)
    (hclose : m.square ≠ .squareClose) : m.square = m := by
  cases m with
  | less => exact absurd rfl hopen
  | greater => exact absurd rfl hclose
  | _ => rfl

structure Place where
  /-- The marks that the open brackets close with, the innermost first. -/
  owed : List Mark := []
  /-- Whether the last token was a name. -/
  named : Bool := false

namespace Place

def step (p : Place) (t : Token) : Option Place :=
  if t.fits p.named then (t.nest p.owed).map (mk · t.isName) else none

def run (p : Place) (ts : List Token) : Option Place := ts.foldlM step p

variable {p q : Place} {t u : Token} {ts us : List Token}

@[simp]
theorem run_nil (p : Place) : p.run [] = some p := rfl

@[simp]
theorem run_cons (p : Place) (t : Token) (ts : List Token) :
    p.run (t :: ts) = (p.step t).bind (·.run ts) := by
  unfold run
  rw [List.foldlM_cons]
  rfl

@[simp]
theorem run_append (p : Place) (ts us : List Token) :
    p.run (ts ++ us) = (p.run ts).bind (·.run us) := by
  unfold run
  rw [List.foldlM_append]
  rfl

theorem step_isSome : (p.step t).isSome = true ↔
    t.fits p.named = true ∧ (t.nest p.owed).isSome = true := by
  unfold step
  split <;> simp_all

/-- An opening bracket is told by the token before it. -/
theorem eq_of_square_open {m : Mark} (h : (p.step (.mark m)).isSome = true)
    (hm : m.square = .squareOpen) : m = if p.named then .less else .squareOpen := by
  have hfits := (step_isSome.mp h).1
  cases m with
  | less =>
    have hnamed : p.named = true := hfits
    rw [if_pos hnamed]
  | squareOpen =>
    have hnamed : p.named = false := by simpa [Token.fits] using hfits
    rw [hnamed]
    rfl
  | _ => cases hm

/-- A closing bracket is told by the bracket that it closes. -/
theorem eq_of_square_close {m : Mark} (h : (p.step (.mark m)).isSome = true)
    (hm : m.square = .squareClose) : p.owed.head? = some m := by
  have hpaid : (payOff m p.owed).isSome = true := by
    have hnest := (step_isSome.mp h).2
    cases m with
    | greater | squareClose => exact hnest
    | _ => cases hm
  obtain ⟨outer, houter⟩ := Option.isSome_iff_exists.mp hpaid
  rw [payOff_eq_some.mp houter, List.head?_cons]

/-- A token is known by its spelling at the place where it is read. -/
theorem eq_of_square (ht : (p.step t).isSome = true) (hu : (p.step u).isSome = true)
    (h : t.square = u.square) : t = u := by
  cases t with
  | word w =>
    cases u with
    | word v => exact h
    | mark n => cases h
  | mark m =>
    cases u with
    | word v => cases h
    | mark n =>
      have hmn : m.square = n.square := Token.mark.inj h
      by_cases hopen : m.square = .squareOpen
      · rw [eq_of_square_open ht hopen, eq_of_square_open hu (hmn.symm.trans hopen)]
      · by_cases hclose : m.square = .squareClose
        · have hm := eq_of_square_close ht hclose
          rw [eq_of_square_close hu (hmn.symm.trans hclose)] at hm
          rw [Option.some.inj hm]
        · have hself := Mark.square_eq_self hopen hclose
          rw [hmn] at hopen hclose
          have hself' := Mark.square_eq_self hopen hclose
          rw [← hself, hmn, hself']

/-- Tokens that can be read are known by their spellings. -/
theorem run_inj (hts : (p.run ts).isSome = true) (hus : (p.run us).isSome = true)
    (h : ts.map Token.square = us.map Token.square) : ts = us := by
  induction ts generalizing p us with
  | nil => exact (List.map_eq_nil_iff.mp h.symm).symm
  | cons t ts ih =>
    cases us with
    | nil => cases h
    | cons u us =>
      obtain ⟨hsquare, hrest⟩ := List.cons.inj h
      rw [run_cons] at hts hus
      have ht := Option.isSome_of_isSome_bind hts
      have hu := Option.isSome_of_isSome_bind hus
      have hfirst := eq_of_square ht hu hsquare
      rw [← hfirst] at hus
      obtain ⟨q, hq⟩ := Option.isSome_iff_exists.mp ht
      rw [hq, Option.bind_some] at hts hus
      rw [hfirst, ih hts hus hrest]

/-- What closes a bracket can be read after a name and elsewhere. -/
theorem step_closes (h : t.closes = true) (named : Bool) :
    Place.step ⟨p.owed, named⟩ t = p.step t := by
  have hfits : ∀ named', t.fits named' = true := by
    intro named'
    cases t with
    | word w => rfl
    | mark m => cases m <;> first | rfl | cases h
  unfold step
  rw [if_pos (hfits named), if_pos (hfits p.named)]

theorem run_prune (h : (p.run ts).isSome = true) : (p.run (prune ts)).isSome = true := by
  induction ts generalizing p with
  | nil => exact h
  | cons t rest ih =>
    rw [run_cons] at h
    obtain ⟨q, hq⟩ := Option.isSome_iff_exists.mp (Option.isSome_of_isSome_bind h)
    rw [hq, Option.bind_some] at h
    have hrest := ih h
    unfold prune
    split
    · rename_i hdrop
      obtain ⟨rfl, hcloses⟩ := hdrop
      have howed : q.owed = p.owed := by
        cases hq
        rfl
      cases rest with
      | nil => cases hcloses
      | cons closer rest =>
        have hne : closer ≠ .mark .comma := by
          rintro rfl
          cases hcloses
        rw [prune_cons_of_ne hne, run_cons] at hrest ⊢
        rwa [← step_closes hcloses q.named, ← howed]
    · rw [run_cons, hq]
      exact hrest

/-- The commas that are left out are not needed for reading. -/
theorem run_kept (h : (p.run ts).isSome = true) : (p.run (kept ts)).isSome = true := by
  have hprune := run_prune h
  have hsplit : kept ts ++ (prune ts).rtakeWhile (· = .mark .comma) = prune ts :=
    List.rdropWhile_append_rtakeWhile
  rw [← hsplit, run_append] at hprune
  exact Option.isSome_of_isSome_bind hprune

end Place

/-- The text of a type whose brackets are told apart by the tokens before them. -/
def Legible (text : String) : Prop := (Place.run {} (tokenize text.toList)).isSome = true

theorem canonicalize_eq_iff_of_legible {t u : String} (ht : Legible t) (hu : Legible u) :
    canonicalize t = canonicalize u ↔ kept (tokenize t.toList) = kept (tokenize u.toList) := by
  rw [canonicalize_eq_iff_kept]
  constructor
  · exact Place.run_inj (Place.run_kept ht) (Place.run_kept hu)
  · intro h
    rw [h]

end HookDispatch.TypeName
