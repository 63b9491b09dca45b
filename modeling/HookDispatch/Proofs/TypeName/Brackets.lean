import HookDispatch.Proofs.TypeName.Spelling
import HookDispatch.TypeName.Basic

/-!
Brackets in the tokens of a type and in its canonical text. The text is read by a depth only, as
the angle brackets of a type are square brackets there. If the brackets of the tokens nest and
match, and a comma outside of them is followed by nothing but commas, then the text closes all its
brackets and has no comma outside of them. So a comma at depth zero ends one type in a list.
-/
namespace HookDispatch

namespace TypeName

open Text

def Mark.closer? : Mark → Option Mark
  | .less => some .greater
  | .parenOpen => some .parenClose
  | .squareOpen => some .squareClose
  | _ => none

/-- Takes the innermost of the closing marks that are owed, if it is the given one. -/
def payOff (m : Mark) : List Mark → Option (List Mark)
  | [] => none
  | top :: outer => if top = m then some outer else none

/-- The closing marks that are owed after one more token, none if it closes another bracket than
the innermost. -/
def Token.nest (owed : List Mark) : Token → Option (List Mark)
  | .word _ => some owed
  | .mark m =>
    match m.closer? with
    | some closer => some (closer :: owed)
    | none => if (Token.mark m).closes then payOff m owed else some owed

def enclosed (owed : List Mark) : List Token → Bool
  | [] => owed.isEmpty
  | t :: rest =>
    if t = .mark .comma ∧ owed = [] then rest.all (· = .mark .comma)
    else (t.nest owed).any (enclosed · rest)

/-- A type that can stand in a list of types. -/
def Enclosed (t : TypeName) : Prop := enclosed [] (tokenize t.source.toList) = true

instance (t : TypeName) : Decidable t.Enclosed :=
  inferInstanceAs (Decidable (enclosed [] (tokenize t.source.toList) = true))

/-- The bracket depth after one more character, none at a comma outside of all brackets and at a
bracket that closes nothing. -/
def depthStep (depth : Nat) (c : Char) : Option Nat :=
  if c = '(' ∨ c = '[' then some (depth + 1)
  else if c = ')' ∨ c = ']' then (if depth = 0 then none else some (depth - 1))
  else if c = ',' ∧ depth = 0 then none
  else some depth

def depthAfter (depth : Nat) (cs : List Char) : Option Nat := cs.foldlM depthStep depth

def Closed (cs : List Char) : Prop := depthAfter 0 cs = some 0

variable {d e : Nat} {cs : List Char} {t : Token} {owed owed' : List Mark}

theorem depthAfter_append (d : Nat) (cs ds : List Char) :
    depthAfter d (cs ++ ds) = (depthAfter d cs).bind (depthAfter · ds) := by
  unfold depthAfter
  rw [List.foldlM_append]
  rfl

theorem depthAfter_cons (d : Nat) (c : Char) (cs : List Char) :
    depthAfter d (c :: cs) = (depthStep d c).bind (depthAfter · cs) := by
  unfold depthAfter
  rw [List.foldlM_cons]
  rfl

/-- The closing mark that is owed first is the one that is taken. -/
theorem payOff_eq_some {m : Mark} : payOff m owed = some owed' ↔ owed = m :: owed' := by
  cases owed with
  | nil => simp [payOff]
  | cons top outer =>
    unfold payOff
    split
    · rename_i htop
      simp [htop]
    · rename_i htop
      simp [htop]

/-- Characters that are neither brackets nor commas keep the depth. -/
theorem depthAfter_of_flat (h : ∀ c ∈ cs, depthStep d c = some d) : depthAfter d cs = some d := by
  induction cs with
  | nil => rfl
  | cons c cs ih =>
    rw [depthAfter_cons, h c List.mem_cons_self, Option.bind_some]
    apply ih
    intro c' hc'
    exact h c' (List.mem_cons_of_mem c hc')

theorem isWordChar_separator {c : Char} (h : c ∈ ['(', '[', ')', ']', ',']) :
    isWordChar c = false := by
  simp only [List.mem_cons, List.not_mem_nil, or_false] at h
  rcases h with rfl | rfl | rfl | rfl | rfl <;> rfl

theorem depthStep_word {c : Char} (h : isWordChar c = true) (d : Nat) : depthStep d c = some d := by
  have hsign : c ∉ ['(', '[', ')', ']', ','] := by
    intro hmem
    rw [isWordChar_separator hmem] at h
    cases h
  simp only [List.mem_cons, List.not_mem_nil, or_false, not_or] at hsign
  simp [depthStep, hsign]

/-- A token that nests moves the depth of its spelling by as much. -/
theorem depthAfter_spelling (hnest : t.nest owed = some owed') (hword : ∀ w, t = .word w → IsWord w)
    (hinside : ¬(t = .mark .comma ∧ owed = [])) (next : Option Token) :
    depthAfter owed.length (t.spelling next) = some owed'.length := by
  cases t with
  | word w =>
    have hflat : depthAfter owed.length w = some owed.length := by
      apply depthAfter_of_flat
      intro c hc
      exact depthStep_word ((hword w rfl).2 c hc) owed.length
    have howed : owed = owed' := Option.some.inj hnest
    rw [← howed, Token.spelling]
    split
    · rw [depthAfter_append, hflat]
      rfl
    · exact hflat
  | mark m =>
    cases m with
    | comma =>
      have hopen : owed ≠ [] := by
        intro h
        exact hinside ⟨rfl, h⟩
      have howed : owed = owed' := Option.some.inj hnest
      rw [← howed, Token.spelling]
      split
      · rfl
      · simp [Mark.spelling, depthStep, hopen, depthAfter]
    | greater | parenClose | squareClose =>
      rw [payOff_eq_some.mp hnest]
      rfl
    | _ =>
      cases hnest
      rfl

/-- Separators do not move the depth. -/
theorem depthAfter_separators (hcs : ∀ c ∈ cs, isTrailing c = true)
    (h : depthAfter d cs = some e) : d = e := by
  induction cs with
  | nil => exact Option.some.inj h
  | cons c cs ih =>
    have hc : c = ',' ∨ c = ' ' := by simpa [isTrailing] using hcs c List.mem_cons_self
    have hstay : ∀ d', depthStep d c = some d' → d' = d := by
      intro d' hstep
      rcases hc with rfl | rfl
      · simp [depthStep] at hstep
        exact hstep.2.symm
      · exact (Option.some.inj hstep).symm
    rw [depthAfter_cons, Option.bind_eq_some_iff] at h
    obtain ⟨d', hstep, hrest⟩ := h
    rw [hstay d' hstep] at hrest
    exact ih (fun c' hc' => hcs c' (List.mem_cons_of_mem c hc')) hrest

/-- So they can be cut off at the end. -/
theorem depthAfter_dropEnd (h : depthAfter d cs = some e) :
    depthAfter d (dropEndWhile isTrailing cs) = some e := by
  have hsplit : dropEndWhile isTrailing cs ++ cs.rtakeWhile isTrailing = cs :=
    List.rdropWhile_append_rtakeWhile
  rw [← hsplit, depthAfter_append, Option.bind_eq_some_iff] at h
  obtain ⟨d', hkept, hcut⟩ := h
  have hsame : d' = e := depthAfter_separators (fun c hc => List.mem_rtakeWhile_imp hc) hcut
  rw [hkept, hsame]

/-- Commas alone are spelled with separators alone. -/
theorem all_isTrailing_spell {ts : List Token} (h : ∀ t ∈ ts, t = .mark .comma) :
    (spell ts).all isTrailing = true := by
  rw [spell_eq_render]
  apply all_isTrailing_render
  intro t ht
  exact h t ((prune_sublist ts).subset ht)

/-- The canonical text of a type that can stand in a list is closed. -/
theorem depthAfter_dropEnd_spell {ts : List Token} (h : enclosed owed ts = true)
    (hwords : ∀ w, .word w ∈ ts → IsWord w) :
    depthAfter owed.length (dropEndWhile isTrailing (spell ts)) = some 0 := by
  induction ts generalizing owed with
  | nil =>
    rw [List.isEmpty_iff.mp h]
    rfl
  | cons t rest ih =>
    by_cases hcomma : t = .mark .comma ∧ owed = []
    · rw [enclosed, if_pos hcomma, List.all_eq_true] at h
      have hcommas : ∀ t' ∈ t :: rest, t' = .mark .comma := by
        intro t' ht'
        rcases List.mem_cons.mp ht' with heq | hrest
        · rw [heq]
          exact hcomma.1
        · exact of_decide_eq_true (h t' hrest)
      rw [dropEndWhile_of_all (all_isTrailing_spell hcommas), hcomma.2]
      rfl
    · rw [enclosed, if_neg hcomma, Option.any_eq_true] at h
      obtain ⟨owed', hnest, hrest⟩ := h
      have hspelling := depthAfter_spelling hnest (fun w hw => hwords w (hw ▸ List.mem_cons_self))
        hcomma rest.head?
      have hkept := ih hrest (fun w hw => hwords w (List.mem_cons_of_mem t hw))
      rw [spell, dropEndWhile_append]
      split
      · rename_i hall
        rw [dropEndWhile_of_all hall] at hkept
        rw [← Option.some.inj hkept]
        exact depthAfter_dropEnd hspelling
      · rw [depthAfter_append, hspelling]
        exact hkept

theorem closed_canonical {t : TypeName} (h : t.Enclosed) : Closed t.canonical.toList := by
  unfold canonical canonicalize canonicalChars
  rw [String.toList_ofList]
  apply depthAfter_dropEnd_spell h
  intro w
  exact isWord_of_mem_tokenize

end TypeName

end HookDispatch
