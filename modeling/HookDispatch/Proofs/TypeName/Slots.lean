import HookDispatch.Proofs.TypeName.Spelling

/-!
Empty places in the lists of a written type. What is dropped from the tokens is commas only, so
everything else can be counted in a canonical text. One comma more is not shown exactly if it would
stand at the end of the text or alone before a closing bracket. The tokens of a text are those of
its parts, unless the first part ends with a plus and a lifetime takes it away.
-/
namespace HookDispatch.TypeName

open Text

variable {as bs ts seen : List Token} {t : Token}

section Kept

theorem prune_append (h : as.getLast? = some (.mark .comma) → bs.head?.any Token.closes = false) :
    prune (as ++ bs) = prune as ++ prune bs := by
  induction as with
  | nil => rfl
  | cons a as ih =>
    cases as with
    | nil =>
      -- The last token of the first part is the only one that sees the second part.
      have hlast : ¬ (a = .mark .comma ∧ bs.head?.any Token.closes = true) := by
        rintro ⟨rfl, hcloses⟩
        rw [h rfl] at hcloses
        cases hcloses
      rw [List.singleton_append, prune_cons_of_not hlast, prune_cons_of_not (by simp)]
      rfl
    | cons b as =>
      have hrest := ih h
      have hhead : (b :: as ++ bs).head? = (b :: as).head? := rfl
      by_cases hidle : a = .mark .comma ∧ (b :: as).head?.any Token.closes = true
      · obtain ⟨rfl, hcloses⟩ := hidle
        rw [List.cons_append, prune_cons_of_closes hcloses, prune_cons_of_closes (hhead ▸ hcloses),
          hrest]
      · rw [List.cons_append, prune_cons_of_not hidle, prune_cons_of_not (hhead ▸ hidle), hrest]
        rfl

/-- Tokens other than commas are kept. -/
theorem countP_kept {p : Token → Bool} (hp : p (.mark .comma) = false) (ts : List Token) :
    (kept ts).countP p = ts.countP p := by
  have hprune : (prune ts).countP p = ts.countP p := by
    induction ts with
    | nil => rfl
    | cons t ts ih =>
      unfold prune
      split
      · rename_i hidle
        rw [ih, hidle.1, List.countP_cons_of_neg (by simp [hp])]
      · rw [List.countP_cons, List.countP_cons, ih]
  have hcommas : ((prune ts).rtakeWhile (· = .mark .comma)).countP p = 0 := by
    rw [List.countP_eq_zero]
    intro t ht
    have hcomma : t = .mark .comma := by simpa using List.mem_rtakeWhile_imp ht
    rw [hcomma, hp]
    exact Bool.false_ne_true
  have hsplit : kept ts ++ (prune ts).rtakeWhile (· = .mark .comma) = prune ts :=
    List.rdropWhile_append_rtakeWhile
  rw [← hprune, ← hsplit, List.countP_append, hcommas, Nat.add_zero]

/-- A comma between two rows of tokens that is not shown. -/
def Idle (as bs : List Token) : Prop :=
  (∀ t ∈ bs, t = .mark .comma) ∨
    bs.head?.any Token.closes = true ∧ as.getLast? ≠ some (.mark .comma)

theorem kept_of_idle (h : Idle as bs) : kept (as ++ .mark .comma :: bs) = kept (as ++ bs) := by
  rcases h with hcommas | ⟨hcloses, hlast⟩
  · have hhead : bs.head?.any Token.closes = false := by
      cases bs with
      | nil => rfl
      | cons b bs =>
        rw [hcommas b List.mem_cons_self]
        rfl
    have hall : ∀ {cs : List Token}, (∀ t ∈ cs, t = .mark .comma) →
        (prune cs).all (· = .mark .comma) = true := by
      intro cs hcs
      rw [List.all_eq_true]
      intro t ht
      exact decide_eq_true (hcs t ((prune_sublist cs).subset ht))
    have hcons : ∀ t ∈ .mark .comma :: bs, t = .mark .comma := by
      intro t ht
      rcases List.mem_cons.mp ht with rfl | ht
      · rfl
      · exact hcommas t ht
    unfold kept
    rw [prune_append (fun _ => rfl), prune_append (fun _ => hhead), rdropWhile_append,
      rdropWhile_append, if_pos (hall hcons), if_pos (hall hcommas)]
  · unfold kept
    rw [prune_append (fun _ => rfl), prune_cons_of_closes hcloses,
      prune_append (fun heq => absurd heq hlast)]

/-- What stands before other tokens than commas is not cut off. -/
theorem length_rdropWhile_append (h : ∃ t ∈ prune bs, t ≠ .mark .comma) (cs : List Token) :
    ((cs ++ prune bs).rdropWhile (· = .mark .comma)).length =
      cs.length + ((prune bs).rdropWhile (· = .mark .comma)).length := by
  obtain ⟨t, ht, hne⟩ := h
  have hsome : ¬ (prune bs).all (· = .mark .comma) = true := by
    rw [List.all_eq_true]
    intro hall
    exact hne (of_decide_eq_true (hall t ht))
  rw [rdropWhile_append, if_neg hsome, List.length_append]

theorem mem_prune (ht : t ∈ ts) (hne : t ≠ .mark .comma) : t ∈ prune ts := by
  induction ts with
  | nil => exact ht
  | cons t' ts ih =>
    unfold prune
    split
    · rename_i hidle
      rcases List.mem_cons.mp ht with rfl | ht
      · exact absurd hidle.1 hne
      · exact ih ht
    · rcases List.mem_cons.mp ht with rfl | ht
      · exact List.mem_cons_self
      · exact List.mem_cons_of_mem t' (ih ht)

/-- A comma that is shown makes a difference. -/
theorem length_kept_of_not_idle (h : ¬ Idle as bs) :
    (kept (as ++ .mark .comma :: bs)).length = (kept (as ++ bs)).length + 1 := by
  obtain ⟨hmore, hshown⟩ := not_or.mp h
  push Not at hmore
  obtain ⟨t, ht, hne⟩ := hmore
  have hkept := length_rdropWhile_append ⟨t, mem_prune ht hne, hne⟩
  unfold kept
  rw [prune_append (fun _ => rfl)]
  by_cases hcloses : bs.head?.any Token.closes = true
  · -- The comma is dropped in front of the bracket, but the one before it no longer is.
    have hlast : as.getLast? = some (.mark .comma) := by
      by_contra hlast
      exact hshown ⟨hcloses, hlast⟩
    obtain ⟨front, rfl⟩ := List.getLast?_eq_some_iff.mp hlast
    have hfront : prune (front ++ [.mark .comma]) = prune front ++ [.mark .comma] :=
      prune_append (fun _ => rfl)
    rw [prune_cons_of_closes hcloses, hfront, List.append_assoc front, List.singleton_append,
      prune_append (fun _ => rfl), prune_cons_of_closes hcloses, hkept, hkept, List.length_append,
      List.length_singleton]
    omega
  · have hbs := Bool.eq_false_iff.mpr hcloses
    rw [prune_cons_of_not (fun hidle => hcloses hidle.2), prune_append (fun _ => hbs),
      ← List.singleton_append, ← List.append_assoc, hkept, hkept, List.length_append,
      List.length_singleton]
    omega

end Kept

section Parts

theorem foldl_push_append (h : seen.head? ≠ some (.mark .plus)) (top : List Token)
    (ps : List Piece) :
    ps.foldl Token.push (top ++ seen) = ps.foldl Token.push top ++ seen := by
  induction ps generalizing top with
  | nil => rfl
  | cons p ps ih =>
    have hpush : Token.push (top ++ seen) p = Token.push top p ++ seen := by
      cases p with
      | lifetime name =>
        cases top with
        | nil =>
          cases seen with
          | nil => rfl
          | cons t seen =>
            have ht : t ≠ .mark .plus := fun heq => h (by rw [heq]; rfl)
            simp [Token.push, ht]
        | cons t top =>
          by_cases ht : t = .mark .plus
          · rw [ht]
            rfl
          · simp [Token.push, ht]
      | _ => rfl
    rw [List.foldl_cons, List.foldl_cons, hpush, ih]

theorem tokensOf_append {front : List Piece} (h : (tokensOf front).getLast? ≠ some (.mark .plus))
    (back : List Piece) : tokensOf (front ++ back) = tokensOf front ++ tokensOf back := by
  unfold tokensOf at h ⊢
  rw [List.getLast?_reverse] at h
  have hback := foldl_push_append h [] back
  rw [List.nil_append] at hback
  rw [List.foldl_append, hback, List.reverse_append]

theorem push_eq_cons {p : Piece} (hp : Token.push [] p = [t]) (seen : List Token) :
    Token.push seen p = t :: seen := by
  cases p with
  | lifetime | rawMark => cases hp
  | _ =>
    cases hp
    rfl

/-- A text is parted by any token but a plus. -/
theorem tokensOf_append_cons {p : Piece} (hp : Token.push [] p = [t]) (ht : t ≠ .mark .plus)
    (front back : List Piece) :
    tokensOf (front ++ p :: back) = tokensOf front ++ t :: tokensOf back := by
  have hback : ∀ seen, back.foldl Token.push (t :: seen) =
      back.foldl Token.push [] ++ t :: seen := by
    intro seen
    refine foldl_push_append ?_ [] back
    rw [List.head?_cons, ne_eq, Option.some.injEq]
    exact ht
  unfold tokensOf
  rw [List.foldl_append, List.foldl_cons, push_eq_cons hp, hback, List.reverse_append,
    List.reverse_cons, List.append_assoc, List.singleton_append]

theorem tokensOf_append_of_head? {p : Piece} {back : List Piece} (h : back.head? = some p)
    (hp : Token.push [] p = [t]) (ht : t ≠ .mark .plus) (front : List Piece) :
    tokensOf (front ++ back) = tokensOf front ++ tokensOf back := by
  obtain ⟨rest, rfl⟩ := List.head?_eq_some_iff.mp h
  have hback := tokensOf_append_cons hp ht [] rest
  rw [List.nil_append] at hback
  rw [tokensOf_append_cons hp ht, hback]
  rfl

theorem tokensOf_append_of_getLast? {p : Piece} {front : List Piece}
    (h : front.getLast? = some p) (hp : Token.push [] p = [t]) (ht : t ≠ .mark .plus)
    (back : List Piece) : tokensOf (front ++ back) = tokensOf front ++ tokensOf back := by
  obtain ⟨earlier, rfl⟩ := List.getLast?_eq_some_iff.mp h
  have hfront : tokensOf (earlier ++ [p]) = tokensOf earlier ++ [t] :=
    tokensOf_append_cons hp ht earlier []
  apply tokensOf_append
  rw [hfront, List.getLast?_append, ne_eq]
  simpa using ht

end Parts

end HookDispatch.TypeName
