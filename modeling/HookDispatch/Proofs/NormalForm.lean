import HookDispatch.Proofs.TypeName.Cuts
import HookDispatch.Proofs.TypeName.Slots

/-!
Canonical texts as normal forms. A text that is made of words, separators and the signs of types,
in which no comma directly follows another one, can be read back from its canonical text: all
brackets are round or square there, and a comma is missing exactly where it stood before a closing
bracket or at the end. A canonical text has no such comma, so it is its own canonical text.
-/
namespace HookDispatch.TypeName

open Text

def typeSigns : List Char :=
  ['<', '>', '(', ')', '[', ']', ',', ';', '&', '*', '!', '+', '=', '?']

def isPlain : List Char → Bool
  | [] => true
  | ':' :: ':' :: rest => isPlain rest
  | '-' :: '>' :: rest => isPlain rest
  | c :: rest => (isBlank c || isWordChar c || typeSigns.contains c) && isPlain rest

def inked (text : List Char) : List Char := text.filter (!isBlank ·)

/-- The tokens without the commas that stand directly before a closing bracket or at the end. -/
def withoutIdleCommas : List Token → List Token
  | [] => []
  | t :: rest =>
    if t = .mark .comma ∧ rest.head?.all Token.closes then withoutIdleCommas rest
    else t :: withoutIdleCommas rest

def Piece.isToken : Piece → Bool
  | .lifetime _ | .rawMark => false
  | _ => true

def Piece.IsPlain : Piece → Prop
  | .word _ | .pathSep | .arrow => True
  | .sign c => c ∈ typeSigns
  | .lifetime _ | .rawMark => False

variable {c : Char} {p : Piece} {ps : List Piece} {rest text : List Char} {t u : Token}
  {ts : List Token}

section Plain

theorem isPlain_cons (h : isPlain (c :: rest) = true) (hcolon : c = ':' → rest.head? ≠ some ':')
    (hdash : c = '-' → rest.head? ≠ some '>') :
    (isBlank c || isWordChar c || typeSigns.contains c) = true ∧ isPlain rest = true := by
  unfold isPlain at h
  split at h
  · next heq => cases heq
  · next heq =>
    cases heq
    exact absurd rfl (hcolon rfl)
  · next heq =>
    cases heq
    exact absurd rfl (hdash rfl)
  · next heq =>
    cases heq
    exact Bool.and_eq_true_iff.mp h

/-- Only colons and dashes are judged with the character after them. -/
theorem isPlain_cons_of_ne (hcolon : c ≠ ':') (hdash : c ≠ '-') (h : isPlain (c :: rest) = true) :
    (isBlank c || isWordChar c || typeSigns.contains c) = true ∧ isPlain rest = true :=
  isPlain_cons h (fun heq => absurd heq hcolon) (fun heq => absurd heq hdash)

theorem isPlain_of_append {word : List Char} (hword : ∀ c ∈ word, isWordChar c = true)
    (h : isPlain (word ++ rest) = true) : isPlain rest = true := by
  induction word with
  | nil => exact h
  | cons c word ih =>
    have hc := hword c List.mem_cons_self
    have hcolon : c ≠ ':' := by
      rintro rfl
      cases hc
    have hdash : c ≠ '-' := by
      rintro rfl
      cases hc
    exact ih (fun d hd => hword d (List.mem_cons_of_mem c hd)) (isPlain_cons_of_ne hcolon hdash h).2

/-- What is cut off a plain text can stand in one, and the rest is plain. -/
theorem Piece.Cut.isPlain {found : Piece × List Char} (h : Cut c rest found)
    (hc : isBlank c = false) (hplain : TypeName.isPlain (c :: rest) = true) :
    found.1.IsPlain ∧ TypeName.isPlain found.2 = true := by
  cases h with
  | lifetime hquote =>
    subst hquote
    have hchar := (isPlain_cons_of_ne (by decide) (by decide) hplain).1
    exact absurd hchar (by decide)
  | rawMark hr hrest =>
    subst hr hrest
    have hmark := (isPlain_cons_of_ne (by decide) (by decide) hplain).2
    have hchar := (isPlain_cons_of_ne (by decide) (by decide) hmark).1
    exact absurd hchar (by decide)
  | word hword hraw =>
    refine ⟨trivial, isPlain_of_append (isWord_takeWhile hword rest).2 ?_⟩
    rwa [List.cons_append, List.takeWhile_append_dropWhile]
  | pathSep hcolon hrest =>
    subst hcolon hrest
    exact ⟨trivial, hplain⟩
  | arrow hdash hrest =>
    subst hdash hrest
    exact ⟨trivial, hplain⟩
  | sign hquote hword hcolon hdash =>
    obtain ⟨hsign, hrest⟩ := isPlain_cons hplain hcolon hdash
    rw [hc, hword, Bool.false_or, Bool.false_or, List.contains_iff_mem] at hsign
    exact ⟨hsign, hrest⟩

theorem isPlain_of_mem_pieces (h : isPlain text = true) : ∀ p ∈ pieces text, p.IsPlain := by
  fun_induction pieces text with
  | case1 => simp
  | case2 c rest hblank ih =>
    have hcolon : c ≠ ':' := by
      rintro rfl
      exact absurd hblank (by decide)
    have hdash : c ≠ '-' := by
      rintro rfl
      exact absurd hblank (by decide)
    exact ih (isPlain_cons_of_ne hcolon hdash h).2
  | case3 c rest hblank ih =>
    obtain ⟨hpiece, hrest⟩ := (Piece.cut_next c rest).isPlain (Bool.not_eq_true _ ▸ hblank) h
    intro p hp
    rcases List.mem_cons.mp hp with rfl | hp
    · exact hpiece
    · exact ih hrest p hp

theorem Piece.IsPlain.isToken (h : p.IsPlain) : p.isToken = true := by
  cases p with
  | lifetime | rawMark => exact h.elim
  | word | pathSep | arrow | sign => rfl

end Plain

section Tokens

/-- Pieces that are tokens are read as they are shown. -/
theorem tokensOf_eq_flatMap (h : ∀ p ∈ ps, p.isToken = true) :
    tokensOf ps = ps.flatMap Piece.shown := by
  have hfold : ∀ seen, ps.foldl Token.push seen = (ps.flatMap Piece.shown).reverse ++ seen := by
    induction ps with
    | nil => exact fun seen => rfl
    | cons p ps ih =>
      intro seen
      have hpush : Token.push seen p = p.shown.reverse ++ seen := by
        have hp := h p List.mem_cons_self
        cases p with
        | lifetime | rawMark => cases hp
        | word | pathSep | arrow | sign => rfl
      rw [List.foldl_cons, ih (fun q hq => h q (List.mem_cons_of_mem p hq)), hpush,
        List.flatMap_cons, List.reverse_append, List.append_assoc]
  rw [tokensOf, hfold, List.append_nil, List.reverse_reverse]

theorem tokenize_eq_readBack (h : ∀ p ∈ pieces text, p.isToken = true) :
    tokenize text = readBack text :=
  tokensOf_eq_flatMap h

/-- The characters of a piece are characters of the text. -/
theorem chars_subset (hp : p ∈ pieces text) : p.chars ⊆ text := by
  have hspells : ∀ {ps : List Piece} {text : List Char}, Spells ps text → p ∈ ps →
      p.chars ⊆ text := by
    intro ps text h hp
    induction h with
    | nil => cases hp
    | blank hc h ih => exact List.subset_cons_of_subset _ (ih hp)
    | piece hproper hends h ih =>
      rcases List.mem_cons.mp hp with rfl | hp
      · exact List.subset_append_left _ _
      · exact List.subset_append_of_subset_right _ (ih hp)
  exact hspells (spells_pieces text) hp

/-- A text without quotes and hash signs has tokens only. -/
theorem isToken_of_mem_pieces (hquote : '\'' ∉ text) (hmark : '#' ∉ text) :
    ∀ p ∈ pieces text, p.isToken = true := by
  intro p hp
  cases p with
  | lifetime name => exact absurd (chars_subset hp List.mem_cons_self) hquote
  | rawMark => exact absurd (chars_subset hp (by simp [Piece.chars])) hmark
  | word | pathSep | arrow | sign => rfl

/-- A rendered character belongs to a word, is a space, or belongs to a mark. -/
theorem mem_render (hwords : ∀ w, .word w ∈ ts → IsWord w) (h : c ∈ render ts) :
    isWordChar c = true ∨ c = ' ' ∨ ∃ m, .mark m ∈ ts ∧ c ∈ m.spelling := by
  induction ts with
  | nil => cases h
  | cons t rest ih =>
    have hrest : c ∈ render rest →
        isWordChar c = true ∨ c = ' ' ∨ ∃ m, .mark m ∈ t :: rest ∧ c ∈ m.spelling := by
      intro hc
      have hlater := ih (fun w hw => hwords w (List.mem_cons_of_mem t hw)) hc
      rcases hlater with hword | hspace | ⟨m, hm, hc⟩
      · exact .inl hword
      · exact .inr (.inl hspace)
      · exact .inr (.inr ⟨m, List.mem_cons_of_mem t hm, hc⟩)
    cases t with
    | word w =>
      have hw := (hwords w List.mem_cons_self).2
      rw [render, List.mem_append] at h
      rcases h with hc | hc
      · rw [Token.spelling] at hc
        split at hc
        · rcases List.mem_append.mp hc with hc | hc
          · exact .inl (hw c hc)
          · exact .inr (.inl (List.mem_singleton.mp hc))
        · exact .inl (hw c hc)
      · exact hrest hc
    | mark m =>
      rw [render, List.mem_append] at h
      rcases h with hc | hc
      · exact .inr (.inr ⟨m, List.mem_cons_self, hc⟩)
      · exact hrest hc

theorem mem_canonicalChars (h : c ∈ canonicalChars text) :
    isWordChar c = true ∨ c = ' ' ∨ ∃ m, .mark m ∈ tokenize text ∧ c ∈ m.spelling := by
  rw [canonicalChars_eq] at h
  have hrender : c ∈ render (kept (tokenize text)) := (List.rdropWhile_prefix _ _).subset h
  have hwords : ∀ w, .word w ∈ kept (tokenize text) → IsWord w :=
    fun w hw => isWord_of_mem_tokenize (kept_subset _ hw)
  rcases mem_render hwords hrender with hword | hspace | ⟨m, hm, hc⟩
  · exact .inl hword
  · exact .inr (.inl hspace)
  · exact .inr (.inr ⟨m, kept_subset _ hm, hc⟩)

/-- A canonical text without the mark of unknown characters is read token by token. -/
theorem tokenize_canonicalChars (h : .mark .other ∉ tokenize text) :
    tokenize (canonicalChars text) = (kept (tokenize text)).map Token.square := by
  have hquote : '\'' ∉ canonicalChars text := by
    intro hmem
    rcases mem_canonicalChars hmem with hword | hspace | ⟨m, -, hc⟩
    · cases hword
    · cases hspace
    · cases m <;> simp [Mark.spelling] at hc
  have hmark : '#' ∉ canonicalChars text := by
    intro hmem
    rcases mem_canonicalChars hmem with hword | hspace | ⟨m, hm, hc⟩
    · cases hword
    · cases hspace
    · cases m with
      | other => exact h hm
      | _ => simp [Mark.spelling] at hc
  rw [tokenize_eq_readBack (isToken_of_mem_pieces hquote hmark), readBack_canonicalChars]

theorem tokenize_of_isPlain (h : isPlain text = true) : tokenize text = readBack text :=
  tokenize_eq_readBack fun p hp => (isPlain_of_mem_pieces h p hp).isToken

theorem other_not_mem_tokenize (h : isPlain text = true) : .mark .other ∉ tokenize text := by
  rw [tokenize_of_isPlain h, readBack, List.mem_flatMap]
  rintro ⟨p, hp, hshown⟩
  have hplain := isPlain_of_mem_pieces h p hp
  cases p with
  | lifetime | rawMark => exact hplain
  | word | pathSep | arrow => simp [Piece.shown] at hshown
  | sign c =>
    have hsigns : typeSigns.all (Mark.ofChar · ≠ .other) = true := by decide
    have hother := of_decide_eq_true (List.all_eq_true.mp hsigns c hplain)
    exact hother (Token.mark.inj (List.mem_singleton.mp hshown)).symm

end Tokens

section Commas

theorem Piece.Proper.not_blank (h : p.Proper) : ∀ c ∈ p.chars, isBlank c = false := by
  intro c hc
  cases p with
  | word w => exact isWordChar_not_blank (h.2 c hc)
  | lifetime name =>
    rcases List.mem_cons.mp hc with rfl | hc
    · decide
    · exact isWordChar_not_blank (h c hc)
  | sign d =>
    rw [List.mem_singleton.mp hc]
    exact h.1
  | rawMark | pathSep | arrow =>
    rcases List.mem_pair.mp hc with rfl | rfl <;> rfl

/-- The pieces of a text are written with what is not blank in it. -/
theorem inked_eq_flatMap (text : List Char) : inked text = (pieces text).flatMap Piece.chars := by
  have hspells : ∀ {ps : List Piece} {text : List Char}, Spells ps text →
      inked text = ps.flatMap Piece.chars := by
    intro ps text h
    induction h with
    | nil => rfl
    | blank hc h ih =>
      rw [← ih, inked, List.filter_cons_of_neg (by simp [hc]), inked]
    | @piece p ps text hproper hends h ih =>
      have hchars : p.chars.filter (!isBlank ·) = p.chars := by
        rw [List.filter_eq_self]
        intro c hc
        rw [hproper.not_blank c hc, Bool.not_false]
      rw [inked, List.filter_append, hchars, List.flatMap_cons, ← ih, inked]
  exact hspells (spells_pieces text)

theorem Piece.IsPlain.eq_comma (h : p.IsPlain) (hshown : p.shown = [.mark .comma]) :
    p = .sign ',' := by
  cases p with
  | lifetime | rawMark => exact h.elim
  | word | pathSep | arrow => cases hshown
  | sign c =>
    have hsigns : typeSigns.all (fun c => Mark.ofChar c = .comma → c = ',') = true := by decide
    have hcomma := of_decide_eq_true (List.all_eq_true.mp hsigns c h)
    rw [hcomma (Token.mark.inj (List.singleton_inj.mp hshown))]

theorem Piece.IsPlain.exists_shown (h : p.IsPlain) : ∃ t, p.shown = [t] := by
  cases p with
  | lifetime | rawMark => exact h.elim
  | word | pathSep | arrow | sign => exact ⟨_, rfl⟩

/-- Commas that are tokens in a row are characters in a row. -/
theorem commas_infix_chars (h : ∀ p ∈ ps, p.IsPlain)
    (hshown : [.mark .comma, .mark .comma] <:+: ps.flatMap Piece.shown) :
    [',', ','] <:+: ps.flatMap Piece.chars := by
  induction ps with
  | nil => exact absurd (List.eq_nil_of_infix_nil hshown) (by simp)
  | cons p ps ih =>
    have hps : ∀ q ∈ ps, q.IsPlain := fun q hq => h q (List.mem_cons_of_mem p hq)
    obtain ⟨t, ht⟩ := (h p List.mem_cons_self).exists_shown
    rw [List.flatMap_cons, ht, List.singleton_append, List.infix_cons_iff] at hshown
    rcases hshown with hfirst | hlater
    · obtain ⟨hcomma, hnext⟩ := List.cons_prefix_cons.mp hfirst
      rw [← hcomma] at ht
      cases ps with
      | nil => exact absurd (List.prefix_nil.mp hnext) (by simp)
      | cons q ps =>
        obtain ⟨u, hu⟩ := (hps q List.mem_cons_self).exists_shown
        rw [List.flatMap_cons, hu, List.singleton_append] at hnext
        rw [← (List.cons_prefix_cons.mp hnext).1] at hu
        rw [(h p List.mem_cons_self).eq_comma ht, (hps q List.mem_cons_self).eq_comma hu]
        exact List.IsPrefix.isInfix ⟨ps.flatMap Piece.chars, rfl⟩
    · rw [List.flatMap_cons]
      exact (ih hps hlater).trans (List.suffix_append _ _).isInfix

theorem not_commas_infix_tokenize (hplain : isPlain text = true)
    (hcommas : ¬ [',', ','] <:+: inked text) :
    ¬ [.mark .comma, .mark .comma] <:+: tokenize text := by
  intro htwice
  rw [tokenize_of_isPlain hplain] at htwice
  rw [inked_eq_flatMap] at hcommas
  exact hcommas (commas_infix_chars (isPlain_of_mem_pieces hplain) htwice)

end Commas

section Kept

/-- What comes after a comma is no comma. -/
theorem head?_ne_comma (h : ¬ [.mark .comma, .mark .comma] <:+: .mark .comma :: ts) :
    ts.head? ≠ some (.mark .comma) := by
  intro hhead
  obtain ⟨rest, rfl⟩ := List.head?_eq_some_iff.mp hhead
  exact h (List.IsPrefix.isInfix ⟨rest, rfl⟩)

theorem not_commas_infix_of_cons (h : ¬ [.mark .comma, .mark .comma] <:+: t :: ts) :
    ¬ [.mark .comma, .mark .comma] <:+: ts :=
  fun htwice => h (htwice.trans (List.suffix_cons t ts).isInfix)

/-- A token is kept that is not pruned, unless it is one of the commas at the end. -/
theorem kept_cons (hprune : prune (t :: ts) = t :: prune ts)
    (hmore : t ≠ .mark .comma ∨ ∃ u ∈ ts, u ≠ .mark .comma) : kept (t :: ts) = t :: kept ts := by
  rw [kept, kept, hprune, ← List.singleton_append, rdropWhile_append]
  split
  · next hall =>
    have hcommas : ∀ u ∈ prune ts, u = .mark .comma := by
      intro u hu
      exact of_decide_eq_true (List.all_eq_true.mp hall u hu)
    have ht : t ≠ .mark .comma := by
      rcases hmore with ht | ⟨u, hu, hne⟩
      · exact ht
      · exact absurd (hcommas u (mem_prune hu hne)) hne
    rw [List.rdropWhile_singleton, if_neg (by simpa using ht),
      List.rdropWhile_eq_nil_iff.mpr (List.all_eq_true.mp hall)]
  · rfl

/-- The commas that are not kept are those before closing brackets and the last token, if no comma
follows another. -/
theorem kept_eq_withoutIdleCommas (h : ¬ [.mark .comma, .mark .comma] <:+: ts) :
    kept ts = withoutIdleCommas ts := by
  induction ts with
  | nil => rfl
  | cons t rest ih =>
    have hrest := ih (not_commas_infix_of_cons h)
    rw [withoutIdleCommas, ← hrest]
    by_cases ht : t = .mark .comma
    · subst ht
      cases rest with
      | nil => rfl
      | cons u rest =>
        have hu : u ≠ .mark .comma := by
          intro heq
          exact head?_ne_comma h (by rw [heq]; rfl)
        split
        · next hidle =>
          have hcloses : (u :: rest).head?.any Token.closes = true := hidle.2
          rw [kept, kept, prune_cons_of_closes hcloses]
        · next hshown =>
          exact kept_cons (prune_cons_of_not hshown) (.inr ⟨u, List.mem_cons_self, hu⟩)
    · rw [if_neg fun hidle => ht hidle.1]
      exact kept_cons (prune_cons_of_ne ht) (.inl ht)

theorem head?_withoutIdleCommas (h : ts.head? ≠ some (.mark .comma)) :
    (withoutIdleCommas ts).head? = ts.head? := by
  cases ts with
  | nil => rfl
  | cons t rest =>
    have ht : t ≠ .mark .comma := fun heq => h (congrArg some heq)
    rw [withoutIdleCommas, if_neg fun hidle => ht hidle.1]
    rfl

/-- Nothing is left to be dropped. -/
theorem withoutIdleCommas_again (h : ¬ [.mark .comma, .mark .comma] <:+: ts) :
    ¬ [.mark .comma, .mark .comma] <:+: withoutIdleCommas ts ∧
      withoutIdleCommas (withoutIdleCommas ts) = withoutIdleCommas ts := by
  induction ts with
  | nil => exact ⟨h, rfl⟩
  | cons t rest ih =>
    obtain ⟨hcommas, hagain⟩ := ih (not_commas_infix_of_cons h)
    rw [withoutIdleCommas]
    split
    · exact ⟨hcommas, hagain⟩
    · next hshown =>
      -- A comma that stays is followed by the token that it was followed by.
      have hhead : t = .mark .comma → (withoutIdleCommas rest).head? = rest.head? := by
        rintro rfl
        exact head?_withoutIdleCommas (head?_ne_comma h)
      constructor
      · rw [List.infix_cons_iff, not_or]
        refine ⟨?_, hcommas⟩
        intro hfirst
        obtain ⟨rfl, hnext⟩ := List.cons_prefix_cons.mp hfirst
        apply head?_ne_comma h
        obtain ⟨more, hmore⟩ := hnext
        rw [← hhead rfl, ← hmore]
        rfl
      · rw [withoutIdleCommas, if_neg, hagain]
        rintro ⟨rfl, hcloses⟩
        rw [hhead rfl] at hcloses
        exact hshown ⟨rfl, hcloses⟩

theorem Token.closes_square (t : Token) : t.square.closes = t.closes := by
  cases t with
  | word w => rfl
  | mark m => cases m <;> rfl

theorem Token.square_eq_comma_iff (t : Token) : t.square = .mark .comma ↔ t = .mark .comma := by
  constructor
  · exact Token.eq_comma_of_square
  · rintro rfl
    rfl

theorem prune_map_square (ts : List Token) :
    prune (ts.map Token.square) = (prune ts).map Token.square := by
  induction ts with
  | nil => rfl
  | cons t rest ih =>
    have hcloses :
        (rest.map Token.square).head?.any Token.closes = rest.head?.any Token.closes := by
      cases rest with
      | nil => rfl
      | cons u rest => exact u.closes_square
    simp only [List.map_cons, prune, t.square_eq_comma_iff, hcloses, ih]
    split <;> rfl

theorem kept_map_square (ts : List Token) :
    kept (ts.map Token.square) = (kept ts).map Token.square := by
  have hcomma : (fun t : Token => decide (t.square = .mark .comma)) =
      fun t => decide (t = .mark .comma) := by
    funext t
    exact decide_eq_decide.mpr t.square_eq_comma_iff
  rw [kept, kept, prune_map_square, List.rdropWhile, List.rdropWhile, ← List.map_reverse,
    List.dropWhile_map, List.map_reverse]
  exact congrArg _ (congrArg _ (congrArg (List.dropWhile · _) hcomma))

theorem Token.square_square (t : Token) : t.square.square = t.square := by
  cases t with
  | word w => rfl
  | mark m => cases m <;> rfl

end Kept

/-- A canonical text is a normal form. -/
theorem canonical_normal_form {text : String} (hplain : isPlain text.toList = true)
    (hcommas : ¬ [',', ','] <:+: inked text.toList) :
    canonicalize (canonicalize text) = canonicalize text ∧
    tokenize (canonicalize text).toList =
      (withoutIdleCommas (tokenize text.toList)).map Token.square := by
  have hsingle := not_commas_infix_tokenize hplain hcommas
  obtain ⟨hsingle', hagain⟩ := withoutIdleCommas_again hsingle
  have htokens : tokenize (canonicalize text).toList =
      (withoutIdleCommas (tokenize text.toList)).map Token.square := by
    rw [canonicalize, String.toList_ofList, tokenize_canonicalChars (other_not_mem_tokenize hplain),
      kept_eq_withoutIdleCommas hsingle]
  refine ⟨?_, htokens⟩
  rw [canonicalize_eq_iff_kept, htokens, kept_map_square, kept_eq_withoutIdleCommas hsingle',
    kept_eq_withoutIdleCommas hsingle, hagain, List.map_map]
  exact List.map_congr_left fun t _ => t.square_square

/-- An argument list with commas before both of its closing brackets, and a bound at the end. -/
theorem canonical_normal_form_specimen :
    canonicalize (canonicalize "HashMap < String, Vec<u8,> ,> -> A +") =
      canonicalize "HashMap < String, Vec<u8,> ,> -> A +" ∧
    tokenize (canonicalize "HashMap < String, Vec<u8,> ,> -> A +").toList =
      (withoutIdleCommas (tokenize "HashMap < String, Vec<u8,> ,> -> A +".toList)).map
        Token.square :=
  canonical_normal_form (by decide +kernel) (by decide +kernel)

/-- Of commas in a row only the last one is taken away. -/
example : canonicalize "(A,,)" = "(A, )" ∧ canonicalize (canonicalize "(A,,)") = "(A)" := by
  decide +kernel

end HookDispatch.TypeName
