import HookDispatch.Proofs.TypeName.Words

/-!
Reading canonical texts back. The commas that are not spelled are dropped from the tokens, and the
other tokens are spelled one by one. Cut into pieces again, the spelling gives these tokens, with
square brackets for the angle brackets. So the canonical text shows this of a text and no more,
whatever the text is.
-/
namespace HookDispatch.TypeName

open Text

def Mark.square : Mark → Mark
  | .less => .squareOpen
  | .greater => .squareClose
  | m => m

def Token.square : Token → Token
  | .word w => .word w
  | .mark m => .mark m.square

def prune : List Token → List Token
  | [] => []
  | t :: rest =>
    if t = .mark .comma ∧ rest.head?.any Token.closes then prune rest else t :: prune rest

/-- The tokens that a canonical text shows: no comma before a closing bracket, none at the end. -/
def kept (ts : List Token) : List Token := (prune ts).rdropWhile (· = .mark .comma)

def render : List Token → List Char
  | [] => []
  | .word w :: rest => (Token.word w).spelling rest.head? ++ render rest
  | .mark m :: rest => m.spelling ++ render rest

def Piece.shown : Piece → List Token
  | .word w => [.word w]
  | .lifetime _ => []
  | .rawMark => [.word ['r'], .mark .other]
  | .pathSep => [.mark .pathSep]
  | .arrow => [.mark .arrow]
  | .sign c => [.mark (.ofChar c)]

def readBack (text : List Char) : List Token := (pieces text).flatMap Piece.shown

variable {c : Char} {w rest text tail : List Char} {t : Token} {ts : List Token}

section Prune

theorem prune_cons_of_closes (h : ts.head?.any Token.closes = true) :
    prune (.mark .comma :: ts) = prune ts := by
  rw [prune, if_pos ⟨rfl, h⟩]

theorem prune_cons_of_not (h : ¬ (t = .mark .comma ∧ ts.head?.any Token.closes = true)) :
    prune (t :: ts) = t :: prune ts := by
  rw [prune, if_neg h]

theorem prune_cons_of_ne (h : t ≠ .mark .comma) : prune (t :: ts) = t :: prune ts :=
  prune_cons_of_not fun hcomma => h hcomma.1

theorem Token.spelling_mark (m : Mark) (next : Option Token) :
    (Token.mark m).spelling next =
      if Token.mark m = .mark .comma ∧ next.any Token.closes then [] else m.spelling := by
  cases m with
  | comma => simp [Token.spelling]
  | _ => rfl

/-- Whether a word comes next is not changed by the commas that are dropped. -/
theorem head?_prune_isWord (ts : List Token) :
    (prune ts).head?.any Token.isWord = ts.head?.any Token.isWord := by
  cases ts with
  | nil => rfl
  | cons t rest =>
    unfold prune
    split
    · rename_i hdrop
      obtain ⟨hcomma, hcloses⟩ := hdrop
      cases rest with
      | nil => cases hcloses
      | cons closer rest =>
        have hne : closer ≠ .mark .comma := by
          intro heq
          rw [heq] at hcloses
          cases hcloses
        have hno : closer.isWord = false := by
          cases closer with
          | word w => cases hcloses
          | mark m => rfl
        rw [prune_cons_of_ne hne, hcomma]
        exact hno
    · rfl

theorem spell_eq_render (ts : List Token) : spell ts = render (prune ts) := by
  induction ts with
  | nil => rfl
  | cons t rest ih =>
    rw [spell, ih]
    cases t with
    | word w =>
      rw [prune_cons_of_ne Token.noConfusion, render, Token.spelling, Token.spelling,
        head?_prune_isWord]
    | mark m =>
      rw [Token.spelling_mark, prune]
      split
      · rfl
      · rw [render]

end Prune

section Read

theorem isWordChar_not_blank (h : isWordChar c = true) : isBlank c = false := by
  by_contra hblank
  rw [Bool.not_eq_false] at hblank
  rw [isWordChar_of_isBlank hblank] at h
  cases h

theorem readBack_blank (h : isBlank c = true) : readBack (c :: rest) = readBack rest := by
  rw [readBack, pieces, if_pos h, readBack]

theorem readBack_cons (h : isBlank c = false) :
    readBack (c :: rest) = (Piece.next c rest).1.shown ++ readBack (Piece.next c rest).2 := by
  rw [readBack, pieces, if_neg (by simp [h]), List.flatMap_cons, readBack]

theorem readBack_sign (h : isBlank c = false) (hnext : Piece.next c rest = (.sign c, rest)) :
    readBack (c :: rest) = .mark (.ofChar c) :: readBack rest := by
  rw [readBack_cons h, hnext]
  rfl

/-- A word is read as far as it goes, also where it makes a raw mark with the character after it. -/
theorem readBack_wordChar (h : isWordChar c = true) :
    readBack (c :: rest) =
      .word (c :: rest.takeWhile isWordChar) :: readBack (rest.dropWhile isWordChar) := by
  have hquote : c ≠ '\'' := by
    intro heq
    rw [heq] at h
    cases h
  rw [readBack_cons (isWordChar_not_blank h)]
  unfold Piece.next
  rw [if_neg hquote, if_pos h]
  split
  · rename_i after hafter
    rw [hafter]
    split
    · rename_i hraw
      obtain ⟨hr, hshort⟩ := Bool.and_eq_true_iff.mp hraw
      rw [of_decide_eq_true hr, List.isEmpty_iff.mp hshort, readBack_sign (by decide) rfl]
      rfl
    · rfl
  · rfl

theorem takeWhile_append_of_head (h : tail.head?.any isWordChar = false) (text : List Char) :
    (text ++ tail).takeWhile isWordChar = text.takeWhile isWordChar := by
  induction text with
  | nil =>
    cases tail with
    | nil => rfl
    | cons c tail => simpa using h
  | cons c text ih => rw [List.cons_append, List.takeWhile_cons, List.takeWhile_cons, ih]

theorem dropWhile_append_of_head (h : tail.head?.any isWordChar = false) (text : List Char) :
    (text ++ tail).dropWhile isWordChar = text.dropWhile isWordChar ++ tail := by
  induction text with
  | nil =>
    cases tail with
    | nil => rfl
    | cons c tail => simpa using h
  | cons c text ih =>
    rw [List.cons_append, List.dropWhile_cons, List.dropWhile_cons, ih]
    split <;> rfl

/-- A word ends where no word character comes next. -/
theorem readBack_word (hw : IsWord w) (htail : tail.head?.any isWordChar = false) :
    readBack (w ++ tail) = .word w :: readBack tail := by
  obtain ⟨hne, hchars⟩ := hw
  cases w with
  | nil => exact absurd rfl hne
  | cons c w =>
    have hw : ∀ d ∈ w, isWordChar d = true := by
      intro d hd
      exact hchars d (List.mem_cons_of_mem c hd)
    rw [List.cons_append, readBack_wordChar (hchars c List.mem_cons_self),
      takeWhile_append_of_head htail, dropWhile_append_of_head htail,
      List.takeWhile_eq_self_iff.mpr hw, List.dropWhile_eq_nil_iff.mpr hw, List.nil_append]

theorem readBack_mark (m : Mark) (tail : List Char) :
    readBack (m.spelling ++ tail) = .mark m.square :: readBack tail := by
  have hblank : ∀ rest, readBack (' ' :: rest) = readBack rest := by
    intro rest
    exact readBack_blank (by decide)
  cases m with
  | pathSep => exact readBack_cons (by decide)
  | arrow =>
    refine (hblank _).trans ((readBack_cons (by decide)).trans ?_)
    exact congrArg (Token.mark .arrow :: ·) (hblank tail)
  | comma | semicolon =>
    refine (readBack_sign (by decide) rfl).trans ?_
    exact congrArg _ (hblank tail)
  | plus | equals =>
    refine (hblank _).trans ((readBack_sign (by decide) rfl).trans ?_)
    exact congrArg _ (hblank tail)
  | _ => exact readBack_sign (by decide) rfl

theorem Mark.head?_spelling (m : Mark) (tail : List Char) :
    (m.spelling ++ tail).head?.any isWordChar = false := by
  cases m <;> rfl

theorem isWordChar_head?_render (h : ts.head?.any Token.isWord = false) :
    (render ts).head?.any isWordChar = false := by
  cases ts with
  | nil => rfl
  | cons t rest =>
    cases t with
    | word w => cases h
    | mark m => exact m.head?_spelling (render rest)

/-- A spelling shows its tokens. -/
theorem readBack_render (h : ∀ w, .word w ∈ ts → IsWord w) :
    readBack (render ts) = ts.map Token.square := by
  induction ts with
  | nil => simp [render, readBack, pieces]
  | cons t rest ih =>
    have hrest := ih (fun w hw => h w (List.mem_cons_of_mem t hw))
    rw [List.map_cons, ← hrest]
    cases t with
    | word w =>
      have hw := h w List.mem_cons_self
      rw [render, Token.spelling]
      split
      · rw [List.append_assoc, readBack_word hw rfl, List.singleton_append,
          readBack_blank (by decide)]
        rfl
      · rename_i hnext
        rw [readBack_word hw (isWordChar_head?_render (Bool.not_eq_true _ ▸ hnext))]
        rfl
    | mark m => exact readBack_mark m (render rest)

end Read

section Trailing

/-- A text that begins with one of these characters is cut apart from any text before it. -/
def isSeam (c : Char) : Bool := !isWordChar c && c != '#' && c != ':' && c != '>'

theorem isWordChar_of_seam (h : tail.head?.all isSeam = true) :
    tail.head?.any isWordChar = false := by
  cases tail with
  | nil => rfl
  | cons c tail => simp_all [isSeam]

theorem Piece.next_append (h : tail.head?.all isSeam = true) (c : Char) (rest : List Char) :
    Piece.next c (rest ++ tail) = ((Piece.next c rest).1, (Piece.next c rest).2 ++ tail) := by
  unfold Piece.next
  rw [takeWhile_append_of_head (isWordChar_of_seam h),
    dropWhile_append_of_head (isWordChar_of_seam h)]
  split
  · rfl
  · split
    · cases rest.dropWhile isWordChar with
      | nil =>
        cases tail with
        | nil => rfl
        | cons d tail =>
          have hd : d ≠ '#' := by
            intro heq
            subst heq
            cases h
          simp [hd]
      | cons d after =>
        by_cases hd : d = '#'
        · subst hd
          simp only [List.cons_append]
          split <;> rfl
        · simp [hd]
    · cases rest with
      | nil =>
        cases tail with
        | nil => simp
        | cons d tail =>
          have hcolon : d ≠ ':' := by
            intro heq
            subst heq
            cases h
          have hangle : d ≠ '>' := by
            intro heq
            subst heq
            cases h
          simp [hcolon, hangle]
      | cons d rest =>
        simp only [List.cons_append]
        split <;> simp_all

theorem pieces_append (h : tail.head?.all isSeam = true) (text : List Char) :
    pieces (text ++ tail) = pieces text ++ pieces tail := by
  fun_induction pieces text with
  | case1 => rfl
  | case2 c rest hblank ih => rw [List.cons_append, pieces, if_pos hblank, ih]
  | case3 c rest hblank ih =>
    rw [List.cons_append, pieces, if_neg hblank, Piece.next_append h, ih, List.cons_append]

theorem readBack_append (h : tail.head?.all isSeam = true) (text : List Char) :
    readBack (text ++ tail) = readBack text ++ readBack tail := by
  rw [readBack, pieces_append h, List.flatMap_append, readBack, readBack]

/-- Separators show commas only. -/
theorem readBack_separators (h : ∀ c ∈ tail, isTrailing c = true) :
    ∀ t ∈ readBack tail, t = .mark .comma := by
  induction tail with
  | nil => simp [readBack, pieces]
  | cons c tail ih =>
    have hrest := ih (fun d hd => h d (List.mem_cons_of_mem c hd))
    have hc : c = ',' ∨ c = ' ' := by simpa [isTrailing] using h c List.mem_cons_self
    intro t ht
    rcases hc with rfl | rfl
    · rw [readBack_sign (by decide) rfl] at ht
      rcases List.mem_cons.mp ht with hfirst | hmem
      · exact hfirst
      · exact hrest t hmem
    · rw [readBack_blank (by decide)] at ht
      exact hrest t ht

theorem head?_all_isSeam (h : ∀ c ∈ tail, isTrailing c = true) : tail.head?.all isSeam = true := by
  cases tail with
  | nil => rfl
  | cons c tail =>
    have hc : c = ',' ∨ c = ' ' := by simpa [isTrailing] using h c List.mem_cons_self
    rcases hc with rfl | rfl <;> rfl

end Trailing

section Kept

theorem render_append_commas {commas : List Token} (h : ∀ t ∈ commas, t = .mark .comma)
    (ts : List Token) : render (ts ++ commas) = render ts ++ render commas := by
  have hhead : commas.head?.any Token.isWord = false := by
    cases commas with
    | nil => rfl
    | cons t commas =>
      rw [h t List.mem_cons_self]
      rfl
  induction ts with
  | nil => rfl
  | cons t rest ih =>
    cases t with
    | word w =>
      have hnext : (rest ++ commas).head?.any Token.isWord = rest.head?.any Token.isWord := by
        cases rest with
        | nil => exact hhead
        | cons t rest => rfl
      rw [List.cons_append, render, render, ih, Token.spelling, Token.spelling, hnext,
        List.append_assoc]
    | mark m => rw [List.cons_append, render, render, ih, List.append_assoc]

theorem all_isTrailing_render {commas : List Token} (h : ∀ t ∈ commas, t = .mark .comma) :
    (render commas).all isTrailing = true := by
  induction commas with
  | nil => rfl
  | cons t rest ih =>
    have hrest := ih (fun t' ht' => h t' (List.mem_cons_of_mem t ht'))
    rw [h t List.mem_cons_self, render, List.all_append, hrest]
    rfl

theorem Mark.spelling_square (m : Mark) : m.square.spelling = m.spelling := by
  cases m <;> rfl

theorem Token.eq_comma_of_square (h : t.square = .mark .comma) : t = .mark .comma := by
  cases t with
  | word w => cases h
  | mark m => cases m <;> first | rfl | cases h

theorem render_map_square (ts : List Token) : render (ts.map Token.square) = render ts := by
  induction ts with
  | nil => rfl
  | cons t rest ih =>
    have hnext : (rest.map Token.square).head?.any Token.isWord = rest.head?.any Token.isWord := by
      cases rest with
      | nil => rfl
      | cons t rest => cases t <;> rfl
    rw [List.map_cons]
    cases t with
    | word w => rw [Token.square, render, render, ih, Token.spelling, Token.spelling, hnext]
    | mark m => rw [Token.square, render, render, ih, Mark.spelling_square]

theorem prune_sublist (ts : List Token) : (prune ts).Sublist ts := by
  induction ts with
  | nil => exact List.Sublist.refl []
  | cons t rest ih =>
    unfold prune
    split
    · exact ih.cons t
    · exact ih.cons_cons t

theorem kept_subset (ts : List Token) : kept ts ⊆ ts := by
  intro t ht
  have hpruned : t ∈ prune ts := (List.rdropWhile_prefix _ _).subset ht
  exact (prune_sublist ts).subset hpruned

/-- The last of the tokens that are kept is no comma. -/
theorem kept_ne_append_comma (ts front : List Token) : kept ts ≠ front ++ [.mark .comma] := by
  intro heq
  have hagain : kept ts = front.rdropWhile (· = .mark .comma) := by
    rw [← List.rdropWhile_concat_pos _ _ (.mark .comma) (by rfl), ← heq, kept,
      List.rdropWhile_idempotent]
  have hshort := (List.rdropWhile_prefix (· = Token.mark .comma) front).length_le
  rw [← hagain, heq, List.length_append, List.length_singleton] at hshort
  omega

theorem canonicalChars_eq (text : List Char) :
    canonicalChars text = dropEndWhile isTrailing (render (kept (tokenize text))) := by
  have hsplit : kept (tokenize text) ++ (prune (tokenize text)).rtakeWhile (· = .mark .comma) =
      prune (tokenize text) := List.rdropWhile_append_rtakeWhile
  have hcommas : ∀ t ∈ (prune (tokenize text)).rtakeWhile (· = .mark .comma), t = .mark .comma := by
    intro t ht
    simpa using List.mem_rtakeWhile_imp ht
  rw [canonicalChars, spell_eq_render, ← hsplit, render_append_commas hcommas, dropEndWhile_append,
    if_pos (all_isTrailing_render hcommas)]

/-- Tokens that are kept are shown in full although the separators at the end are cut off. -/
theorem readBack_dropEnd_render (h : ∀ w, .word w ∈ ts → IsWord w) :
    readBack (dropEndWhile isTrailing (render (kept ts))) = (kept ts).map Token.square := by
  have hshown : readBack (render (kept ts)) = (kept ts).map Token.square :=
    readBack_render fun w hw => h w (kept_subset ts hw)
  have hsplit : dropEndWhile isTrailing (render (kept ts)) ++
      (render (kept ts)).rtakeWhile isTrailing = render (kept ts) :=
    List.rdropWhile_append_rtakeWhile
  have htrailing : ∀ c ∈ (render (kept ts)).rtakeWhile isTrailing, isTrailing c = true := by
    intro c hc
    exact List.mem_rtakeWhile_imp hc
  rw [← hsplit, readBack_append (head?_all_isSeam htrailing)] at hshown
  have hcommas := readBack_separators htrailing
  rcases List.eq_nil_or_concat (readBack ((render (kept ts)).rtakeWhile isTrailing)) with
    hnil | ⟨front, t, hlast⟩
  · rwa [hnil, List.append_nil] at hshown
  · -- A comma that is cut off would be the last of the tokens that are kept.
    rw [hlast] at hshown hcommas
    have ht : t = .mark .comma := hcommas t (by simp)
    rw [ht, List.concat_eq_append, ← List.append_assoc] at hshown
    obtain ⟨shown, last, hkept, -, hlast⟩ := List.map_eq_append_iff.mp hshown.symm
    obtain ⟨t', rfl, hsquare⟩ := List.map_eq_singleton_iff.mp hlast
    have ht' : t' = .mark .comma := Token.eq_comma_of_square hsquare
    rw [ht'] at hkept
    exact absurd hkept (kept_ne_append_comma ts shown)

/-- What a canonical text shows of the text that it comes from. -/
theorem readBack_canonicalChars (text : List Char) :
    readBack (canonicalChars text) = (kept (tokenize text)).map Token.square := by
  rw [canonicalChars_eq]
  apply readBack_dropEnd_render
  intro w
  exact isWord_of_mem_tokenize

/-- Two texts have one canonical text exactly if they agree in the tokens that are kept, up to the
shape of their brackets. -/
theorem canonicalize_eq_iff_kept {t u : String} :
    canonicalize t = canonicalize u ↔
      (kept (tokenize t.toList)).map Token.square =
        (kept (tokenize u.toList)).map Token.square := by
  rw [canonicalize, canonicalize, String.ofList_inj]
  constructor
  · intro h
    rw [← readBack_canonicalChars, ← readBack_canonicalChars, h]
  · intro h
    rw [canonicalChars_eq, canonicalChars_eq, ← render_map_square, h, render_map_square]

end Kept

end HookDispatch.TypeName
