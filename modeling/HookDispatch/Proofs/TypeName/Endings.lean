import HookDispatch.Proofs.TypeName.Slots
import HookDispatch.TypeName.Basic

/-!
How canonical texts end. Only a word ends in a word character, and only a path separator in a
colon, so that the characters at the end of a spelling tell the tokens at its end: a text that
ends in the name of a type ends in a path to the type, which may be all of it or a part.
-/
namespace HookDispatch.TypeName

open Text

def EndsIn (w : List Char) (ts : List Token) : Prop :=
  ts = [.word w] ∨ [.mark .pathSep, .word w] <:+ ts

instance (w : List Char) (ts : List Token) : Decidable (EndsIn w ts) :=
  inferInstanceAs (Decidable (_ ∨ _))

def pathTokens (rooted : Bool) (modules : List (List Char)) (last : List Char) : List Token :=
  (if rooted then [Token.mark .pathSep] else []) ++
    modules.flatMap (fun w => [Token.word w, .mark .pathSep]) ++ [Token.word last]

variable {c : Char} {w v cs : List Char} {m : Mark} {t u : Token} {ts front : List Token}

section EndsIn

theorem endsIn_append_word :
    EndsIn w (front ++ [Token.word v]) ↔
      v = w ∧ (front = [] ∨ front.getLast? = some (.mark .pathSep)) := by
  have hsuffix : [Token.mark .pathSep] ++ [Token.word w] <:+ front ++ [Token.word v] ↔
      [.mark .pathSep] <:+ front ∧ [Token.word w] = [.word v] :=
    List.suffix_append_inj_of_length_eq rfl
  rw [List.singleton_append] at hsuffix
  rw [EndsIn, hsuffix, List.singleton_suffix_iff_getLast?_eq_some, List.append_eq_singleton_iff]
  simp only [List.cons.injEq, Token.word.injEq, and_true, List.cons_ne_nil, and_false, or_false]
  rw [eq_comm (a := w), and_comm (a := v = w), or_and_right]

theorem not_endsIn_append_mark (w : List Char) (front : List Token) (m : Mark) :
    ¬ EndsIn w (front ++ [Token.mark m]) := by
  rintro (heq | ⟨before, heq⟩)
  · have hlast := congrArg List.getLast? heq
    simp at hlast
  · have hlast := congrArg List.getLast? heq
    simp at hlast

/-- What stands in front of tokens matters for the bare word only, if no separator ends it. -/
theorem endsIn_append (hfront : front.getLast? = some u) (hu : u ≠ .mark .pathSep) (hts : ts ≠ []) :
    EndsIn w (front ++ ts) ↔ EndsIn w ts ∧ ts ≠ [.word w] := by
  obtain ⟨before, last, rfl⟩ := (List.eq_nil_or_concat ts).resolve_left hts
  rw [List.concat_eq_append, ← List.append_assoc]
  cases last with
  | mark m =>
    have hno := not_endsIn_append_mark w before m
    exact iff_of_false (not_endsIn_append_mark w _ m) fun h => hno h.1
  | word v =>
    rw [endsIn_append_word, endsIn_append_word]
    cases before with
    | nil =>
      have hne : front ≠ [] := by
        rintro rfl
        cases hfront
      simp [hfront, hu, hne]
    | cons t before =>
      have hlast : (front ++ t :: before).getLast? = (t :: before).getLast? := by
        simp [List.getLast?_cons]
      rw [hlast]
      simp

theorem endsIn_pathTokens (rooted : Bool) (modules : List (List Char)) (last : List Char) :
    EndsIn w (pathTokens rooted modules last) ↔ last = w := by
  rw [pathTokens, endsIn_append_word, and_iff_left]
  rcases List.eq_nil_or_concat modules with rfl | ⟨modules, m, rfl⟩
  · cases rooted with
    | true => exact .inr rfl
    | false => exact .inl rfl
  · right
    simp [List.concat_eq_append]

/-- A path that is no bare name has a separator before its last name. -/
theorem suffix_pathTokens {rooted : Bool} {modules : List (List Char)}
    (h : rooted = true ∨ modules ≠ []) (last : List Char) :
    [.mark .pathSep, .word last] <:+ pathTokens rooted modules last := by
  rcases List.eq_nil_or_concat modules with rfl | ⟨front, m, rfl⟩
  · have hroot : rooted = true := h.resolve_right fun hne => hne rfl
    rw [hroot]
    exact List.suffix_refl _
  · refine ⟨(if rooted then [Token.mark .pathSep] else []) ++
      front.flatMap (fun w => [Token.word w, .mark .pathSep]) ++ [Token.word m], ?_⟩
    simp [pathTokens, List.concat_eq_append]

theorem mem_pathTokens {rooted : Bool} {modules : List (List Char)} {last : List Char}
    (h : t ∈ pathTokens rooted modules last) : t.isWord = true ∨ t = .mark .pathSep := by
  simp only [pathTokens, List.mem_append, List.mem_flatMap, List.mem_cons, List.not_mem_nil,
    or_false] at h
  rcases h with (hroot | ⟨w, -, rfl | rfl⟩) | rfl
  · cases rooted with
    | true => exact .inr (List.mem_singleton.mp hroot)
    | false => cases hroot
  · exact .inl rfl
  · exact .inr rfl
  · exact .inl rfl

end EndsIn

section KeptEnds

theorem prune_of_not_mem (h : .mark .comma ∉ ts) : prune ts = ts := by
  induction ts with
  | nil => rfl
  | cons t rest ih =>
    rw [List.mem_cons, not_or] at h
    rw [prune_cons_of_ne (Ne.symm h.1), ih h.2]

theorem comma_not_mem_pathTokens (rooted : Bool) (modules : List (List Char))
    (last : List Char) : .mark .comma ∉ pathTokens rooted modules last := by
  intro hmem
  rcases mem_pathTokens hmem with h | h <;> cases h

theorem getLast?_prune (h : ts.getLast? ≠ some (.mark .comma)) :
    (prune ts).getLast? = ts.getLast? := by
  induction ts with
  | nil => rfl
  | cons t rest ih =>
    cases rest with
    | nil => rw [prune_cons_of_not fun hidle => Bool.noConfusion hidle.2, prune]
    | cons u rest =>
      rw [List.getLast?_cons_cons] at h ⊢
      rw [prune]
      split
      · exact ih h
      · rw [List.getLast?_cons, ih h]
        rfl

/-- A comma is kept in front of tokens that do not begin with a closing bracket, if some of them
are kept; what is not a comma is kept in front of any. -/
theorem kept_append (h : front.getLast? = some (.mark .comma) →
      ts.head?.any Token.closes = false ∧ kept ts ≠ []) :
    kept (front ++ ts) = prune front ++ kept ts := by
  rw [kept, prune_append fun hcomma => (h hcomma).1, rdropWhile_append]
  split
  · next hall =>
    have hnil : kept ts = [] := List.rdropWhile_eq_nil_iff.mpr (List.all_eq_true.mp hall)
    have hcomma : front.getLast? ≠ some (.mark .comma) := fun heq => (h heq).2 hnil
    rw [hnil, List.append_nil, List.rdropWhile_eq_self_iff]
    intro hne hlast
    rw [← getLast?_prune hcomma, List.getLast?_eq_some_getLast hne] at hcomma
    exact hcomma (congrArg some (of_decide_eq_true hlast))
  · rfl

/-- A path is kept as it is, whatever comes after it. -/
theorem kept_pathTokens_append (rooted : Bool) (modules : List (List Char)) (last : List Char)
    (ts : List Token) : kept (pathTokens rooted modules last ++ ts) =
      pathTokens rooted modules last ++ kept ts := by
  have hprune : prune (pathTokens rooted modules last) = pathTokens rooted modules last :=
    prune_of_not_mem (comma_not_mem_pathTokens rooted modules last)
  rw [kept_append, hprune]
  intro hcomma
  rw [pathTokens, List.getLast?_concat] at hcomma
  cases hcomma

theorem kept_pathTokens (rooted : Bool) (modules : List (List Char)) (last : List Char) :
    kept (pathTokens rooted modules last) = pathTokens rooted modules last := by
  have happend := kept_pathTokens_append rooted modules last []
  have hnil : kept [] = [] := rfl
  rwa [hnil, List.append_nil] at happend

end KeptEnds

section LastSegment

theorem lastSegment_append (h : ':' ∉ w) (cs : List Char) :
    lastSegment (cs ++ w) = lastSegment cs ++ w := by
  have hall : ∀ c ∈ w.reverse, decide (c ≠ ':') = true := by
    intro c hc
    rw [decide_eq_true_eq]
    rintro rfl
    exact h (List.mem_reverse.mp hc)
  unfold lastSegment
  rw [List.reverse_append, List.takeWhile_append_of_pos hall, List.reverse_append,
    List.reverse_reverse]

theorem lastSegment_append_colon (cs : List Char) : lastSegment (cs ++ [':']) = [] := by
  simp [lastSegment]

theorem lastSegment_suffix (cs : List Char) : lastSegment cs <:+ cs := by
  unfold lastSegment
  rw [← List.reverse_prefix, List.reverse_reverse]
  exact List.takeWhile_prefix _

theorem colon_not_mem (h : IsWord w) : ':' ∉ w := by
  intro hmem
  have hc := h.2 ':' hmem
  cases hc

end LastSegment

section Rendered

theorem render_append_mark (ts : List Token) (m : Mark) (us : List Token) :
    render (ts ++ Token.mark m :: us) = render ts ++ (m.spelling ++ render us) := by
  induction ts with
  | nil => rfl
  | cons t rest ih =>
    cases t with
    | word w =>
      have hnext :
          (rest ++ Token.mark m :: us).head?.any Token.isWord = rest.head?.any Token.isWord := by
        cases rest with
        | nil => rfl
        | cons t rest => rfl
      rw [List.cons_append, render, render, ih, Token.spelling, Token.spelling, hnext,
        List.append_assoc]
    | mark n => rw [List.cons_append, render, render, ih, List.append_assoc]

/-- A word at the end is spelled after a space, if it comes after another one. -/
theorem render_append_word (ts : List Token) (w : List Char) :
    render (ts ++ [Token.word w]) =
      render ts ++ ((if ts.getLast?.any Token.isWord then [' '] else []) ++ w) := by
  induction ts with
  | nil => simp [render, Token.spelling]
  | cons t rest ih =>
    rw [List.cons_append]
    cases rest with
    | nil => cases t <;> simp [render, Token.spelling, Token.isWord]
    | cons u rest =>
      have hlast : (t :: u :: rest).getLast? = (u :: rest).getLast? := List.getLast?_cons_cons
      have hhead : (u :: rest ++ [Token.word w]).head? = (u :: rest).head? := rfl
      cases t with
      | word v => rw [render, render, ih, hlast, hhead, List.append_assoc]
      | mark m => rw [render, render, ih, hlast, List.append_assoc]

/-- A mark ends in no word character, and only a path separator ends in a colon. -/
theorem Mark.spelling_eq_append (m : Mark) :
    ∃ cs c, m.spelling = cs ++ [c] ∧ isWordChar c = false ∧ (c = ':' ↔ m = .pathSep) := by
  cases m <;> exact ⟨_, _, (List.dropLast_append_getLast (by decide)).symm, by decide, by decide⟩

theorem lastSegment_render_pathSep (front : List Token) :
    lastSegment (render (front ++ [Token.mark .pathSep])) = [] := by
  have hrender : render (front ++ [Token.mark .pathSep]) = (render front ++ [':']) ++ [':'] := by
    simp [render_append_mark, Mark.spelling, render]
  rw [hrender, lastSegment_append_colon]

/-- A mark that is no path separator brings a character of no word into the last segment. -/
theorem exists_mem_lastSegment_mark (hm : m ≠ .pathSep) (front : List Token) :
    ∃ c ∈ lastSegment (render (front ++ [Token.mark m])), isWordChar c = false := by
  obtain ⟨cs, c, hspelling, hword, hcolon⟩ := m.spelling_eq_append
  have hrender : render (front ++ [Token.mark m]) = (render front ++ cs) ++ [c] := by
    rw [render_append_mark, hspelling, render, List.append_nil, List.append_assoc]
  have hc : ':' ∉ [c] := by
    rw [List.mem_singleton]
    exact fun heq => hm (hcolon.mp heq.symm)
  refine ⟨c, ?_, hword⟩
  rw [hrender, lastSegment_append hc]
  exact List.mem_append_right _ List.mem_cons_self

theorem lastSegment_render_word (hv : IsWord v)
    (h : front = [] ∨ front.getLast? = some (.mark .pathSep)) :
    lastSegment (render (front ++ [Token.word v])) = v := by
  have hcolon := colon_not_mem hv
  rcases h with rfl | hlast
  · have hsole : lastSegment v = v := lastSegment_append hcolon []
    simpa [render, Token.spelling] using hsole
  · obtain ⟨front, rfl⟩ := List.getLast?_eq_some_iff.mp hlast
    have hword : (front ++ [Token.mark .pathSep]).getLast?.any Token.isWord = false := by
      rw [hlast]
      rfl
    rw [render_append_word, if_neg (Bool.eq_false_iff.mp hword), List.nil_append,
      lastSegment_append hcolon, lastSegment_render_pathSep, List.nil_append]

/-- A word behind another word comes after a space, and behind a mark after its characters. -/
theorem exists_mem_lastSegment_word (hv : IsWord v)
    (h : ¬ (front = [] ∨ front.getLast? = some (.mark .pathSep))) :
    ∃ c ∈ lastSegment (render (front ++ [Token.word v])), isWordChar c = false := by
  have hcolon := colon_not_mem hv
  rcases List.eq_nil_or_concat front with rfl | ⟨front, t, rfl⟩
  · exact absurd (.inl rfl) h
  rw [List.concat_eq_append] at h ⊢
  rw [render_append_word, List.getLast?_concat, Option.any_some]
  cases t with
  | word u =>
    have hspace : ':' ∉ [' '] ++ v := by simpa using hcolon
    refine ⟨' ', ?_, rfl⟩
    rw [if_pos (by rfl), lastSegment_append hspace]
    simp
  | mark m =>
    have hm : m ≠ .pathSep := by
      rintro rfl
      simp at h
    obtain ⟨c, hc, hword⟩ := exists_mem_lastSegment_mark hm front
    refine ⟨c, ?_, hword⟩
    rw [if_neg (by exact Bool.false_ne_true), List.nil_append, lastSegment_append hcolon]
    exact List.mem_append_left v hc

/-- The last segment of a spelling is a word exactly if the tokens end in it. -/
theorem lastSegment_render_iff (hwords : ∀ v, .word v ∈ ts → IsWord v) (hw : IsWord w) :
    lastSegment (render ts) = w ↔ EndsIn w ts := by
  have hchars : ∀ {cs : List Char}, (∃ c ∈ cs, isWordChar c = false) → cs ≠ w := by
    rintro cs ⟨c, hc, hno⟩ rfl
    rw [hw.2 c hc] at hno
    cases hno
  rcases List.eq_nil_or_concat ts with rfl | ⟨front, t, rfl⟩
  · have hnil : lastSegment (render []) = [] := rfl
    simp [EndsIn, hnil, hw.1.symm]
  rw [List.concat_eq_append] at hwords ⊢
  cases t with
  | mark m =>
    apply iff_of_false _ (not_endsIn_append_mark w front m)
    by_cases hm : m = .pathSep
    · rw [hm, lastSegment_render_pathSep]
      exact hw.1.symm
    · exact hchars (exists_mem_lastSegment_mark hm front)
  | word v =>
    have hv : IsWord v := hwords v (by simp)
    rw [endsIn_append_word]
    by_cases hfront : front = [] ∨ front.getLast? = some (.mark .pathSep)
    · rw [lastSegment_render_word hv hfront, and_iff_left hfront]
    · exact iff_of_false (hchars (exists_mem_lastSegment_word hv hfront)) fun h => hfront h.2

/-- A path to a word is spelled as it is. -/
theorem suffix_render_iff (hwords : ∀ v, .word v ∈ ts → IsWord v) (hw : IsWord w) :
    ':' :: ':' :: w <:+ render ts ↔ [.mark .pathSep, .word w] <:+ ts := by
  constructor
  · intro hsuffix
    obtain ⟨before, hrender⟩ := hsuffix
    have hlast : lastSegment (render ts) = w := by
      have hsplit : render ts = (before ++ [':']) ++ [':'] ++ w := by simp [← hrender]
      rw [hsplit, lastSegment_append (colon_not_mem hw), lastSegment_append_colon, List.nil_append]
    rcases (lastSegment_render_iff hwords hw).mp hlast with rfl | hpath
    · have hlength := congrArg List.length hrender
      simp [render, Token.spelling] at hlength
      omega
    · exact hpath
  · rintro ⟨before, rfl⟩
    refine ⟨render before, ?_⟩
    rw [render_append_mark]
    simp [Mark.spelling, render, Token.spelling]

end Rendered

section Trimmed

/-- The separators at the end of a mark are not all of it, unless it is a comma. -/
theorem Mark.dropEnd_spelling (hm : m ≠ .comma) :
    m.spelling.all isTrailing = false ∧
      ∃ cs c, dropEndWhile isTrailing m.spelling = cs ++ [c] ∧ isWordChar c = false ∧
        (c = ']' → m.square = .squareClose ∧ cs = []) := by
  cases m with
  | comma => exact absurd rfl hm
  | _ =>
    refine ⟨rfl, _, _, (List.dropLast_append_getLast (by decide)).symm, ?_⟩
    decide

theorem render_append_word_eq_concat (hv : IsWord v) (front : List Token) :
    ∃ cs, render (front ++ [Token.word v]) = cs ++ [v.getLast hv.1] := by
  refine ⟨render front ++ ((if front.getLast?.any Token.isWord then [' '] else []) ++
    v.dropLast), ?_⟩
  rw [render_append_word, List.append_assoc, List.append_assoc, List.dropLast_append_getLast]

/-- The word at the end of a spelling is not cut off. -/
theorem dropEndWhile_render_word (hv : IsWord v) (front : List Token) :
    dropEndWhile isTrailing (render (front ++ [Token.word v])) =
      render (front ++ [Token.word v]) := by
  have hlast : isTrailing (v.getLast hv.1) = false := by
    have hword := hv.2 _ (List.getLast_mem hv.1)
    by_contra htrailing
    rw [Bool.not_eq_false, isTrailing, Bool.or_eq_true, decide_eq_true_eq,
      decide_eq_true_eq] at htrailing
    rcases htrailing with heq | heq <;> rw [heq] at hword <;> cases hword
  obtain ⟨cs, hsplit⟩ := render_append_word_eq_concat hv front
  rw [hsplit, dropEndWhile_append_singleton, hlast]
  rfl

theorem dropEndWhile_render_mark (hm : m ≠ .comma) (front : List Token) :
    dropEndWhile isTrailing (render (front ++ [Token.mark m])) =
      render front ++ dropEndWhile isTrailing m.spelling := by
  rw [render_append_mark, render, List.append_nil, dropEndWhile_append,
    (Mark.dropEnd_spelling hm).1]
  rfl

/-- What a spelling ends with after a mark. -/
theorem suffix_render_mark (hm : m ≠ .comma) {cs : List Char}
    (h : cs ++ [c] <:+ dropEndWhile isTrailing (render (front ++ [Token.mark m]))) :
    isWordChar c = false ∧ (c = ']' → m.square = .squareClose ∧ cs <:+ render front) := by
  obtain ⟨-, ds, d, hspelling, hword, hclose⟩ := Mark.dropEnd_spelling hm
  rw [dropEndWhile_render_mark hm, hspelling, ← List.append_assoc] at h
  obtain ⟨hsuffix, heq⟩ := (List.suffix_append_inj_of_length_eq (by rfl)).mp h
  cases heq
  refine ⟨hword, fun hc => ?_⟩
  obtain ⟨hsquare, rfl⟩ := hclose hc
  rw [List.append_nil] at hsuffix
  exact ⟨hsquare, hsuffix⟩

theorem lastSegment_trimmed_iff (hcomma : ts.getLast? ≠ some (.mark .comma))
    (hwords : ∀ v, .word v ∈ ts → IsWord v) (hw : IsWord w) :
    lastSegment (dropEndWhile isTrailing (render ts)) = w ↔ EndsIn w ts := by
  rcases List.eq_nil_or_concat ts with rfl | ⟨front, t, rfl⟩
  · exact lastSegment_render_iff hwords hw
  rw [List.concat_eq_append] at hcomma hwords ⊢
  cases t with
  | word v =>
    rw [dropEndWhile_render_word (hwords v (by simp))]
    exact lastSegment_render_iff hwords hw
  | mark m =>
    apply iff_of_false _ (not_endsIn_append_mark w front m)
    intro heq
    have hm : m ≠ .comma := by
      rintro rfl
      simp at hcomma
    have hsuffix := lastSegment_suffix (dropEndWhile isTrailing (render (front ++ [Token.mark m])))
    rw [heq, ← List.dropLast_append_getLast hw.1] at hsuffix
    have hno := (suffix_render_mark hm hsuffix).1
    rw [hw.2 _ (List.getLast_mem hw.1)] at hno
    cases hno

/-- A spelling with a word at its end does not end in a bracket. -/
theorem not_suffix_trimmed_word (hv : IsWord v) (front : List Token) (cs : List Char) :
    ¬cs ++ [']'] <:+ dropEndWhile isTrailing (render (front ++ [Token.word v])) := by
  intro hsuffix
  obtain ⟨ds, hsplit⟩ := render_append_word_eq_concat hv front
  rw [dropEndWhile_render_word hv, hsplit] at hsuffix
  obtain ⟨-, heq⟩ := (List.suffix_append_inj_of_length_eq (by rfl)).mp hsuffix
  have hword := hv.2 _ (List.getLast_mem hv.1)
  rw [← List.singleton_inj.mp heq] at hword
  cases hword

/-- A path to a word is spelled as it is, also if the brackets become square ones. -/
theorem suffix_render_square_iff (hwords : ∀ v, .word v ∈ ts → IsWord v) (hw : IsWord w) :
    ':' :: ':' :: w <:+ render ts ↔ [.mark .pathSep, .word w] <:+ ts.map Token.square := by
  rw [← render_map_square, suffix_render_iff _ hw]
  intro v hv
  obtain ⟨t, ht, heq⟩ := List.mem_map.mp hv
  cases t with
  | word u =>
    rw [← Token.word.inj heq]
    exact hwords u ht
  | mark n => cases heq

/-- A path to a word and a closing bracket are spelled as they are, the bracket as a square one. -/
theorem suffix_trimmed_iff (hcomma : ts.getLast? ≠ some (.mark .comma))
    (hwords : ∀ v, .word v ∈ ts → IsWord v) (hw : IsWord w) :
    ':' :: ':' :: w ++ [']'] <:+ dropEndWhile isTrailing (render ts) ↔
      [.mark .pathSep, .word w, .mark .squareClose] <:+ ts.map Token.square := by
  rcases List.eq_nil_or_concat ts with rfl | ⟨front, t, rfl⟩
  · simp [render, dropEndWhile]
  rw [List.concat_eq_append] at hcomma hwords ⊢
  have hmap : [Token.mark .pathSep, .word w] ++ [Token.mark .squareClose] <:+
        front.map Token.square ++ [t.square] ↔
      [.mark .pathSep, .word w] <:+ front.map Token.square ∧
        [Token.mark .squareClose] = [t.square] :=
    List.suffix_append_inj_of_length_eq rfl
  rw [List.map_append, List.map_singleton]
  refine Iff.trans ?_ hmap.symm
  cases t with
  | word v =>
    apply iff_of_false (not_suffix_trimmed_word (hwords v (by simp)) front _)
    rintro ⟨-, heq⟩
    cases heq
  | mark m =>
    have hm : m ≠ .comma := by
      rintro rfl
      simp at hcomma
    rw [← suffix_render_square_iff (fun v hv => hwords v (List.mem_append_left _ hv)) hw]
    constructor
    · intro hsuffix
      obtain ⟨hsquare, hpath⟩ := (suffix_render_mark hm hsuffix).2 rfl
      exact ⟨hpath, by rw [Token.square, hsquare]⟩
    · rintro ⟨hpath, heq⟩
      have hspelling : m.spelling = [']'] := by
        cases m with
        | greater | squareClose => rfl
        | _ => cases heq
      rw [dropEndWhile_render_mark hm, hspelling]
      exact (List.suffix_append_inj_of_length_eq rfl).mpr ⟨hpath, rfl⟩

end Trimmed

section Canonical

theorem kept_getLast?_ne_comma (ts : List Token) : (kept ts).getLast? ≠ some (.mark .comma) := by
  intro h
  obtain ⟨front, heq⟩ := List.getLast?_eq_some_iff.mp h
  exact kept_ne_append_comma ts front heq

theorem isWord_of_mem_kept (hv : .word v ∈ kept (tokenize cs)) : IsWord v :=
  isWord_of_mem_tokenize (kept_subset _ hv)

def objectName : List Char := object.source.toList

theorem isWord_objectName : IsWord objectName :=
  ⟨by decide, List.all_eq_true.mp (by decide)⟩

/-- A text counts as the erased object type if its tokens end in it. -/
theorem isObject_iff (t : TypeName) :
    t.isObject = true ↔ EndsIn objectName (kept (tokenize t.source.toList)) := by
  rw [isObject, decide_eq_true_eq, canonical, canonicalize, String.toList_ofList,
    canonicalChars_eq]
  exact lastSegment_trimmed_iff (kept_getLast?_ne_comma _) (fun _ => isWord_of_mem_kept)
    isWord_objectName

theorem canonical_endsWith_iff (t : TypeName) :
    t.canonical.endsWith "::Object]" = true ↔
      [.mark .pathSep, .word objectName, .mark .squareClose] <:+
        (kept (tokenize t.source.toList)).map Token.square := by
  have htext : "::Object]".toList = ':' :: ':' :: objectName ++ [']'] := by
    simp [objectName, object]
  have hsuffix : t.canonical.endsWith "::Object]" = true ↔
      ':' :: ':' :: objectName ++ [']'] <:+ t.canonical.toList := by
    rw [String.endsWith_eq_endsWith_toSlice, String.Slice.endsWith_string_iff, htext]
    simp
  rw [hsuffix, canonical, canonicalize, String.toList_ofList, canonicalChars_eq,
    suffix_trimmed_iff (kept_getLast?_ne_comma _) (fun _ => isWord_of_mem_kept)
      isWord_objectName]

end Canonical

end HookDispatch.TypeName
