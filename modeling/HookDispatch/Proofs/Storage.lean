import HookDispatch.Proofs.TypeName.Slots
import HookDispatch.Proofs.TypeName.Cuts
import HookDispatch.TypeName.Basic

/-!
The storage of slices and arrays. What tells an array from a slice is a semicolon outside of the
brackets of its interior, and the scan for it counts brackets character by character, so that the
tip of an arrow closes one. An element type without arrows is read right. With an arrow in it, the
semicolon of an array is passed over, and one inside brackets may be taken for it.
-/
namespace HookDispatch.TypeName

open Text

/-- How many brackets a piece opens. An arrow closes none. -/
def Piece.nesting : Piece → Int
  | .sign c => if opensBracket c then 1 else if closesBracket c then -1 else 0
  | _ => 0

def nesting : List Piece → Int
  | [] => 0
  | p :: ps => p.nesting + nesting ps

def arrows (ps : List Piece) : Nat := ps.count .arrow

/-- Some semicolon comes after pieces of the given kind. -/
def SemicolonAfter (P : List Piece → Prop) (ps : List Piece) : Prop :=
  ∃ i < ps.length, ps[i]? = some (.sign ';') ∧ P (ps.take i)

instance (P : List Piece → Prop) [DecidablePred P] (ps : List Piece) :
    Decidable (SemicolonAfter P ps) :=
  inferInstanceAs (Decidable (∃ i < ps.length, ps[i]? = some (.sign ';') ∧ P (ps.take i)))

/-- A semicolon stands outside of all brackets. -/
def Divided : List Piece → Prop := SemicolonAfter fun front => nesting front = 0

/-- A semicolon stands within as many brackets as there are arrows before it, `k` of them before
the text. -/
def SeemsDivided (k : Nat) : List Piece → Prop :=
  SemicolonAfter fun front => nesting front = k + arrows front

instance (ps : List Piece) : Decidable (Divided ps) :=
  inferInstanceAs (Decidable (SemicolonAfter _ ps))

instance (k : Nat) (ps : List Piece) : Decidable (SeemsDivided k ps) :=
  inferInstanceAs (Decidable (SemicolonAfter _ ps))

def sliceOf (element : String) : TypeName := ⟨"[" ++ element ++ "]"⟩

def arrayOf (element length : String) : TypeName := ⟨"[" ++ element ++ ";" ++ length ++ "]"⟩

def vecOf (element : String) : TypeName := ⟨"Vec<" ++ String.ofList (trim element.toList) ++ ">"⟩

variable {c : Char} {p : Piece} {ps as bs : List Piece} {cs text : List Char} {d : Int} {k : Nat}
  {P Q : List Piece → Prop} {t : TypeName}

section Semicolons

theorem semicolonAfter_cons :
    SemicolonAfter P (p :: ps) ↔
    (p = .sign ';' ∧ P []) ∨ SemicolonAfter (fun front => P (p :: front)) ps := by
  unfold SemicolonAfter
  rw [List.length_cons, Nat.exists_lt_succ_left]
  simp

theorem semicolonAfter_append_cons : SemicolonAfter P (as ++ .sign ';' :: bs) ↔
    SemicolonAfter P as ∨ P as ∨ SemicolonAfter (fun front => P (as ++ .sign ';' :: front)) bs := by
  induction as generalizing P with
  | nil =>
    rw [List.nil_append, semicolonAfter_cons]
    simp [SemicolonAfter]
  | cons a as ih =>
    rw [List.cons_append, semicolonAfter_cons, ih, semicolonAfter_cons, or_assoc]
    rfl

theorem SemicolonAfter.congr (h : ∀ front, P front ↔ Q front) :
    SemicolonAfter P ps ↔ SemicolonAfter Q ps := by
  have hsame : P = Q := funext fun front => propext (h front)
  rw [hsame]

@[simp]
theorem nesting_nil : nesting [] = 0 := rfl

@[simp]
theorem nesting_cons (p : Piece) (ps : List Piece) :
    nesting (p :: ps) = p.nesting + nesting ps := rfl

@[simp]
theorem nesting_append (as bs : List Piece) : nesting (as ++ bs) = nesting as + nesting bs := by
  induction as with
  | nil => simp
  | cons p as ih =>
    rw [List.cons_append, nesting_cons, nesting_cons, ih]
    omega

@[simp]
theorem arrows_nil : arrows [] = 0 := rfl

@[simp]
theorem arrows_append (as bs : List Piece) : arrows (as ++ bs) = arrows as + arrows bs :=
  List.count_append

theorem arrows_cons (p : Piece) (ps : List Piece) :
    arrows (p :: ps) = arrows [p] + arrows ps := arrows_append [p] ps

end Semicolons

section Scan

def isFlat (c : Char) : Bool := !opensBracket c && !closesBracket c && c != ';'

def stopSigns : List Char := ['<', '(', '[', '>', ')', ']', ';']

theorem mem_stopSigns (h : ¬ isFlat c = true) : c ∈ stopSigns := by
  simp only [isFlat, opensBracket, closesBracket, Bool.and_eq_true, Bool.not_eq_true',
    Bool.or_eq_false_iff, decide_eq_false_iff_not, bne_iff_ne] at h
  simp only [stopSigns, List.mem_cons, List.not_mem_nil, or_false]
  tauto

/-- A class of characters without these is passed over. -/
theorem isFlat_of_class {q : Char → Bool} (hq : stopSigns.any q = false) (h : q c = true) :
    isFlat c = true := by
  by_contra hflat
  exact List.any_eq_false.mp hq c (mem_stopSigns hflat) h

theorem isFlat_of_isWordChar (h : isWordChar c = true) : isFlat c = true :=
  isFlat_of_class (by decide) h

theorem semicolonOutside_cons_of_flat (h : isFlat c = true) (d : Int) (text : List Char) :
    semicolonOutside d (c :: text) = semicolonOutside d text := by
  simp only [isFlat, Bool.and_eq_true, Bool.not_eq_true', bne_iff_ne] at h
  obtain ⟨⟨hopen, hclose⟩, hsemicolon⟩ := h
  simp [semicolonOutside, hopen, hclose, hsemicolon]

theorem semicolonOutside_append_of_flat (h : cs.all isFlat = true) (d : Int)
    (text : List Char) : semicolonOutside d (cs ++ text) = semicolonOutside d text := by
  induction cs with
  | nil => rfl
  | cons c cs ih =>
    obtain ⟨hc, hcs⟩ := Bool.and_eq_true_iff.mp (List.all_cons ▸ h)
    rw [List.cons_append, semicolonOutside_cons_of_flat hc, ih hcs]

/-- The scan takes a piece for what it is, but an arrow for a closing bracket. -/
theorem semicolonOutside_piece (hp : p.Proper) (d : Int) (text : List Char) :
    semicolonOutside d (p.chars ++ text) = true ↔
      (p = .sign ';' ∧ d = 0) ∨ semicolonOutside (d + p.nesting - arrows [p]) text = true := by
  cases p with
  | word w =>
    have hflat : w.all isFlat = true :=
      List.all_eq_true.mpr fun c hc => isFlat_of_isWordChar (hp.2 c hc)
    rw [Piece.chars, semicolonOutside_append_of_flat hflat]
    simp [Piece.nesting, arrows]
  | lifetime name =>
    have hflat : ('\'' :: name).all isFlat = true := by
      rw [List.all_eq_true]
      intro c hc
      rcases List.mem_cons.mp hc with rfl | hc
      · rfl
      · exact isFlat_of_isWordChar (hp c hc)
    rw [Piece.chars, semicolonOutside_append_of_flat hflat]
    simp [Piece.nesting, arrows]
  | rawMark =>
    rw [Piece.chars, semicolonOutside_append_of_flat (by decide)]
    simp [Piece.nesting, arrows]
  | pathSep =>
    rw [Piece.chars, semicolonOutside_append_of_flat (by decide)]
    simp [Piece.nesting, arrows]
  | arrow =>
    have hdash : semicolonOutside d (Piece.arrow.chars ++ text) = semicolonOutside (d - 1) text :=
      semicolonOutside_cons_of_flat rfl d ('>' :: text)
    rw [hdash]
    simp [Piece.nesting, arrows]
  | sign c =>
    have harrows : arrows [.sign c] = 0 := rfl
    rw [Piece.chars, List.singleton_append, semicolonOutside, harrows, Piece.nesting]
    by_cases hopen : opensBracket c = true
    · have hc : c ≠ ';' := by
        rintro rfl
        cases hopen
      simp [hopen, hc]
    · by_cases hclose : closesBracket c = true
      · have hc : c ≠ ';' := by
          rintro rfl
          cases hclose
        simp [hopen, hclose, hc, Int.sub_eq_add_neg]
      · simp [hopen, hclose]

theorem semicolonOutside_blank (h : isBlank c = true) (d : Int) (text : List Char) :
    semicolonOutside d (c :: text) = semicolonOutside d text :=
  semicolonOutside_cons_of_flat (isFlat_of_class (by decide) h) d text

/-- The scan finds a semicolon where the brackets that are open make up for the arrows. -/
theorem semicolonOutside_iff (d : Int) (text : List Char) : semicolonOutside d text = true ↔
    SemicolonAfter (fun front => d + nesting front = arrows front) (pieces text) := by
  have hspells : ∀ {ps : List Piece} {text : List Char}, Spells ps text → ∀ d : Int,
      (semicolonOutside d text = true ↔
        SemicolonAfter (fun front => d + nesting front = arrows front) ps) := by
    intro ps text h
    induction h with
    | nil =>
      intro d
      simp [semicolonOutside, SemicolonAfter]
    | blank hc h ih =>
      intro d
      rw [semicolonOutside_blank hc]
      exact ih d
    | @piece p ps text hp hends h ih =>
      intro d
      rw [semicolonOutside_piece hp, ih, semicolonAfter_cons]
      apply or_congr
      · simp
      · apply SemicolonAfter.congr
        intro front
        rw [nesting_cons, arrows_cons p front]
        omega
  exact hspells (spells_pieces text) d

theorem seemsDivided_iff : SeemsDivided 0 (pieces text) ↔ semicolonOutside 0 text = true := by
  rw [semicolonOutside_iff]
  apply SemicolonAfter.congr
  intro front
  omega

end Scan

section Shapes

theorem head?_dropEndWhile {q : Char → Bool} (h : q c = false) (cs : List Char) :
    (dropEndWhile q (c :: cs)).head? = some c := by
  rw [← List.singleton_append, dropEndWhile_append]
  split
  · simp [dropEndWhile, h]
  · rfl

/-- What a canonical text begins with. -/
theorem head?_canonicalChars {x : Token} {ts : List Token} (h : tokenize text = x :: ts)
    (hx : ∃ rest, x.spelling ts.head? = c :: rest) (hc : isTrailing c = false) :
    (canonicalChars text).head? = some c := by
  obtain ⟨rest, hx⟩ := hx
  rw [canonicalChars, h, spell, hx, List.cons_append]
  exact head?_dropEndWhile hc _

theorem trim_enclosed {o e : Char} (ho : isBlank o = false) (he : isBlank e = false)
    (cs : List Char) : trim (o :: (cs ++ [e])) = o :: (cs ++ [e]) := by
  have hleft : trimLeft (o :: (cs ++ [e])) = (o :: cs) ++ [e] := by
    rw [trimLeft, List.dropWhile_cons, if_neg (by simp [ho]), List.cons_append]
  rw [trim, hleft, dropEndWhile_append_singleton, he]
  rfl

theorem squareInterior_enclosed (cs : List Char) :
    squareInterior ('[' :: (cs ++ [']'])) = some cs := by
  simp [squareInterior]

theorem canonical_ne_str (h : (canonicalChars t.source.toList).head? ≠ some 's') :
    t.canonical ≠ "str" := by
  intro heq
  apply h
  have hchars := congrArg String.toList heq
  rw [canonical, canonicalize, String.toList_ofList] at hchars
  rw [hchars]
  rfl

theorem tokenize_square (cs : List Char) :
    tokenize ('[' :: cs) = .mark .squareOpen :: tokenize cs := by
  rw [tokenize, pieces_sign ⟨by decide, by decide, by decide⟩ ⟨by simp, by simp⟩]
  exact tokensOf_append_cons rfl (by decide) [] (pieces cs)

/-- The storage of a type in square brackets. -/
theorem storage_sliceOf (inner : String) : (sliceOf inner).storage =
    if SeemsDivided 0 (pieces inner.toList) then sliceOf inner else vecOf inner := by
  have hsource : (sliceOf inner).source.toList = '[' :: (inner.toList ++ [']']) := by
    simp [sliceOf]
  have hstr : (sliceOf inner).canonical ≠ "str" := by
    apply canonical_ne_str
    rw [hsource, head?_canonicalChars (tokenize_square _) ⟨[], rfl⟩ (by decide)]
    decide
  rw [storage, if_neg hstr, sliceElement, hsource, trim_enclosed (by decide) (by decide),
    squareInterior_enclosed]
  by_cases hseems : SeemsDivided 0 (pieces inner.toList)
  · rw [if_pos hseems, Option.filter_some, seemsDivided_iff.mp hseems]
    rfl
  · have hscan : semicolonOutside 0 inner.toList = false :=
      Bool.eq_false_iff.mpr fun h => hseems (seemsDivided_iff.mpr h)
    rw [if_neg hseems, Option.filter_some, hscan]
    rfl

/-- A list is stored as it is. -/
theorem storage_vecOf (element : String) : (vecOf element).storage = vecOf element := by
  have hsource : (vecOf element).source.toList =
      'V' :: ("ec<".toList ++ trim element.toList ++ ['>']) := by
    simp [vecOf]
  have hstr : (vecOf element).canonical ≠ "str" := by
    apply canonical_ne_str
    have htext : (vecOf element).source.toList =
        "Vec".toList ++ '<' :: (trim element.toList ++ ['>']) := by
      simp [vecOf]
    have hvec : pieces "Vec".toList = [.word "Vec".toList] := by decide +kernel
    have hpieces : pieces (vecOf element).source.toList =
        [.word "Vec".toList] ++ .sign '<' :: pieces (trim element.toList ++ ['>']) := by
      rw [htext, pieces_append rfl, hvec,
        pieces_sign ⟨by decide, by decide, by decide⟩ ⟨by simp, by simp⟩]
    have htokens : tokenize (vecOf element).source.toList = .word "Vec".toList :: .mark .less ::
        tokensOf (pieces (trim element.toList ++ ['>'])) := by
      rw [tokenize, hpieces]
      exact tokensOf_append_cons rfl (by decide) [.word "Vec".toList] _
    rw [head?_canonicalChars htokens ⟨_, rfl⟩ (by decide)]
    decide
  rw [storage, if_neg hstr, sliceElement, hsource, trim_enclosed (by decide) (by decide)]
  rfl

/-- What a type is stored as is stored as it is. -/
theorem storage_storage (t : TypeName) : t.storage.storage = t.storage := by
  by_cases hstr : t.canonical = "str"
  · have hstring : t.storage = ⟨"String"⟩ := by rw [storage, if_pos hstr]
    rw [hstring]
    decide +kernel
  · cases helement : t.sliceElement with
    | some element =>
      have hvec : t.storage = vecOf (String.ofList element) := by
        rw [storage, if_neg hstr, helement, vecOf, String.toList_ofList]
      rw [hvec, storage_vecOf]
    | none =>
      have hself : t.storage = t := by rw [storage, if_neg hstr, helement]
      rw [hself, hself]

end Shapes

/-- The interior of an array seems divided by its semicolon if there was no arrow, and else by one
inside of brackets. -/
theorem seemsDivided_array {element : String} (h : nesting (pieces element.toList) = 0)
    (length : String) :
    SeemsDivided 0 (pieces (element ++ ";" ++ length).toList) ↔
      SeemsDivided 0 (pieces element.toList) ∨ arrows (pieces element.toList) = 0 ∨
        SeemsDivided (arrows (pieces element.toList)) (pieces length.toList) := by
  have htext : (element ++ ";" ++ length).toList = element.toList ++ ';' :: length.toList := by
    simp
  have hpieces : pieces (element ++ ";" ++ length).toList =
      pieces element.toList ++ .sign ';' :: pieces length.toList := by
    rw [htext, pieces_append rfl,
      pieces_sign ⟨by decide, by decide, by decide⟩ ⟨by simp, by simp⟩]
  rw [hpieces, SeemsDivided, semicolonAfter_append_cons]
  apply or_congr_right
  apply or_congr
  · omega
  · apply SemicolonAfter.congr
    intro front
    have hsemicolon : (Piece.sign ';').nesting = 0 ∧ arrows [.sign ';'] = 0 := ⟨rfl, rfl⟩
    rw [nesting_append, nesting_cons, arrows_append, arrows_cons (.sign ';') front]
    omega

/-- Without arrows, the scan is right. -/
theorem seemsDivided_iff_divided (h : arrows ps = 0) : SeemsDivided 0 ps ↔ Divided ps := by
  have htake : ∀ i, arrows (ps.take i) = 0 := by
    intro i
    have hle : arrows (ps.take i) ≤ arrows ps := (List.take_sublist i ps).count_le _
    omega
  unfold SeemsDivided Divided SemicolonAfter
  simp only [htake]
  rfl

/-- Slices are stored as lists and arrays as they are, if no arrow comes in between. An arrow is
taken for a closing bracket: after one the semicolon of an array is passed over, and a slice or an
array is taken for an array where a semicolon stands within as many brackets as there were arrows
before it. What a type is stored as is stored as it is, in any case. -/
theorem storage_of_brackets {element : String} (helement : nesting (pieces element.toList) = 0)
    (length : String) :
    (∀ t : TypeName, t.storage.storage = t.storage) ∧
    (arrows (pieces element.toList) = 0 → ¬ Divided (pieces element.toList) →
      (sliceOf element).storage = vecOf element ∧
      (arrayOf element length).storage = arrayOf element length) ∧
    (sliceOf element).storage =
      (if SeemsDivided 0 (pieces element.toList) then sliceOf element else vecOf element) ∧
    (arrayOf element length).storage =
      (if SeemsDivided 0 (pieces element.toList) ∨ arrows (pieces element.toList) = 0 ∨
          SeemsDivided (arrows (pieces element.toList)) (pieces length.toList)
        then arrayOf element length else vecOf (element ++ ";" ++ length)) := by
  have harray : (arrayOf element length).storage =
      if SeemsDivided 0 (pieces element.toList) ∨ arrows (pieces element.toList) = 0 ∨
          SeemsDivided (arrows (pieces element.toList)) (pieces length.toList)
        then arrayOf element length else vecOf (element ++ ";" ++ length) := by
    have hinner : arrayOf element length = sliceOf (element ++ ";" ++ length) := by
      simp [arrayOf, sliceOf, String.append_assoc]
    rw [hinner, storage_sliceOf]
    exact if_congr (seemsDivided_array helement length) rfl rfl
  refine ⟨storage_storage, ?_, storage_sliceOf element, harray⟩
  intro harrows hdivided
  rw [storage_sliceOf, harray, if_neg (mt (seemsDivided_iff_divided harrows).mp hdivided),
    if_pos (.inr (.inl harrows))]
  exact ⟨rfl, rfl⟩

/-- Semicolons inside of the brackets of the element type. -/
theorem storage_of_brackets_specimen :
    nesting (pieces "Vec<([u8; 2], &[A])>".toList) = 0 ∧
      (sliceOf "Vec<([u8; 2], &[A])>").storage = vecOf "Vec<([u8; 2], &[A])>" ∧
      (arrayOf "Vec<([u8; 2], &[A])>" " 4").storage = arrayOf "Vec<([u8; 2], &[A])>" " 4" := by
  have helement : nesting (pieces "Vec<([u8; 2], &[A])>".toList) = 0 := by decide +kernel
  obtain ⟨-, hplain, -⟩ := storage_of_brackets helement " 4"
  exact ⟨helement, hplain (by decide +kernel) (by decide +kernel)⟩

/-- An array of functions with a result is stored as a list, and a slice of functions whose result
is an array is stored as it is. -/
theorem array_of_functions :
    nesting (pieces "fn() -> u8".toList) = 0 ∧ ¬ Divided (pieces "fn() -> u8".toList) ∧
      ¬ Divided (pieces " 4".toList) ∧
      (arrayOf "fn() -> u8" " 4").storage = ⟨"Vec<fn() -> u8; 4>"⟩ ∧
      (arrayOf "fn() -> u8" " 4").sameType (arrayOf "fn() -> u8" " 4").storage = false ∧
      nesting (pieces "fn() -> [u8; 4]".toList) = 0 ∧
      ¬ Divided (pieces "fn() -> [u8; 4]".toList) ∧
      (sliceOf "fn() -> [u8; 4]").storage = sliceOf "fn() -> [u8; 4]" ∧
      (sliceOf "fn() -> [u8; 4]").sameType (vecOf "fn() -> [u8; 4]") = false := by
  decide +kernel

end HookDispatch.TypeName
