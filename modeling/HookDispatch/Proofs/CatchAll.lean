import HookDispatch.Hooks.Eligibility
import HookDispatch.Proofs.DescribedMethods
import HookDispatch.Proofs.TypeName.Endings

/-!
Which parameters take all remaining arguments. A slice and a `Vec` of the erased object type are
known by their canonical text if the type is written with its bare name. If it is written with a
path, only the end of the text is looked at, so that any type counts that ends in the path and a
closing bracket. A method with such a parameter is no hook, and it may be one if the path is
shortened to the name.
-/
namespace HookDispatch

open Source

namespace TypeName

def shownTokens (t : TypeName) : List Token := (kept (tokenize t.source.toList)).map Token.square

def sliceTokens (element : List Token) : List Token :=
  .mark .squareOpen :: (element ++ [Token.mark .squareClose])

def vecTokens (element : List Token) : List Token :=
  .word "Vec".toList :: .mark .less :: (element ++ [Token.mark .greater])

/-- What counts as a list of erased objects: a slice or a `Vec` of the bare name, or anything that
ends in a path to the name and a closing bracket. -/
def ListsObjects (ts : List Token) : Prop :=
  ts = sliceTokens [.word objectName] ∨
    ts = (vecTokens [.word objectName]).map Token.square ∨
    [.mark .pathSep, .word objectName, .mark .squareClose] <:+ ts

instance (ts : List Token) : Decidable (ListsObjects ts) :=
  inferInstanceAs (Decidable (_ ∨ _ ∨ _))

/-- Only a closing bracket is shown of the tokens. -/
def OnlyCloses (ts : List Token) : Prop := (kept ts).map Token.square = [.mark .squareClose]

/-- Two types that are alike but for a path to the erased object type, which is the bare name in the
first one. -/
structure Lengthens (rooted : Bool) (modules : List (List Char)) (front back : List Token)
    (short long : TypeName) : Prop where
  short : tokenize short.source.toList = front ++ (pathTokens false [] objectName ++ back)
  long : tokenize long.source.toList = front ++ (pathTokens rooted modules objectName ++ back)
  longer : rooted = true ∨ modules ≠ []

variable {e short long : TypeName} {ts us front back : List Token} {rooted : Bool}
  {modules : List (List Char)} {last : List Char}

section Shown

theorem isCatchAll_iff (e : TypeName) : isCatchAll e = true ↔ ListsObjects e.shownTokens := by
  have hslice : (e.canonical == "[Object]") = true ↔
      e.shownTokens = sliceTokens [.word objectName] := by
    have htext : canonicalize "[Object]" = "[Object]" := by decide +kernel
    have hkept : (kept (tokenize "[Object]".toList)).map Token.square =
        sliceTokens [.word objectName] := by decide +kernel
    rw [beq_iff_eq, canonical, ← htext, canonicalize_eq_iff_kept, hkept, shownTokens]
  have hvec : (e.canonical == "Vec[Object]") = true ↔
      e.shownTokens = (vecTokens [.word objectName]).map Token.square := by
    have htext : canonicalize "Vec[Object]" = "Vec[Object]" := by decide +kernel
    have hkept : (kept (tokenize "Vec[Object]".toList)).map Token.square =
        (vecTokens [.word objectName]).map Token.square := by decide +kernel
    rw [beq_iff_eq, canonical, ← htext, canonicalize_eq_iff_kept, hkept, shownTokens]
  rw [isCatchAll, Bool.or_eq_true, Bool.or_eq_true, hslice, hvec, canonical_endsWith_iff, or_assoc]
  rfl

theorem pathTokens_name (last : List Char) : pathTokens false [] last = [.word last] := rfl

theorem map_square_pathTokens (rooted : Bool) (modules : List (List Char)) (last : List Char) :
    (pathTokens rooted modules last).map Token.square = pathTokens rooted modules last := by
  refine (List.map_congr_left fun t ht => ?_).trans (List.map_id _)
  rcases mem_pathTokens ht with hword | rfl
  · cases t with
    | word w => rfl
    | mark m => cases hword
  · rfl

/-- A path is shown as it is, and so is what stands around it. -/
theorem shownTokens_of_path
    (h : tokenize e.source.toList = front ++ (pathTokens rooted modules last ++ back)) :
    e.shownTokens = (prune front).map Token.square ++
      (pathTokens rooted modules last ++ (kept back).map Token.square) := by
  have hkept := kept_pathTokens_append rooted modules last back
  have hne : pathTokens rooted modules last ≠ [] := by simp [pathTokens]
  have hhead : (pathTokens rooted modules last ++ back).head?.any Token.closes = false := by
    obtain ⟨t, ts, hcons⟩ := List.exists_cons_of_ne_nil hne
    have ht : t ∈ pathTokens rooted modules last := by simp [hcons]
    rw [hcons]
    rcases mem_pathTokens ht with hword | rfl
    · cases t with
      | word w => rfl
      | mark m => cases hword
    · rfl
  rw [shownTokens, h, kept_append fun _ => ⟨hhead, by simp [hkept, hne]⟩, hkept, List.map_append,
    List.map_append, map_square_pathTokens]

end Shown

section Lists

theorem prefix_append_name (us ts : List Token) :
    [.mark .squareClose, .word objectName, .mark .pathSep] <+: us ++ Token.word objectName :: ts ↔
      (us = [.mark .squareClose] ∧ ts.head? = some (.mark .pathSep)) ∨
        [.mark .squareClose, .word objectName, .mark .pathSep] <+: us := by
  rcases us with _ | ⟨a, _ | ⟨b, _ | ⟨c, us⟩⟩⟩
  · simp
  · cases ts with
    | nil => simp
    | cons t ts => simp [@eq_comm _ a, @eq_comm _ t]
  · simp
  · simp

/-- What goes on after the name ends in a path to the name and a closing bracket if this comes
after it, or if the bracket does and the path before it. -/
theorem suffix_name_append (ts us : List Token) :
    [.mark .pathSep, .word objectName, .mark .squareClose] <:+ ts ++ Token.word objectName :: us ↔
      (us = [.mark .squareClose] ∧ ts.getLast? = some (.mark .pathSep)) ∨
        [.mark .pathSep, .word objectName, .mark .squareClose] <:+ us := by
  have hreverse := prefix_append_name us.reverse ts.reverse
  rw [List.head?_reverse, List.reverse_eq_iff] at hreverse
  have hreversed (vs : List Token) :
      [.mark .pathSep, .word objectName, .mark .squareClose] <:+ vs ↔
        [.mark .squareClose, .word objectName, .mark .pathSep] <+: vs.reverse :=
    List.reverse_prefix.symm
  rw [hreversed, hreversed, List.reverse_append, List.reverse_cons, List.append_assoc,
    List.singleton_append, hreverse]
  rfl

/-- What the bare name counts for depends on all that comes before it. -/
theorem listsObjects_name_iff (ts us : List Token) :
    ListsObjects (ts ++ Token.word objectName :: us) ↔
      (us = [.mark .squareClose] ∧ (ts = [.mark .squareOpen] ∨
        ts = [.word "Vec".toList, .mark .squareOpen] ∨ ts.getLast? = some (.mark .pathSep))) ∨
      [.mark .pathSep, .word objectName, .mark .squareClose] <:+ us := by
  have hopen (front : List Token) (hfront : .word objectName ∉ front) :
      ts ++ Token.word objectName :: us = front ++ Token.word objectName :: [.mark .squareClose] ↔
        ts = front ∧ us = [.mark .squareClose] := by
    rw [eq_comm, List.append_cons_inj_of_notMem hfront (by simp)]
    simp [eq_comm]
  have hslice : ts ++ Token.word objectName :: us = sliceTokens [.word objectName] ↔
      ts = [.mark .squareOpen] ∧ us = [.mark .squareClose] :=
    hopen [.mark .squareOpen] (by simp)
  have hvec : ts ++ Token.word objectName :: us = (vecTokens [.word objectName]).map Token.square ↔
      ts = [.word "Vec".toList, .mark .squareOpen] ∧ us = [.mark .squareClose] :=
    hopen [.word "Vec".toList, .mark .squareOpen] (by decide)
  rw [ListsObjects, suffix_name_append, hslice, hvec, and_or_left, and_or_left, or_assoc, or_assoc,
    @and_comm (ts = [.mark .squareOpen]), @and_comm (ts = _)]

/-- What a path counts for depends on what comes after it only. -/
theorem listsObjects_path_iff (hlonger : rooted = true ∨ modules ≠ []) (ts us : List Token) :
    ListsObjects (ts ++ (pathTokens rooted modules objectName ++ us)) ↔
      us = [.mark .squareClose] ∨
        [.mark .pathSep, .word objectName, .mark .squareClose] <:+ us := by
  obtain ⟨before, hpath⟩ := suffix_pathTokens hlonger objectName
  have hsplit : ts ++ (pathTokens rooted modules objectName ++ us) =
      (ts ++ (before ++ [Token.mark .pathSep])) ++ Token.word objectName :: us := by
    simp [← hpath]
  have hlast : (ts ++ (before ++ [Token.mark .pathSep])).getLast? = some (.mark .pathSep) := by
    simp
  rw [hsplit, listsObjects_name_iff, and_iff_left (.inr (.inr hlast))]

/-- With a longer path more types count as lists, those in which only a closing bracket comes after
the path. -/
theorem listsObjects_longer_iff (h : Lengthens rooted modules front back short long) :
    ListsObjects long.shownTokens ↔ ListsObjects short.shownTokens ∨ OnlyCloses back := by
  rw [OnlyCloses, shownTokens_of_path h.long, shownTokens_of_path h.short,
    listsObjects_path_iff h.longer, pathTokens_name, List.singleton_append, listsObjects_name_iff]
  constructor
  · rintro (hback | hsuffix)
    · exact .inr hback
    · exact .inl (.inr hsuffix)
  · rintro ((⟨hback, -⟩ | hsuffix) | hback)
    · exact .inl hback
    · exact .inr hsuffix
    · exact .inl hback

theorem name_suffix_of_listsObjects (h : ListsObjects ts) :
    [.word objectName, .mark .squareClose] <:+ ts := by
  rcases h with rfl | rfl | hsuffix
  · exact ⟨[.mark .squareOpen], rfl⟩
  · exact ⟨[.word "Vec".toList, .mark .squareOpen], rfl⟩
  · exact (List.suffix_cons _ _).trans hsuffix

/-- A slice or a `Vec` of a plain path counts as a list exactly if the path leads to the erased
object type. -/
theorem listsObjects_list_iff
    (h : tokenize e.source.toList = sliceTokens (pathTokens rooted modules last) ∨
      tokenize e.source.toList = vecTokens (pathTokens rooted modules last)) :
    ListsObjects e.shownTokens ↔ last = objectName := by
  have hshown : ∃ ts, (ts = [.mark .squareOpen] ∨ ts = [.word "Vec".toList, .mark .squareOpen]) ∧
      e.shownTokens = ts ++ (pathTokens rooted modules last ++ [Token.mark .squareClose]) := by
    rcases h with h | h
    · have hshown := @shownTokens_of_path e [.mark .squareOpen] [.mark .squareClose] _ _ _ h
      exact ⟨_, .inl rfl, hshown⟩
    · have hshown :=
        @shownTokens_of_path e [.word "Vec".toList, .mark .less] [.mark .greater] _ _ _ h
      exact ⟨_, .inr rfl, hshown⟩
  obtain ⟨ts, hts, hshown⟩ := hshown
  rw [hshown]
  constructor
  · intro hlists
    have hsuffix : [Token.word objectName] ++ [Token.mark .squareClose] <:+
        (ts ++ pathTokens rooted modules last) ++ [Token.mark .squareClose] := by
      rw [List.append_assoc]
      exact name_suffix_of_listsObjects hlists
    have hname := ((List.suffix_append_inj_of_length_eq rfl).mp hsuffix).1
    rw [List.singleton_suffix_iff_getLast?_eq_some, pathTokens, ← List.append_assoc,
      List.getLast?_concat] at hname
    exact Token.word.inj (Option.some.inj hname)
  · rintro rfl
    by_cases hlonger : rooted = true ∨ modules ≠ []
    · exact (listsObjects_path_iff hlonger _ _).mpr (.inl rfl)
    · obtain ⟨hroot, hmodules⟩ := not_or.mp hlonger
      rw [Bool.eq_false_iff.mpr hroot, not_not.mp hmodules, pathTokens_name,
        List.singleton_append, listsObjects_name_iff, ← or_assoc]
      exact .inl ⟨rfl, .inl hts⟩

end Lists

end TypeName

open HookDispatch.TypeName

variable {b : ImplBlock} {d : Description} {m : Method} {p : Parameter}
  {before after : List Parameter} {t : MethodTable} {long : TypeName} {rooted : Bool}
  {modules : List (List Char)} {front back : List Token}

section Described

def classified (e : TypeName) : TypeName × Bool := (e, ListsObjects e.shownTokens)

theorem isCatchAll_eq (e : TypeName) : isCatchAll e = decide (ListsObjects e.shownTokens) := by
  rw [Bool.eq_iff_iff, isCatchAll_iff, decide_eq_true_eq]

/-- The parameters of a method as they are described. -/
theorem classified_params (f : FnItem) (typeName : String) (typeParams : List String)
    (tag : Option HookTag) :
    (f.describe typeName typeParams tag).params.map (fun p => (p.element, p.variadic)) =
      f.params.map fun written => classified ⟨written.2.element.render⟩ := by
  have hparameter (name : String) (t : TypeExpr) :
      ((parameter name t).element, (parameter name t).variadic) =
        classified ⟨t.element.render⟩ := by
    rw [classified, ← isCatchAll_eq]
    rfl
  rw [← List.forall₂_eq_eq_eq, List.forall₂_map_left_iff, List.forall₂_map_right_iff]
  refine f.forall₂_parameters.flip.imp ?_
  rintro p written ⟨name, rfl⟩
  exact hparameter name written.2

theorem classified_methods (h : b.describe = .ok d) :
    (d.table.methods.map fun m => m.params.map fun p => (p.element, p.variadic)) =
      (b.methods.filter (·.tag?.isSome)).map fun f =>
        f.params.map fun written => classified ⟨written.2.element.render⟩ := by
  rw [← List.forall₂_eq_eq_eq, List.forall₂_map_left_iff, List.forall₂_map_right_iff]
  refine (ImplBlock.forall₂_methods h).flip.imp ?_
  intro m f hmethod
  obtain ⟨tag, -, rfl⟩ := Option.map_eq_some_iff.mp hmethod
  exact classified_params f _ _ tag

end Described

section Respelled

/-- The method with another element type at one of its parameters. -/
def Method.respelled (m : Method) (before : List Parameter) (p : Parameter)
    (after : List Parameter) (long : TypeName) : Method :=
  { m with params := before ++ { p with element := long, variadic := isCatchAll long } :: after }

/-- A parameter that takes all remaining arguments in addition is one more reason against a
method, and nothing else is. -/
theorem skipReason_respelled_iff {q : Prop} (hparams : m.params = before ++ p :: after)
    (hlong : isCatchAll long = true ↔ p.variadic = true ∨ q) :
    t.skipReason (m.respelled before p after long) = none ↔ t.skipReason m = none ∧ ¬ q := by
  have hvariadic : t.refuses (m.respelled before p after long) .variadic = true ↔
      t.refuses m .variadic = true ∨ q := by
    simp only [MethodTable.refuses, Method.respelled, hparams, List.any_append, List.any_cons,
      Bool.or_eq_true, hlong]
    rw [or_right_comm, ← or_assoc]
  have hother (r : SkipReason) (hr : r ≠ .variadic) :
      t.refuses (m.respelled before p after long) r = t.refuses m r := by
    cases r with
    | variadic => exact absurd rfl hr
    | _ => rfl
  rw [t.skipReason_eq_none_iff_of_reason _ .variadic,
    t.skipReason_eq_none_iff_of_reason _ .variadic, ← Bool.not_eq_true, hvariadic, not_or,
    Bool.not_eq_true, and_right_comm]
  exact and_congr_left' (and_congr_right' (forall₂_congr fun r hr => by rw [hother r hr]))

end Respelled

/-- What a description marks as taking all remaining arguments, and keeps from being a hook. The
type behind one reference decides, by the tokens that its canonical text ends with. Slices and
`Vec`s of plain paths are judged by the last name of the path. A longer path to the erased object
type makes no difference, unless only a closing bracket comes after it: then any type is marked, and
its method is no hook. -/
theorem catch_all_by_ending (h : b.describe = .ok d) :
    (d.table.methods.map fun m => m.params.map fun p => (p.element, p.variadic)) =
      ((b.methods.filter (·.tag?.isSome)).map fun f =>
        f.params.map fun written => classified ⟨written.2.element.render⟩) ∧
    (∀ (e : TypeName) rooted modules last,
      tokenize e.source.toList = sliceTokens (pathTokens rooted modules last) ∨
        tokenize e.source.toList = vecTokens (pathTokens rooted modules last) →
      (ListsObjects e.shownTokens ↔ last = objectName)) ∧
    (∀ rooted modules front back short long, Lengthens rooted modules front back short long →
      (ListsObjects long.shownTokens ↔ ListsObjects short.shownTokens ∨ OnlyCloses back)) ∧
    (∀ m ∈ d.table.methods, ∀ before p after, m.params = before ++ p :: after →
      ∀ rooted modules front back long, Lengthens rooted modules front back p.element long →
        (d.table.skipReason (m.respelled before p after long) = none ↔
          d.table.skipReason m = none ∧ ¬ OnlyCloses back)) := by
  refine ⟨classified_methods h, fun _ _ _ _ => listsObjects_list_iff,
    fun _ _ _ _ _ _ => listsObjects_longer_iff, ?_⟩
  intro m hm before p after hparams rooted modules front back long hlong
  apply skipReason_respelled_iff hparams
  obtain ⟨f, -, tag, -, rfl⟩ := ImplBlock.exists_of_mem_methods h hm
  have hp : (p.element, p.variadic) ∈ f.params.map fun written =>
      classified ⟨written.2.element.render⟩ := by
    rw [← classified_params f _ _ tag, hparams]
    simp
  obtain ⟨written, -, hwritten⟩ := List.mem_map.mp hp
  obtain ⟨helement, hvariadic⟩ := Prod.mk.inj hwritten
  rw [isCatchAll_iff, listsObjects_longer_iff hlong, ← hvariadic, helement, decide_eq_true_eq]

namespace Specimen

def mapTo (names : List String) : TypeExpr :=
  .path (.mk false [.mk "HashMap" (.angle false
    [.type (.path (.word "String")), .type (.path (.mk false (names.map (.mk · .none))))] false)])

def taker (t : TypeExpr) : FnItem where
  attributes := []
  isPublic := false
  isAsync := false
  isUnsafe := false
  name := "take"
  generics := []
  receiver := some (.reference none false (.path (.word "Self")))
  params := [(some "m", t)]
  result := none

def takerBlock (t : TypeExpr) : ImplBlock where
  generics := {}
  whereClause := []
  isTraitImpl := false
  selfType := .path (.word "Plugin")
  methods := [taker t]

def takerDescription (p : Parameter) : Description where
  table := ⟨"Plugin", [{ name := "take", owner := "Plugin", params := [p] }]⟩
  identifiers := [("take", "take")]

theorem describe_takerBlock (t : TypeExpr) (hborrow : t.element.holdsBorrow = false)
    (himpl : t.isImplTrait = false) :
    (takerBlock t).describe = .ok (takerDescription (parameter "m" t)) := by
  have hname : unraw "take" = "take" := by decide +kernel
  have hself : (takerBlock t).selfType.render = "Plugin" := by
    have hrender : (TypeExpr.path (.word "Plugin")).render = "Plugin" := by decide +kernel
    exact hrender
  have hcount : (taker t).genericCount = 0 := by
    simp [FnItem.genericCount, taker, himpl]
  have hborrows : (taker t).holdsBorrow = false := by
    simp [FnItem.holdsBorrow, taker, hborrow]
  have hparams : (taker t).parameters = [parameter "m" t] := rfl
  have hmethod : (taker t).describe "Plugin" [] none =
      { name := "take", owner := "Plugin", params := [parameter "m" t] } := by
    rw [FnItem.describe, hborrows, hcount, hparams]
    simp [taker, hname, FnItem.isCallable, TypeExpr.isReference]
  have hstep : (takerBlock t).describe = .ok
      ⟨(MethodTable.mk "Plugin" []).add ((taker t).describe "Plugin" [] none),
        Identifiers.add [] ((taker t).describe "Plugin" [] none).name "take"⟩ := by
    rw [ImplBlock.describe, hself]
    rfl
  rw [hstep, hmethod]
  rfl

def held (text : String) (variadic : Bool) : Parameter :=
  { name := "m", element := ⟨text⟩, variadic }

theorem holdsBorrow_mapTo : (mapTo ["Object"]).element.holdsBorrow = false ∧
    (mapTo ["hookwire", "Object"]).element.holdsBorrow = false := by
  have hshort : (mapTo ["Object"]).element.tokens =
      [.ident "HashMap", .punct '<' false, .ident "String", .punct ',' false, .ident "Object",
        .punct '>' false] := rfl
  have hlong : (mapTo ["hookwire", "Object"]).element.tokens =
      [.ident "HashMap", .punct '<' false, .ident "String", .punct ',' false, .ident "hookwire",
        .punct ':' true, .punct ':' false, .ident "Object", .punct '>' false] := rfl
  rw [TypeExpr.holdsBorrow, TypeExpr.holdsBorrow, hshort, hlong]
  simp [borrows]

theorem describe_short :
    (takerBlock (mapTo ["Object"])).describe =
      .ok (takerDescription (held "HashMap < String , Object >" false)) := by
  have hrender : (mapTo ["Object"]).element.render = "HashMap < String , Object >" := by
    decide +kernel
  have hparameter :
      parameter "m" (mapTo ["Object"]) = held "HashMap < String , Object >" false := by
    rw [parameter, hrender, isCatchAll_eq]
    decide +kernel
  rw [describe_takerBlock _ holdsBorrow_mapTo.1 rfl, hparameter]

theorem describe_long :
    (takerBlock (mapTo ["hookwire", "Object"])).describe =
      .ok (takerDescription (held "HashMap < String , hookwire :: Object >" true)) := by
  have hrender : (mapTo ["hookwire", "Object"]).element.render =
      "HashMap < String , hookwire :: Object >" := by
    decide +kernel
  have hparameter : parameter "m" (mapTo ["hookwire", "Object"]) =
      held "HashMap < String , hookwire :: Object >" true := by
    rw [parameter, hrender, isCatchAll_eq]
    decide +kernel
  rw [describe_takerBlock _ holdsBorrow_mapTo.2 rfl, hparameter]

theorem lengthens :
    Lengthens false ["hookwire".toList]
      [.word "HashMap".toList, .mark .less, .word "String".toList, .mark .comma] [.mark .greater]
      ⟨"HashMap < String , Object >"⟩ ⟨"HashMap < String , hookwire :: Object >"⟩ :=
  ⟨by decide +kernel, by decide +kernel, by simp⟩

end Specimen

open Specimen

/-- A hook that takes a map is none any more if the values of the map are written with a path. -/
theorem catch_all_by_ending_specimen :
    ∃ d, (takerBlock (mapTo ["Object"])).describe = .ok d ∧ ∃ m ∈ d.table.methods,
      d.table.skipReason m = none ∧
      d.table.skipReason (m.respelled [] (held "HashMap < String , Object >" false) []
        ⟨"HashMap < String , hookwire :: Object >"⟩) ≠ none := by
  obtain ⟨-, -, -, hcollected⟩ := catch_all_by_ending describe_short
  refine ⟨_, describe_short, _, List.mem_singleton_self _, by decide +kernel, ?_⟩
  rw [ne_eq, hcollected _ (List.mem_singleton_self _) [] _ [] rfl _ _ _ _ _ lengthens]
  exact fun h => h.2 rfl

/-- A map is taken for a list of objects, and its method is no hook, if the values of the map are
written with a path; written with the bare name, they make no list. -/
theorem map_taken_for_list :
    (takerBlock (mapTo ["hookwire", "Object"])).describe =
        .ok (takerDescription (held "HashMap < String , hookwire :: Object >" true)) ∧
      (∀ rooted modules last, tokenize "HashMap < String , hookwire :: Object >".toList ∉
        [sliceTokens (pathTokens rooted modules last),
          vecTokens (pathTokens rooted modules last)]) ∧
      (takerBlock (mapTo ["Object"])).describe =
        .ok (takerDescription (held "HashMap < String , Object >" false)) ∧
      (∀ m ∈ (takerDescription (held "HashMap < String , hookwire :: Object >" true)).table.methods,
        MethodTable.skipReason ⟨"Plugin", []⟩ m = some .variadic) ∧
      (∀ m ∈ (takerDescription (held "HashMap < String , Object >" false)).table.methods,
        MethodTable.skipReason ⟨"Plugin", []⟩ m = none) := by
  refine ⟨describe_long, ?_, describe_short, by decide +kernel, by decide +kernel⟩
  intro rooted modules last hmem
  have hfirst : (tokenize "HashMap < String , hookwire :: Object >".toList).head? =
      some (.word "HashMap".toList) := by
    decide +kernel
  rcases List.mem_pair.mp hmem with heq | heq <;> rw [heq] at hfirst <;> cases hfirst

end HookDispatch
