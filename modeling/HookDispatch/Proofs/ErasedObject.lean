import HookDispatch.DispatchLoop.OfProgram
import HookDispatch.Program.Emission
import HookDispatch.Proofs.CanonicalTypes
import HookDispatch.Proofs.TypeName.Endings

/-!
What counts as the erased object type. The test looks at the text behind the last path separator,
so any plain path to the type is found, and no other plain path. A type that has something in front
of such a path is found as well if the path has a separator in it: what the type ends in decides,
and arguments and results of the type are passed on as they are.
-/
namespace HookDispatch

namespace TypeName

/-- The type is written as another type with something in front, which is no path that the other
type goes on with. -/
structure EndsWith (t r : TypeName) (front : List Token) : Prop where
  tokens : tokenize t.source.toList = front ++ tokenize r.source.toList
  shown : kept (tokenize r.source.toList) ≠ []
  seam : ∃ u, front.getLast? = some u ∧ u ≠ .mark .pathSep ∧ u ≠ .mark .comma

variable {t r : TypeName} {last : List Char} {front : List Token} {rooted : Bool}
  {modules : List (List Char)}

section Passing

theorem isObject_of_unit (h : t.canonical = "()") : t.isObject = false := by
  rw [isObject, h]
  decide

theorem ofType_eq_object_iff : ReturnType.ofType t = .object ↔ t.isObject = true := by
  unfold ReturnType.ofType
  split
  · next hunit => simp [isObject_of_unit hunit]
  · split
    · next hobject => simp [hobject]
    · next hobject => simp [hobject]

theorem read_eq_object_iff (index : Nat) :
    DispatchLoop.Read.ofType index t = .ok (.object index) ↔ t.isObject = true := by
  unfold DispatchLoop.Read.ofType
  split
  · next hobject => simp [hobject]
  · next hobject =>
    refine iff_of_false ?_ hobject
    split <;> simp

/-- A result is stored as it is if its type counts as the erased object type. -/
theorem storeReturn_eq_object_iff {m : Method} (h : m.ret = .ofType t) :
    m.storeReturn = [.storeResult .object false] ↔ t.isObject = true := by
  unfold Method.storeReturn
  rw [h, ← ofType_eq_object_iff]
  cases ReturnType.ofType t <;> simp

/-- The final value of a temporary is put back as it is if its type counts as the erased object
type. -/
theorem lower_storeArg_iff (p : Program) (ids : Identifiers) (next : Nat)
    (s : DispatchLoop.Operands) (index : Nat) (temp : TempId) :
    DispatchLoop.lowerOperation p ids next s (.storeArg index temp t) =
      .ok ([.storeArg index temp.toNat false], s) ↔ t.isObject = true := by
  rw [DispatchLoop.lowerOperation]
  simp

end Passing

section Paths

theorem isObject_path_iff (h : tokenize t.source.toList = pathTokens rooted modules last) :
    t.isObject = true ↔ last = objectName := by
  rw [isObject_iff, h, kept_pathTokens, endsIn_pathTokens]

theorem isObject_endsWith_iff (h : EndsWith t r front) :
    t.isObject = true ↔
      r.isObject = true ∧ kept (tokenize r.source.toList) ≠ [.word objectName] := by
  obtain ⟨u, hlast, hsep, hcomma⟩ := h.seam
  have hno : front.getLast? ≠ some (.mark .comma) := by
    rw [hlast]
    exact fun heq => hcomma (Option.some.inj heq)
  have hpruned : (prune front).getLast? = some u := (getLast?_prune hno).trans hlast
  rw [isObject_iff, isObject_iff, h.tokens, kept_append fun heq => absurd heq hno]
  exact endsIn_append hpruned hsep h.shown

end Paths

/-- What counts as the erased object type and is passed on as it is: the types that end in its name,
which stands alone or behind a path separator. Among plain paths these are the paths to the type.
A type with such a path at its end is one of them, unless the path is the bare name. -/
theorem erased_object_by_ending (t : TypeName) :
    (t.isObject = true ↔ EndsIn objectName (kept (tokenize t.source.toList))) ∧
    (∀ rooted modules last, tokenize t.source.toList = pathTokens rooted modules last →
      (t.isObject = true ↔ last = objectName)) ∧
    (∀ r front, EndsWith t r front →
      (t.isObject = true ↔
        r.isObject = true ∧ kept (tokenize r.source.toList) ≠ [.word objectName])) ∧
    (ReturnType.ofType t = .object ↔ t.isObject = true) ∧
    (∀ m : Method, m.ret = .ofType t →
      (m.storeReturn = [.storeResult .object false] ↔ t.isObject = true)) ∧
    (∀ index, DispatchLoop.Read.ofType index t = .ok (.object index) ↔ t.isObject = true) ∧
    (∀ p ids next s index temp, DispatchLoop.lowerOperation p ids next s (.storeArg index temp t) =
      .ok ([.storeArg index temp.toNat false], s) ↔ t.isObject = true) :=
  ⟨isObject_iff t, fun _ _ _ => isObject_path_iff, fun _ _ => isObject_endsWith_iff,
    ofType_eq_object_iff, fun _ => storeReturn_eq_object_iff, read_eq_object_iff,
    lower_storeArg_iff⟩

/-- A path to the erased object type, and a reference to it. -/
theorem erased_object_by_ending_specimen :
    (⟨":: hookwire :: Object"⟩ : TypeName).isObject = true ∧
      (⟨"& Object"⟩ : TypeName).isObject = false := by
  obtain ⟨-, hpath, -⟩ := erased_object_by_ending ⟨":: hookwire :: Object"⟩
  obtain ⟨-, -, hcomposite, -⟩ := erased_object_by_ending ⟨"& Object"⟩
  constructor
  · rw [hpath true ["hookwire".toList] objectName (by decide +kernel)]
  · rw [Bool.eq_false_iff, ne_eq, hcomposite ⟨"Object"⟩ [.mark .ampersand]
      ⟨by decide +kernel, by decide +kernel, _, rfl, by decide, by decide⟩]
    exact fun h => h.2 (by decide +kernel)

/-- A function whose result is written with a path is taken for the erased object type, and one
whose result is written without is not. -/
theorem function_taken_for_object :
    IsType "fn() -> hookwire::Object" ∧
      (∀ rooted modules last,
        tokenize "fn() -> hookwire::Object".toList ≠ pathTokens rooted modules last) ∧
      (⟨"fn() -> hookwire::Object"⟩ : TypeName).isObject = true ∧
      ReturnType.ofType ⟨"fn() -> hookwire::Object"⟩ = .object ∧
      DispatchLoop.Read.ofType 0 ⟨"fn() -> hookwire::Object"⟩ = .ok (.object 0) ∧
      IsType "fn() -> Object" ∧ (⟨"fn() -> Object"⟩ : TypeName).isObject = false := by
  have hobject : (⟨"fn() -> hookwire::Object"⟩ : TypeName).isObject = true := by decide +kernel
  have hsegment {w : List Char} (hw : (Token.word w).isName = true) : Phrase .path [.word w] :=
    .last (.name hw)
  have hqualified : IsType "fn() -> hookwire::Object" := .of_tokens (by decide +kernel)
    (.bounded (.bound (.last (@Phrase.callReturn "fn".toList [] _ .empty (.bounded (.bound
      (.join (@Phrase.name "hookwire".toList rfl) (@hsegment objectName rfl))))))))
  have hbare : IsType "fn() -> Object" := .of_tokens (by decide +kernel)
    (.bounded (.bound (.last (@Phrase.callReturn "fn".toList [] _ .empty
      (@Phrase.word objectName rfl)))))
  refine ⟨hqualified, ?_, hobject, ofType_eq_object_iff.mpr hobject,
    (read_eq_object_iff 0).mpr hobject, hbare, by decide +kernel⟩
  intro rooted modules last heq
  have harrow : .mark .arrow ∈ tokenize "fn() -> hookwire::Object".toList := by decide +kernel
  rw [heq] at harrow
  rcases mem_pathTokens harrow with h | h <;> cases h

end TypeName

end HookDispatch
