import HookDispatch.Proofs.TypeName.Legible

/-!
Canonical texts of types. Texts of types follow a grammar in which an angle bracket opens after a
name only and a square bracket nowhere after a name, so two types with one canonical text have the
same tokens, up to commas at the end of lists. One of these commas matters: the tuple of one type
has the canonical text of the type in parentheses.
-/
namespace HookDispatch

namespace TypeName

inductive PhraseKind where
  | segment | path | bounds | type | item | list
deriving DecidableEq, Repr

/-- The grammar of types over their tokens. Lifetimes are no tokens, so that items of a list can be
empty and bounds can begin with a plus. The words `mut` and `const` are no names, an array length
is a path or a literal, and the name of a parameter is followed by a colon. -/
inductive Phrase : PhraseKind → List Token → Prop
  | name {w : List Char} (hw : (Token.word w).isName = true) : Phrase .segment [.word w]
  | generic {w : List Char} {args : List Token} (hw : (Token.word w).isName = true)
      (hargs : Phrase .list args) :
      Phrase .segment (.word w :: .mark .less :: (args ++ [.mark .greater]))
  | turbofish {w : List Char} {args : List Token} (hw : (Token.word w).isName = true)
      (hargs : Phrase .list args) :
      Phrase .segment (.word w :: .mark .pathSep :: .mark .less :: (args ++ [.mark .greater]))
  | call {w : List Char} {args : List Token} (hargs : Phrase .list args) :
      Phrase .segment (.word w :: .mark .parenOpen :: (args ++ [.mark .parenClose]))
  | callReturn {w : List Char} {args ret : List Token} (hargs : Phrase .list args)
      (hret : Phrase .type ret) :
      Phrase .segment (.word w :: .mark .parenOpen ::
        (args ++ .mark .parenClose :: .mark .arrow :: ret))
  | last {ts : List Token} (hts : Phrase .segment ts) : Phrase .path ts
  | rooted {ts : List Token} (hts : Phrase .path ts) : Phrase .path (.mark .pathSep :: ts)
  | join {ts us : List Token} (hts : Phrase .segment ts) (hus : Phrase .path us) :
      Phrase .path (ts ++ .mark .pathSep :: us)
  | bound {ts : List Token} (hts : Phrase .path ts) : Phrase .bounds ts
  | relaxed {ts : List Token} (hts : Phrase .path ts) : Phrase .bounds (.mark .question :: ts)
  | qualified {w : List Char} {ts : List Token} (hts : Phrase .bounds ts) :
      Phrase .bounds (.word w :: ts)
  | binder {w : List Char} {args ts : List Token} (hw : (Token.word w).isName = true)
      (hargs : Phrase .list args) (hts : Phrase .bounds ts) :
      Phrase .bounds (.word w :: .mark .less :: (args ++ .mark .greater :: ts))
  | plus {ts us : List Token} (hts : Phrase .bounds ts) (hus : Phrase .bounds us) :
      Phrase .bounds (ts ++ .mark .plus :: us)
  | plusAfterLifetime {ts : List Token} (hts : Phrase .bounds ts) :
      Phrase .bounds (.mark .plus :: ts)
  | bounded {ts : List Token} (hts : Phrase .bounds ts) : Phrase .type ts
  | shared {ts : List Token} (hts : Phrase .type ts) : Phrase .type (.mark .ampersand :: ts)
  | mutable {ts : List Token} (hts : Phrase .type ts) :
      Phrase .type (.mark .ampersand :: .word "mut".toList :: ts)
  | constPointer {ts : List Token} (hts : Phrase .type ts) :
      Phrase .type (.mark .star :: .word "const".toList :: ts)
  | mutPointer {ts : List Token} (hts : Phrase .type ts) :
      Phrase .type (.mark .star :: .word "mut".toList :: ts)
  | slice {ts : List Token} (hts : Phrase .type ts) :
      Phrase .type (.mark .squareOpen :: (ts ++ [.mark .squareClose]))
  | array {ts length : List Token} (hts : Phrase .type ts) (hlength : Phrase .path length) :
      Phrase .type (.mark .squareOpen ::
        (ts ++ .mark .semicolon :: (length ++ [.mark .squareClose])))
  | tuple {ts : List Token} (hts : Phrase .list ts) :
      Phrase .type (.mark .parenOpen :: (ts ++ [.mark .parenClose]))
  | never : Phrase .type [.mark .bang]
  | type {ts : List Token} (hts : Phrase .type ts) : Phrase .item ts
  | binding {w : List Char} {ts : List Token} (hts : Phrase .type ts) :
      Phrase .item (.word w :: .mark .equals :: ts)
  | named {w : List Char} {ts : List Token} (hts : Phrase .type ts) :
      Phrase .item (.word w :: .mark .other :: ts)
  | empty : Phrase .list []
  | sole {ts : List Token} (hts : Phrase .item ts) : Phrase .list ts
  | comma {ts us : List Token} (hts : Phrase .item ts) (hus : Phrase .list us) :
      Phrase .list (ts ++ .mark .comma :: us)
  | commaAfterLifetime {ts : List Token} (hts : Phrase .list ts) :
      Phrase .list (.mark .comma :: ts)

/-- Whether phrases of the kind begin with no bracket, so that they can come after a name. -/
def PhraseKind.canFollowName : PhraseKind → Bool
  | .segment | .path | .bounds => true
  | .type | .item | .list => false

namespace Place

variable {owed : List Mark} {b b' : Bool} {ts : List Token}

theorem run_word (w : List Char) :
    run ⟨owed, b⟩ (.word w :: ts) = run ⟨owed, (Token.word w).isName⟩ ts := rfl

theorem run_squareOpen :
    run ⟨owed, false⟩ (.mark .squareOpen :: ts) = run ⟨.squareClose :: owed, false⟩ ts := rfl

/-- What stands in brackets is read to the closing bracket. -/
theorem run_bracketed {close : Mark} (hclose : (Token.mark close).closes = true)
    (h : run ⟨close :: owed, b⟩ ts = some ⟨close :: owed, b'⟩) (rest : List Token) :
    run ⟨close :: owed, b⟩ (ts ++ .mark close :: rest) = run ⟨owed, false⟩ rest := by
  have hstep : step ⟨close :: owed, b'⟩ (.mark close) = some ⟨owed, false⟩ := by
    cases close with
    | greater | parenClose | squareClose => rfl
    | _ => cases hclose
  rw [run_append, h, Option.bind_some, run_cons, hstep, Option.bind_some]

end Place

/-- A phrase is read from its start to its end, and closes the brackets that it opens. -/
theorem Phrase.run_eq {k : PhraseKind} {ts : List Token} (h : Phrase k ts) (owed : List Mark)
    (b : Bool) (hb : b = true → k.canFollowName = true) :
    ∃ b', Place.run ⟨owed, b⟩ ts = some ⟨owed, b'⟩ := by
  have hany : ∀ {k : PhraseKind}, false = true → k.canFollowName = true := by
    intro k h
    cases h
  induction h generalizing owed b with
  | name hw => exact ⟨_, rfl⟩
  | generic hw _ ih =>
    obtain ⟨b', hargs⟩ := ih (.greater :: owed) false hany
    rw [Place.run_word, hw]
    exact ⟨false, Place.run_bracketed rfl hargs []⟩
  | turbofish hw _ ih =>
    obtain ⟨b', hargs⟩ := ih (.greater :: owed) false hany
    exact ⟨false, Place.run_bracketed rfl hargs []⟩
  | call _ ih =>
    obtain ⟨b', hargs⟩ := ih (.parenClose :: owed) false hany
    exact ⟨false, Place.run_bracketed rfl hargs []⟩
  | callReturn _ _ ihargs ihret =>
    obtain ⟨b', hargs⟩ := ihargs (.parenClose :: owed) false hany
    obtain ⟨b'', hret⟩ := ihret owed false hany
    exact ⟨b'', (Place.run_bracketed rfl hargs _).trans hret⟩
  | last _ ih | type _ ih | sole _ ih => exact ih owed b hb
  | bound _ ih | bounded _ ih => exact ih owed b fun _ => rfl
  | rooted _ ih => exact ih owed true fun _ => rfl
  | join _ _ ihts ihus =>
    obtain ⟨b', hts⟩ := ihts owed b fun _ => rfl
    obtain ⟨b'', hus⟩ := ihus owed true fun _ => rfl
    rw [Place.run_append, hts]
    exact ⟨b'', hus⟩
  | qualified _ ih => exact ih owed _ fun _ => rfl
  | binder hw _ _ ihargs ihts =>
    obtain ⟨b', hargs⟩ := ihargs (.greater :: owed) false hany
    obtain ⟨b'', hts⟩ := ihts owed false hany
    rw [Place.run_word, hw]
    exact ⟨b'', (Place.run_bracketed rfl hargs _).trans hts⟩
  | plus _ _ ihts ihus =>
    obtain ⟨b', hts⟩ := ihts owed b fun _ => rfl
    obtain ⟨b'', hus⟩ := ihus owed false hany
    rw [Place.run_append, hts]
    exact ⟨b'', hus⟩
  | slice _ ih =>
    obtain ⟨b', hts⟩ := ih (.squareClose :: owed) false hany
    have hfirst : b = false := Bool.eq_false_iff.mpr fun h => Bool.noConfusion (hb h)
    rw [hfirst, Place.run_squareOpen]
    exact ⟨false, Place.run_bracketed rfl hts []⟩
  | array _ _ ihts ihlength =>
    obtain ⟨b', hts⟩ := ihts (.squareClose :: owed) false hany
    obtain ⟨b'', hlength⟩ := ihlength (.squareClose :: owed) false hany
    have hfirst : b = false := Bool.eq_false_iff.mpr fun h => Bool.noConfusion (hb h)
    rw [hfirst, Place.run_squareOpen, Place.run_append, hts]
    exact ⟨false, Place.run_bracketed rfl hlength []⟩
  | tuple _ ih =>
    obtain ⟨b', hts⟩ := ih (.parenClose :: owed) false hany
    exact ⟨false, Place.run_bracketed rfl hts []⟩
  | never => exact ⟨false, rfl⟩
  | empty => exact ⟨b, rfl⟩
  | comma _ _ ihts ihus =>
    obtain ⟨b', hts⟩ := ihts owed b hb
    obtain ⟨b'', hus⟩ := ihus owed false hany
    rw [Place.run_append, hts]
    exact ⟨b'', hus⟩
  -- A mark that is no bracket, or a word that is no name, comes first.
  | relaxed _ ih | plusAfterLifetime _ ih | shared _ ih | mutable _ ih | constPointer _ ih
  | mutPointer _ ih | binding _ ih | named _ ih | commaAfterLifetime _ ih =>
    exact ih owed false hany

/-- The text of a type. -/
def IsType (text : String) : Prop := Phrase .type (tokenize text.toList)

theorem IsType.legible {text : String} (h : IsType text) : Legible text := by
  obtain ⟨b, hrun⟩ := Phrase.run_eq h [] false Bool.noConfusion
  unfold Legible
  rw [hrun]
  rfl

theorem Phrase.word {w : List Char} (hw : (Token.word w).isName = true) :
    Phrase .type [.word w] := .bounded (.bound (.last (.name hw)))

theorem IsType.of_tokens {text : String} {ts : List Token} (h : tokenize text.toList = ts)
    (hts : Phrase .type ts) : IsType text := by
  unfold IsType
  rwa [h]

/-- Two types have one canonical text exactly if they have the same tokens, up to the commas before
closing brackets and at the end. -/
theorem same_canonical_iff {t u : String} (ht : IsType t) (hu : IsType u) :
    canonicalize t = canonicalize u ↔ kept (tokenize t.toList) = kept (tokenize u.toList) :=
  canonicalize_eq_iff_of_legible ht.legible hu.legible

/-- A list of slices, written with a lifetime and with a comma at the end of the list, or without
them. -/
theorem same_canonical_specimen :
    IsType "Vec<&'a [u8],>" ∧ IsType "Vec < &[u8] >" ∧
      canonicalize "Vec<&'a [u8],>" = canonicalize "Vec < &[u8] >" := by
  have hslice := Phrase.shared (.slice (@Phrase.word ['u', '8'] rfl))
  have hcomma : IsType "Vec<&'a [u8],>" := .of_tokens (by decide +kernel)
    (.bounded (.bound (.last (@Phrase.generic ['V', 'e', 'c'] _ rfl
      (.comma (.type hslice) .empty)))))
  have hplain : IsType "Vec < &[u8] >" := .of_tokens (by decide +kernel)
    (.bounded (.bound (.last (@Phrase.generic ['V', 'e', 'c'] _ rfl (.sole (.type hslice))))))
  refine ⟨hcomma, hplain, ?_⟩
  rw [same_canonical_iff hcomma hplain]
  decide +kernel

/-- The tuple of one type is not the type in parentheses, but its comma is left out. -/
theorem tuple_collision :
    IsType "(A,)" ∧ IsType "(A)" ∧ canonicalize "(A,)" = canonicalize "(A)" ∧
      tokenize "(A,)".toList ≠ tokenize "(A)".toList := by
  have htuple : IsType "(A,)" := .of_tokens (by decide +kernel)
    (.tuple (.comma (.type (@Phrase.word ['A'] rfl)) .empty))
  have hparens : IsType "(A)" := .of_tokens (by decide +kernel)
    (.tuple (.sole (.type (@Phrase.word ['A'] rfl))))
  refine ⟨htuple, hparens, ?_, by decide +kernel⟩
  decide +kernel

end TypeName

end HookDispatch
