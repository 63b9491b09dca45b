import HookDispatch.Hooks.Eligibility
import HookDispatch.Proofs.KeyLanguage
import HookDispatch.Proofs.TypeName.Brackets

/-!
Signature keys identify overloads. A key is the name of a method and the canonical texts of its
parameter types, joined by commas. The texts are closed, so that the first comma at depth zero ends
the first of them, and the list of texts can be read back from the key.
-/
namespace HookDispatch

namespace TypeName

variable {cs ds xs ys : List Char}

/-- A closed text does not go on, after another closed text, with a comma. -/
theorem Closed.ne_append_comma (hcs : Closed cs) (hds : Closed ds) : cs ≠ ds ++ ',' :: xs := by
  intro heq
  unfold Closed at hcs hds
  rw [heq, depthAfter_append, hds] at hcs
  cases hcs

/-- The comma after a closed text tells where the text ends. -/
theorem Closed.append_comma_inj (hcs : Closed cs) (hds : Closed ds)
    (h : cs ++ ',' :: xs = ds ++ ',' :: ys) : cs = ds ∧ xs = ys := by
  have hsame : cs = ds := by
    rcases List.append_eq_append_iff.mp h with ⟨mid, hlong, htail⟩ | ⟨mid, hlong, htail⟩
    · cases mid with
      | nil => simpa using hlong.symm
      | cons c mid =>
        obtain ⟨rfl, -⟩ := List.cons.inj htail
        exact absurd hlong (hds.ne_append_comma hcs)
    · cases mid with
      | nil => simpa using hlong
      | cons c mid =>
        obtain ⟨rfl, -⟩ := List.cons.inj htail
        exact absurd hlong (hcs.ne_append_comma hds)
  rw [hsame] at h
  exact ⟨hsame, (List.cons.inj (List.append_cancel_left h)).2⟩

theorem toList_intercalate_cons (s : String) {ss : List String} (h : ss ≠ []) :
    (String.intercalate ", " (s :: ss)).toList =
      s.toList ++ ',' :: ' ' :: (String.intercalate ", " ss).toList := by
  rw [String.intercalate_cons_of_ne_nil h, String.toList_append, String.toList_append,
    List.append_assoc]
  rfl

/-- A list of closed texts is known by the texts joined by separators. -/
theorem intercalate_closed_inj {ss ts : List String} (hss : ∀ s ∈ ss, Closed s.toList)
    (hts : ∀ t ∈ ts, Closed t.toList) (hne : ss ≠ []) (hne' : ts ≠ [])
    (h : (String.intercalate ", " ss).toList = (String.intercalate ", " ts).toList) : ss = ts := by
  induction ss generalizing ts with
  | nil => exact absurd rfl hne
  | cons s ss ih =>
    cases ts with
    | nil => exact absurd rfl hne'
    | cons t ts =>
      have hs := hss s List.mem_cons_self
      have ht := hts t List.mem_cons_self
      by_cases hlast : ss = []
      · by_cases hlast' : ts = []
        · rw [hlast, hlast', String.intercalate_singleton, String.intercalate_singleton] at h
          rw [hlast, hlast', String.toList_inj.mp h]
        · rw [hlast, String.intercalate_singleton, toList_intercalate_cons t hlast'] at h
          exact absurd h (hs.ne_append_comma ht)
      · by_cases hlast' : ts = []
        · rw [hlast', String.intercalate_singleton, toList_intercalate_cons s hlast] at h
          exact absurd h.symm (ht.ne_append_comma hs)
        · rw [toList_intercalate_cons s hlast, toList_intercalate_cons t hlast'] at h
          obtain ⟨hfirst, hrest⟩ := hs.append_comma_inj ht h
          have htail := ih (fun s' hs' => hss s' (List.mem_cons_of_mem s hs'))
            (fun t' ht' => hts t' (List.mem_cons_of_mem t ht')) hlast hlast' (List.cons.inj hrest).2
          rw [String.toList_inj.mp hfirst, htail]

end TypeName

namespace Signature

variable {m : Method} {ps qs : List Parameter}

theorem toList_parameterList (h : ps ≠ []) :
    (parameterList ps).toList =
      '(' :: ((String.intercalate ", " (ps.map (·.type.canonical))).toList ++ [')']) := by
  unfold parameterList
  rw [if_neg (by simpa using h), String.toList_append, String.toList_append]
  rfl

theorem parameterList_nil : parameterList [] = "" := rfl

/-- A parameter list shows the canonical types of the parameters. -/
theorem parameterList_eq_iff (hps : ∀ p ∈ ps, p.type.Enclosed)
    (hqs : ∀ q ∈ qs, q.type.Enclosed) :
    parameterList ps = parameterList qs ↔
      ps.map (·.type.canonical) = qs.map (·.type.canonical) := by
  have hclosed : ∀ {rs : List Parameter}, (∀ r ∈ rs, r.type.Enclosed) →
      ∀ s ∈ rs.map (·.type.canonical), TypeName.Closed s.toList := by
    intro rs hrs s hs
    obtain ⟨r, hr, rfl⟩ := List.mem_map.mp hs
    exact TypeName.closed_canonical (hrs r hr)
  rw [← String.toList_inj]
  by_cases hp : ps = []
  · by_cases hq : qs = []
    · simp [hp, hq]
    · simp [hp, hq, toList_parameterList, parameterList_nil]
  · by_cases hq : qs = []
    · simp [hp, hq, toList_parameterList, parameterList_nil]
    · rw [toList_parameterList hp, toList_parameterList hq, List.cons.injEq,
        List.append_cancel_right_eq]
      constructor
      · intro h
        exact TypeName.intercalate_closed_inj (hclosed hps) (hclosed hqs) (by simpa using hp)
          (by simpa using hq) h.2
      · intro h
        rw [h]
        exact ⟨rfl, rfl⟩

theorem toList_ofMethod (m : Method) :
    (ofMethod m).text.toList = m.name.toList ++ (parameterList m.params).toList := by
  unfold ofMethod
  rw [String.toList_append]

/-- The name ends where the parameter list begins. -/
theorem bareName_ofMethod (h : '(' ∉ m.name.toList) : (ofMethod m).bareName = m.name := by
  unfold bareName bareChars
  have hname : m.name.toList.takeWhile (· ≠ '(') = m.name.toList := by
    rw [List.takeWhile_eq_self_iff]
    intro c hc
    apply decide_eq_true
    intro heq
    subst heq
    exact h hc
  have hlist : (parameterList m.params).toList.takeWhile (· ≠ '(') = [] := by
    by_cases hparams : m.params = []
    · simp [hparams, parameterList_nil]
    · simp [toList_parameterList hparams]
  rw [toList_ofMethod, List.takeWhile_append, hname, if_pos rfl, hlist, List.append_nil,
    String.ofList_toList]

theorem hasParams_ofMethod (h : '(' ∉ m.name.toList) :
    (ofMethod m).hasParams = true ↔ m.params ≠ [] := by
  rw [hasParams_iff, toList_ofMethod, List.mem_append]
  by_cases hparams : m.params = []
  · simp [h, hparams, parameterList_nil]
  · simp [hparams, toList_parameterList]

end Signature

/-- What a method needs for its key to be read back: a name without a parenthesis, and parameter
types that can stand in a list. -/
structure Method.Listed (m : Method) : Prop where
  name : '(' ∉ m.name.toList
  types : ∀ p ∈ m.params, p.type.Enclosed

/-- The names of hooks have no parenthesis. -/
theorem MethodTable.paren_not_mem_name {t : MethodTable} {m : Method}
    (h : t.skipReason m = none) : '(' ∉ m.name.toList := by
  have hname : isReservedName m.name = false := skipReason_eq_none_iff.mp h .reservedName
  intro hparen
  unfold isReservedName at hname
  split at hname
  · cases hname
  · cases hname
  · rw [List.any_eq_false] at hname
    exact hname '(' hparen (by decide)

theorem MethodTable.listed_of_hook {t : MethodTable} {m : Method} (h : t.skipReason m = none)
    (htypes : ∀ p ∈ m.params, p.type.Enclosed) : m.Listed where
  name := paren_not_mem_name h
  types := htypes

theorem forall₂_sameType_iff {ps qs : List Parameter} :
    List.Forall₂ (fun p q => p.type.sameType q.type = true) ps qs ↔
      ps.map (·.type.canonical) = qs.map (·.type.canonical) := by
  rw [← List.forall₂_eq_eq_eq, List.forall₂_map_left_iff, List.forall₂_map_right_iff]
  simp only [TypeName.sameType, beq_iff_eq]

/-- Of the parameters only the types matter to the key. -/
theorem Signature.ofMethod_congr {m n : Method} (hname : m.name = n.name)
    (htypes : List.Forall₂ (fun p q => p.type.sameType q.type = true) m.params n.params) :
    ofMethod m = ofMethod n := by
  have hlists := forall₂_sameType_iff.mp htypes
  have hempty := congrArg List.isEmpty hlists
  rw [List.isEmpty_map, List.isEmpty_map] at hempty
  unfold ofMethod parameterList
  rw [hname, hempty, hlists]

theorem Signature.ofMethod_eq_iff_of_name {m n : Method} (hname : m.name = n.name)
    (hm : ∀ p ∈ m.params, p.type.Enclosed) (hn : ∀ q ∈ n.params, q.type.Enclosed) :
    ofMethod m = ofMethod n ↔
      m.params.map (·.type.canonical) = n.params.map (·.type.canonical) := by
  unfold ofMethod
  rw [hname, Signature.mk.injEq, String.append_right_inj, parameterList_eq_iff hm hn]

/-- Two methods have one key exactly if they have one name and the same types of parameters. The
key shows the name, and whether there are parameters. -/
theorem overload_keys {m n : Method} (hm : m.Listed) (hn : n.Listed) :
    (Signature.ofMethod m = Signature.ofMethod n ↔
      m.name = n.name ∧
        List.Forall₂ (fun p q => p.type.sameType q.type = true) m.params n.params) ∧
    (Signature.ofMethod m).bareName = m.name ∧
    ((Signature.ofMethod m).hasParams = true ↔ m.params ≠ []) := by
  refine ⟨?_, Signature.bareName_ofMethod hm.name, Signature.hasParams_ofMethod hm.name⟩
  rw [forall₂_sameType_iff, ← Signature.parameterList_eq_iff hm.types hn.types]
  constructor
  · intro h
    have hname : m.name = n.name := by
      rw [← Signature.bareName_ofMethod hm.name, h, Signature.bareName_ofMethod hn.name]
    have htext := congrArg Signature.text h
    unfold Signature.ofMethod at htext
    rw [hname, String.append_right_inj] at htext
    exact ⟨hname, htext⟩
  · rintro ⟨hname, hparams⟩
    unfold Signature.ofMethod
    rw [hname, hparams]

namespace Specimen

def pairing : Method where
  name := "pair"
  owner := "T"
  params := [{ name := "x", element := ⟨"HashMap<u8, Vec<A>>"⟩, passing := .shared },
    { name := "y", element := ⟨"fn(A) -> (A, A)"⟩ }]

def pairingSpaced : Method where
  name := "pair"
  owner := "T"
  params := [{ name := "map", element := ⟨"HashMap < u8, Vec<A>, >"⟩, passing := .shared },
    { name := "f", element := ⟨"fn(A,)->(A , A,),"⟩ }]

end Specimen

open Specimen in
theorem overload_keys_specimen :
    pairing.Listed ∧ pairingSpaced.Listed ∧
      Signature.ofMethod pairing = Signature.ofMethod pairingSpaced ∧
      (Signature.ofMethod pairing).bareName = "pair" := by
  have hpairing : pairing.Listed :=
    MethodTable.listed_of_hook (t := ⟨"T", []⟩) (by decide) (by decide +kernel)
  have hspaced : pairingSpaced.Listed :=
    MethodTable.listed_of_hook (t := ⟨"T", []⟩) (by decide) (by decide +kernel)
  obtain ⟨hsame, hname, -⟩ := overload_keys hpairing hspaced
  refine ⟨hpairing, hspaced, hsame.mpr ⟨rfl, ?_⟩, hname⟩
  rw [forall₂_sameType_iff]
  decide +kernel

end HookDispatch
