import HookDispatch.Proofs.DeclarationOrder

/-!
What becomes of the methods of a table. A hook is an eligible method whose key no eligible method
before it has. The hooks are collected in table order and numbered by their positions; every other
method is reported once, with the reason against it or because its key is taken. Methods that are
not eligible have no part in this, whatever their keys are.
-/
namespace HookDispatch

def Event.isSkip : Event → Bool
  | .skipped .. => true
  | _ => false

def Event.isShadow : Event → Bool
  | .shadowed .. => true
  | _ => false

namespace MethodTable

structure Eligible (t : MethodTable) (m : Method) : Prop where
  instanceMethod : m.flags.isStatic = false
  privateOrTagged : m.flags.isPublic = true → m.flags.isHook = true
  concrete : m.genericParams = 0 ∧ ∀ text, m.ret ≠ .generic text
  unborrowed : m.flags.isBorrowed = false
  declared : m.owner = t.typeName
  noAccessor : m.flags.isAccessor = false
  named : m.name ≠ "" ∧ ¬ ['_', '_'] <+: m.name.toList ∧
    ∀ c ∈ m.name.toList, c ∉ reservedChars
  noCatchAll : ∀ p ∈ m.params, p.variadic = false

structure Leads (t : MethodTable) (before : List Method) (m : Method) : Prop where
  eligible : t.Eligible m
  first : ∀ earlier ∈ before, t.Eligible earlier →
    Signature.ofMethod earlier ≠ Signature.ofMethod m

variable {t : MethodTable} {m : Method} {before : List Method} {seen : Traced Registry}

theorem isReservedName_eq_false_iff {name : String} : isReservedName name = false ↔
    name ≠ "" ∧ ¬ ['_', '_'] <+: name.toList ∧ ∀ c ∈ name.toList, c ∉ reservedChars := by
  have hempty : name ≠ "" ↔ name.toList ≠ [] := by simp
  rw [hempty]
  unfold isReservedName
  split
  · rename_i hnil
    rw [hnil]
    simp
  · rename_i rest hcons
    rw [hcons]
    simp
  · rename_i hne hprefix
    have hno : ¬ ['_', '_'] <+: name.toList := by
      rintro ⟨rest, hrest⟩
      exact hprefix rest hrest.symm
    rw [List.any_eq_false]
    simp only [List.contains_iff_mem]
    exact ⟨fun h => ⟨hne, hno, h⟩, fun h => h.2.2⟩

/-- The eligible methods are those that nothing speaks against. -/
theorem eligible_iff : t.Eligible m ↔ t.skipReason m = none := by
  rw [skipReason_eq_none_iff]
  constructor
  · intro h reason
    cases reason with
    | isStatic => exact h.instanceMethod
    | isPublic =>
      cases hpublic : m.flags.isPublic with
      | false => simp [refuses, hpublic]
      | true => simp [refuses, h.privateOrTagged hpublic]
    | generic => simp [refuses, h.concrete.1]
    | genericReturn =>
      have hret := h.concrete.2
      cases hr : m.ret with
      | generic text => exact absurd hr (hret text)
      | _ => simp [refuses, hr, ReturnType.isGeneric]
    | borrowed => exact h.unborrowed
    | inherited => simp [refuses, h.declared]
    | accessor => exact h.noAccessor
    | reservedName => exact isReservedName_eq_false_iff.mpr h.named
    | variadic =>
      unfold refuses
      rw [List.any_eq_false]
      intro p hp
      simp [h.noCatchAll p hp]
  · intro h
    constructor
    · exact h .isStatic
    · intro hpublic
      simpa [refuses, hpublic] using h .isPublic
    · refine ⟨by simpa [refuses] using h .generic, ?_⟩
      intro text hret
      simpa [refuses, hret, ReturnType.isGeneric] using h .genericReturn
    · exact h .borrowed
    · simpa [refuses] using h .inherited
    · exact h .accessor
    · exact isReservedName_eq_false_iff.mp (h .reservedName)
    · intro p hp
      have hvariadic : (m.params.any (·.variadic)) = false := h .variadic
      simpa using List.any_eq_false.mp hvariadic p hp

instance : Decidable (t.Eligible m) := decidable_of_iff _ eligible_iff.symm

instance : Decidable (t.Leads before m) :=
  decidable_of_iff (t.Eligible m ∧ ∀ earlier ∈ before, t.Eligible earlier →
    Signature.ofMethod earlier ≠ Signature.ofMethod m)
    ⟨fun h => ⟨h.1, h.2⟩, fun h => ⟨h.eligible, h.first⟩⟩

def entryAfter (t : MethodTable) (before : List Method) (m : Method) :
    Option (Signature × Method) :=
  if t.Leads before m then some (.ofMethod m, m) else none

def reportAfter (t : MethodTable) (before : List Method) (m : Method) : Option Event :=
  match t.skipReason m with
  | some reason => some (.skipped t.typeName m.name reason)
  | none =>
    if ∃ earlier ∈ before,
        t.Eligible earlier ∧ Signature.ofMethod earlier = Signature.ofMethod m then
      some (.shadowed t.typeName (.ofMethod m))
    else none

/-- A method is reported exactly if it is no hook. -/
theorem reportAfter_eq_none_iff : t.reportAfter before m = none ↔ t.Leads before m := by
  unfold reportAfter
  cases hskip : t.skipReason m with
  | some reason =>
    refine iff_of_false (by simp) ?_
    intro h
    rw [eligible_iff.mp h.eligible] at hskip
    cases hskip
  | none =>
    have heligible : t.Eligible m := eligible_iff.mpr hskip
    dsimp only
    split
    · rename_i htaken
      obtain ⟨earlier, hearlier, heligible', hkey⟩ := htaken
      refine iff_of_false (by simp) ?_
      intro h
      exact h.first earlier hearlier heligible' hkey
    · rename_i hfree
      refine iff_of_true rfl ⟨heligible, ?_⟩
      intro earlier hearlier heligible' hkey
      exact hfree ⟨earlier, hearlier, heligible', hkey⟩

/-- The collected keys are those of the eligible methods so far. -/
def KeysOf (t : MethodTable) (before : List Method) (r : Registry) : Prop :=
  ∀ key, key ∈ r.keys ↔ ∃ m ∈ before, t.Eligible m ∧ Signature.ofMethod m = key

theorem KeysOf.collectStep (h : t.KeysOf before seen.value) (m : Method) :
    t.KeysOf (before ++ [m]) (t.collectStep seen m).value := by
  intro key
  rw [mem_keys_collectStep, h key, ← eligible_iff]
  simp only [List.mem_append, List.mem_singleton, or_and_right, exists_or, exists_eq_left]

/-- A hook is added behind the others, and nothing else is. -/
theorem entries_collectStep (h : t.KeysOf before seen.value) (m : Method) :
    (t.collectStep seen m).value.entries =
      seen.value.entries ++ (t.entryAfter before m).toList := by
  unfold entryAfter MethodTable.collectStep
  cases hskip : t.skipReason m with
  | some reason =>
    have hno : ¬ t.Leads before m := by
      intro hleads
      rw [eligible_iff.mp hleads.eligible] at hskip
      cases hskip
    rw [if_neg hno]
    exact (List.append_nil _).symm
  | none =>
    dsimp only
    by_cases htaken : Signature.ofMethod m ∈ seen.value.keys
    · obtain ⟨earlier, hearlier, heligible, hkey⟩ := (h _).mp htaken
      have hno : ¬ t.Leads before m := fun hleads => hleads.first earlier hearlier heligible hkey
      rw [if_pos htaken, if_neg hno]
      exact (List.append_nil _).symm
    · have hleads : t.Leads before m := by
        refine ⟨eligible_iff.mpr hskip, ?_⟩
        intro earlier hearlier heligible hkey
        exact htaken ((h _).mpr ⟨earlier, hearlier, heligible, hkey⟩)
      rw [if_neg htaken, if_pos hleads]
      exact Registry.entries_insert_of_not_mem htaken m

/-- Any other method is reported. -/
theorem events_collectStep (h : t.KeysOf before seen.value) (m : Method) :
    (t.collectStep seen m).events = seen.events ++ (t.reportAfter before m).toList := by
  unfold reportAfter MethodTable.collectStep
  cases hskip : t.skipReason m with
  | some reason => rfl
  | none =>
    dsimp only
    by_cases htaken : Signature.ofMethod m ∈ seen.value.keys
    · rw [if_pos htaken, if_pos ((h _).mp htaken)]
      rfl
    · rw [if_neg htaken, if_neg (fun hother => htaken ((h _).mpr hother))]
      exact (List.append_nil _).symm

/-- What is said of methods with those before them is said of the first one first. -/
theorem filterMap_after {α : Type} (f : List Method → Method → Option α) (before : List Method)
    (m : Method) (ms : List Method) :
    ((m :: ms).zipIdx before.length).filterMap
        (fun (n, i) => f ((before ++ m :: ms).take i) n) =
      (f before m).toList ++ (ms.zipIdx (before ++ [m]).length).filterMap
        (fun (n, i) => f ((before ++ [m] ++ ms).take i) n) := by
  have htake : (before ++ m :: ms).take before.length = before := List.take_left' rfl
  rw [List.zipIdx_cons, List.append_assoc, List.length_append, List.length_singleton]
  simp only [List.filterMap_cons, htake, List.singleton_append]
  cases f before m <;> rfl

/-- Methods after others are collected and reported in order. -/
theorem foldl_collectStep (h : t.KeysOf before seen.value) (ms : List Method) :
    (ms.foldl t.collectStep seen).value.entries = seen.value.entries ++
        (ms.zipIdx before.length).filterMap
          (fun (m, i) => t.entryAfter ((before ++ ms).take i) m) ∧
      (ms.foldl t.collectStep seen).events = seen.events ++
        (ms.zipIdx before.length).filterMap
          (fun (m, i) => t.reportAfter ((before ++ ms).take i) m) := by
  induction ms generalizing before seen with
  | nil => simp
  | cons m ms ih =>
    obtain ⟨hentries, hevents⟩ := ih (h.collectStep m)
    constructor
    · rw [List.foldl_cons, hentries, entries_collectStep h, filterMap_after, List.append_assoc]
    · rw [List.foldl_cons, hevents, events_collectStep h, filterMap_after, List.append_assoc]

theorem keysOf_empty (t : MethodTable) :
    t.KeysOf [] ({ value := .empty } : Traced Registry).value := by
  intro key
  refine iff_of_false List.not_mem_nil ?_
  rintro ⟨m, hm, -⟩
  cases hm

theorem entries_collect (t : MethodTable) : t.collect.value.entries =
    t.methods.zipIdx.filterMap (fun (m, i) => t.entryAfter (t.methods.take i) m) :=
  (foldl_collectStep t.keysOf_empty t.methods).1

theorem events_collect (t : MethodTable) : t.collect.events =
    t.methods.zipIdx.filterMap (fun (m, i) => t.reportAfter (t.methods.take i) m) :=
  (foldl_collectStep t.keysOf_empty t.methods).2

/-- A hook is a method of the table that nothing speaks against. -/
theorem hook_of_mem_collect {entry : Signature × Method} (h : entry ∈ t.collect.value.entries) :
    entry.2 ∈ t.methods ∧ t.skipReason entry.2 = none := by
  rw [entries_collect] at h
  obtain ⟨⟨m, i⟩, hplace, hentry⟩ := List.mem_filterMap.mp h
  have hleads : t.Leads (t.methods.take i) m := by
    by_contra hno
    exact absurd (hentry.symm.trans (if_neg hno)) (Option.some_ne_none _)
  have hsame : (Signature.ofMethod m, m) = entry :=
    Option.some.inj ((if_pos hleads).symm.trans hentry)
  rw [← hsame]
  exact ⟨List.mem_of_getElem? (List.mem_zipIdx_iff_getElem?.mp hplace),
    eligible_iff.mp hleads.eligible⟩

theorem isSome_reportAfter (t : MethodTable) (before : List Method) (m : Method) :
    (t.reportAfter before m).isSome = !(t.entryAfter before m).isSome := by
  unfold entryAfter
  by_cases hleads : t.Leads before m
  · rw [if_pos hleads, reportAfter_eq_none_iff.mpr hleads]
    rfl
  · rw [if_neg hleads]
    exact Option.isSome_iff_ne_none.mpr (mt reportAfter_eq_none_iff.mp hleads)

/-- A report is of one kind or of the other. -/
theorem isShadow_of_reportAfter {e : Event} (h : t.reportAfter before m = some e) :
    e.isShadow = !e.isSkip := by
  unfold reportAfter at h
  split at h
  · cases h
    rfl
  · split at h
    · cases h
      rfl
    · cases h

/-- Where every thing belongs to one of two kinds, their numbers add up. -/
theorem length_filterMap_add {α β γ : Type} (f : α → Option β) (g : α → Option γ)
    (h : ∀ a, (g a).isSome = !(f a).isSome) (as : List α) :
    (as.filterMap f).length + (as.filterMap g).length = as.length := by
  rw [List.length_filterMap_eq_countP, List.length_filterMap_eq_countP,
    List.length_eq_countP_add_countP (fun a => (f a).isSome)]
  congr 2
  funext a
  rw [h a]
  cases (f a).isSome <;> rfl

/-- Every method of the table is collected, skipped or shadowed. -/
theorem size_add_countP (t : MethodTable) :
    t.collect.value.size + t.collect.events.countP Event.isSkip +
      t.collect.events.countP Event.isShadow = t.methods.length := by
  have hkinds : t.collect.events.countP Event.isShadow =
      t.collect.events.countP (fun e => ¬ e.isSkip = true) := by
    apply List.countP_congr
    intro e he
    rw [events_collect, List.mem_filterMap] at he
    obtain ⟨⟨m, i⟩, -, hreport⟩ := he
    rw [isShadow_of_reportAfter hreport]
    simp
  have hevents : t.collect.events.length = t.collect.events.countP Event.isSkip +
      t.collect.events.countP Event.isShadow := by
    rw [hkinds]
    exact List.length_eq_countP_add_countP _
  rw [Nat.add_assoc, ← hevents, Registry.size, entries_collect, events_collect,
    length_filterMap_add, List.length_zipIdx]
  rintro ⟨m, i⟩
  exact isSome_reportAfter _ _ _

end MethodTable

namespace Registry

variable {r : Registry} {i : Nat} {entry : Signature × Method} {s : String}

/-- A key is found at the position of its entry. -/
theorem idOf?_of_getElem? (h : r.entries[i]? = some entry) :
    r.idOf? entry.1.text = some (.ofNat i) := by
  apply idOf?_of_mem_idKeys
  rw [mem_idKeys]
  exact ⟨i, by rw [keys, List.getElem?_map, h]; rfl, rfl⟩

theorem method?_of_getElem? (h : r.entries[i]? = some entry) :
    r.method? entry.1.text = some entry.2 := by
  have htexts : (r.entries.map (·.1.text)).Nodup := by
    have hkeys : (r.keys.map Signature.text).Nodup := by
      refine r.nodup_keys.map ?_
      rintro ⟨a⟩ ⟨b⟩ heq
      exact congrArg Signature.mk heq
    rwa [keys, List.map_map] at hkeys
  unfold method?
  rw [find?_of_nodup_map htexts (List.mem_of_getElem? h)]
  rfl

theorem method?_eq_none_iff : r.method? s = none ↔ ∀ key ∈ r.keys, key.text ≠ s := by
  unfold method? keys
  rw [Option.map_eq_none_iff, List.find?_eq_none, List.forall_mem_map]
  simp

theorem map_fst_idKeys (r : Registry) :
    r.idKeys.map Prod.fst = (List.range r.size).map MethodId.ofNat := by
  have hpositions : r.keys.zipIdx.map Prod.snd = List.range r.size := by
    rw [List.zipIdx_map_snd, ← List.range_eq_range', keys, List.length_map, size]
  rw [idKeys, ← hpositions, List.map_map, List.map_map]
  rfl

/-- Keys and ids lead to the entries at their positions. Ids have 32 bits. -/
structure Indexed (r : Registry) : Prop where
  ids : r.idKeys.map Prod.fst = (List.range r.size).map MethodId.ofNat
  found : ∀ i entry, r.entries[i]? = some entry →
    r.idOf? entry.1.text = some (.ofNat i) ∧ r.method? entry.1.text = some entry.2 ∧
      (i < UInt32.size → r.get? (.ofNat i) = some entry)
  other : ∀ s, (∀ key ∈ r.keys, key.text ≠ s) → r.idOf? s = none ∧ r.method? s = none

theorem indexed (r : Registry) : r.Indexed where
  ids := r.map_fst_idKeys
  found := by
    intro i entry hentry
    refine ⟨idOf?_of_getElem? hentry, method?_of_getElem? hentry, ?_⟩
    intro hi
    rw [get?, MethodId.toNat_ofNat hi, hentry]
  other := by
    intro s hother
    exact ⟨idOf?_eq_none_iff.mpr hother, method?_eq_none_iff.mpr hother⟩

end Registry

namespace MethodTable

variable {t : MethodTable} {m : Method} {before : List Method}

theorem mem_entries_of_leads {after : List Method} (hsplit : t.methods = before ++ m :: after)
    (h : t.Leads before m) : (Signature.ofMethod m, m) ∈ t.collect.value.entries := by
  have hplace : t.methods[before.length]? = some m := by
    rw [hsplit, List.getElem?_append_right le_rfl, Nat.sub_self]
    rfl
  have hbefore : t.methods.take before.length = before := by
    rw [hsplit]
    exact List.take_left' rfl
  rw [entries_collect, List.mem_filterMap]
  refine ⟨(m, before.length), List.mem_zipIdx_iff_getElem?.mpr hplace, ?_⟩
  dsimp only
  rw [hbefore]
  exact if_pos h

/-- Collecting accounts for every method. The entries are the methods that lead, the events tell of
all others, both in table order, and their numbers add up. Keys and ids lead to the entries. A
method that is not eligible takes no key from a later one. -/
theorem collection (t : MethodTable) :
    t.collect.value.entries =
        t.methods.zipIdx.filterMap (fun (m, i) => t.entryAfter (t.methods.take i) m) ∧
      t.collect.events =
        t.methods.zipIdx.filterMap (fun (m, i) => t.reportAfter (t.methods.take i) m) ∧
      (∀ before m, t.reportAfter before m = none ↔ t.Leads before m) ∧
      t.collect.value.size + t.collect.events.countP Event.isSkip +
        t.collect.events.countP Event.isShadow = t.methods.length ∧
      t.collect.value.Indexed ∧
      ∀ before m after, t.methods = before ++ m :: after → t.Eligible m →
        (∀ earlier ∈ before, Signature.ofMethod earlier = Signature.ofMethod m →
          ¬ t.Eligible earlier) →
        (Signature.ofMethod m, m) ∈ t.collect.value.entries := by
  refine ⟨t.entries_collect, t.events_collect, fun _ _ => reportAfter_eq_none_iff,
    t.size_add_countP, t.collect.value.indexed, ?_⟩
  intro before m after hsplit heligible hfree
  apply mem_entries_of_leads hsplit
  refine ⟨heligible, ?_⟩
  intro earlier hearlier heligible' hkey
  exact hfree earlier hearlier hkey heligible'

end MethodTable

/-- The shadow of the second hook and the static method are reported. -/
example : Specimen.table.collect.events =
    [.shadowed "T" ⟨"ab(&mut i32)"⟩, .skipped "T" "a" .isStatic] := by decide +kernel

end HookDispatch
