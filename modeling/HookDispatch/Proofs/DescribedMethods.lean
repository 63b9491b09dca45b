import HookDispatch.Expansion.Description
import Mathlib.Data.List.Forall2

/-!
What a description is made of. If no attribute of a block is bad, its table lists the methods that
are not skipped, in the order of the block, each as its declaration shows it.
-/
namespace HookDispatch.Source

/-- How a method is tagged that is described. A skipped method is not described. -/
def FnItem.tag? (f : FnItem) : Option (Option HookTag) :=
  match hookTag none f.attributes with
  | .error _ | .ok (some .skip) => none
  | .ok tag => some tag

theorem FnItem.tag?_eq_some_iff {f : FnItem} {tag : Option HookTag} :
    f.tag? = some tag ↔ hookTag none f.attributes = .ok tag ∧ tag ≠ some .skip := by
  unfold FnItem.tag?
  split
  · next hbad => simp [hbad]
  · next hskip =>
    rw [hskip]
    refine iff_of_false (Option.some_ne_none tag).symm ?_
    rintro ⟨heq, hno⟩
    exact hno (Except.ok.inj heq).symm
  · next tag' hno htag =>
    rw [htag, Option.some.injEq, Except.ok.injEq, iff_self_and]
    rintro rfl
    exact hno

/-- A method has no type parameter that a caller would have to choose if it declares none and no
parameter is of an anonymous type. -/
theorem FnItem.genericCount_eq_zero_iff {f : FnItem} : f.genericCount = 0 ↔
    (∀ g ∈ f.generics, g.isLifetime = true) ∧ ∀ p ∈ f.params, p.2.isImplTrait = false := by
  simp [genericCount, List.countP_eq_zero]

/-- What a member of the second row has, the member at its place in the first row has. -/
theorem exists_mem_of_forall₂ {α β : Type} {p : α → Prop} {q : β → Prop} {as : List α}
    {bs : List β} (h : List.Forall₂ (fun a b => q b → p a) as bs) (hq : ∃ b ∈ bs, q b) :
    ∃ a ∈ as, p a := by
  induction h with
  | nil => simp at hq
  | cons hhead _ ih =>
    simp only [List.mem_cons, exists_eq_or_imp] at hq ⊢
    exact hq.imp hhead ih

/-- The parameters are what the written parameters are described as, one for one. -/
theorem FnItem.forall₂_parameters (f : FnItem) :
    List.Forall₂ (fun written p => ∃ name, parameter name written.2 = p) f.params f.parameters := by
  have hzip : f.params.zipIdx.map Prod.fst = f.params := List.zipIdx_map_fst _ _
  rw [parameters, List.forall₂_map_right_iff]
  nth_rewrite 1 [← hzip]
  rw [List.forall₂_map_left_iff, List.forall₂_same]
  rintro ⟨written, i⟩ -
  exact ⟨_, rfl⟩

/-- A parameter is what some written parameter is described as. -/
theorem FnItem.exists_of_mem_parameters (f : FnItem) {p : Parameter} (hp : p ∈ f.parameters) :
    ∃ written ∈ f.params, ∃ name, parameter name written.2 = p := by
  have hplace := f.forall₂_parameters.imp fun written q hq (heq : q = p) => heq ▸ hq
  exact exists_mem_of_forall₂ hplace ⟨p, hp, rfl⟩

namespace ImplBlock

variable {b : ImplBlock} {d d' : Description} {f : FnItem} {fs : List FnItem} {m : Method}

def method? (b : ImplBlock) (f : FnItem) : Option Method :=
  f.tag?.map (f.describe b.selfType.render (b.generics.params.filterMap GenericParam.typeName?))

theorem describeFrom_methods (hname : d.table.typeName = b.selfType.render)
    (h : b.describeFrom d fs = .ok d') :
    d'.table.typeName = d.table.typeName ∧
      d'.table.methods = d.table.methods ++ fs.filterMap b.method? := by
  induction fs generalizing d with
  | nil =>
    cases h
    simp
  | cons f rest ih =>
    rw [describeFrom] at h
    split at h
    · cases h
    · next hskip =>
      have hmethod : b.method? f = none := by simp [method?, FnItem.tag?, hskip]
      rw [List.filterMap_cons_none hmethod]
      exact ih hname h
    · next tag hno htag =>
      obtain ⟨htype, hmethods⟩ := ih (by exact hname) h
      have hmethod : b.method? f = some (f.describe d.table.typeName
          (b.generics.params.filterMap GenericParam.typeName?) tag) := by
        rw [method?, FnItem.tag?_eq_some_iff.mpr ⟨htag, hno⟩, hname, Option.map_some]
      refine ⟨htype, ?_⟩
      rw [hmethods, List.filterMap_cons_some hmethod, MethodTable.methods_add, List.append_assoc,
        List.singleton_append]

/-- The table of a block has the methods that are described. -/
theorem describe_methods (h : b.describe = .ok d) :
    d.table.typeName = b.selfType.render ∧ d.table.methods = b.methods.filterMap b.method? :=
  describeFrom_methods rfl h

/-- The described methods stand for the methods of the table, one for one. -/
theorem forall₂_methods (h : b.describe = .ok d) :
    List.Forall₂ (fun f m => b.method? f = some m) (b.methods.filter (·.tag?.isSome))
      d.table.methods := by
  rw [(describe_methods h).2]
  induction b.methods with
  | nil => exact .nil
  | cons f rest ih =>
    cases htag : f.tag? with
    | none =>
      have hmethod : b.method? f = none := by rw [method?, htag, Option.map_none]
      rw [List.filterMap_cons_none hmethod, List.filter_cons_of_neg (by simp [htag])]
      exact ih
    | some tag =>
      have hmethod : b.method? f = some _ := congrArg (Option.map _) htag
      rw [List.filterMap_cons_some hmethod, List.filter_cons_of_pos (by simp [htag])]
      exact .cons hmethod ih

/-- A method of the table is what some method of the block is described as. -/
theorem exists_of_mem_methods (h : b.describe = .ok d) (hm : m ∈ d.table.methods) :
    ∃ f ∈ b.methods, ∃ tag, f.tag? = some tag ∧ m = f.describe b.selfType.render
      (b.generics.params.filterMap GenericParam.typeName?) tag := by
  rw [(describe_methods h).2] at hm
  obtain ⟨f, hf, hmethod⟩ := List.mem_filterMap.mp hm
  obtain ⟨tag, htag, heq⟩ := Option.map_eq_some_iff.mp hmethod
  exact ⟨f, hf, tag, htag, heq.symm⟩

end ImplBlock

end HookDispatch.Source
