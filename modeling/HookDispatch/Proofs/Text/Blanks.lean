import HookDispatch.Text.Blank
import HookDispatch.Text.WordChar
import Mathlib.Data.List.DropRight

/-!
Blanks and word characters, which are different. A class of characters is given by its boundaries,
and of a class with ascending boundaries the points between the first two are read off first, so
the blanks can be listed one by one. What is dropped at the end of a text is dropped from its last
part before the other parts.
-/
namespace HookDispatch.Text

variable {bs : List Nat} {n : Nat}

/-- Boundaries above a point do not count for it. -/
theorem foldl_boundaries_of_lt (h : ∀ b ∈ bs, n < b) (inside : Bool) :
    bs.foldl (fun inside b => if b ≤ n then !inside else inside) inside = inside := by
  induction bs with
  | nil => rfl
  | cons b bs ih =>
    have hb := h b List.mem_cons_self
    rw [List.foldl_cons, if_neg (by omega)]
    apply ih
    intro b' hb'
    exact h b' (List.mem_cons_of_mem b hb')

theorem insideBoundaries_cons_cons {lo hi : Nat}
    (h : (lo :: hi :: bs).Pairwise (· < ·)) :
    insideBoundaries (lo :: hi :: bs) n = (decide (lo ≤ n ∧ n < hi) || insideBoundaries bs n) := by
  obtain ⟨hlo, hpair⟩ := List.pairwise_cons.mp h
  obtain ⟨hhi, -⟩ := List.pairwise_cons.mp hpair
  have hfirst := hlo hi List.mem_cons_self
  unfold insideBoundaries
  rw [List.foldl_cons, List.foldl_cons]
  by_cases hbelow : n < hi
  · have habove : ∀ b ∈ bs, n < b := by
      intro b hb
      have := hhi b hb
      omega
    rw [foldl_boundaries_of_lt habove, foldl_boundaries_of_lt habove, if_neg (by omega)]
    by_cases hin : lo ≤ n
    · simp [hin, hbelow]
    · simp [hin]
  · rw [if_pos (by omega), if_pos (by omega)]
    simp [hbelow]

def blankPoints : List Nat :=
  [0x9, 0xa, 0xb, 0xc, 0xd, 0x20, 0x85, 0xa0, 0x1680, 0x2000, 0x2001, 0x2002, 0x2003, 0x2004,
   0x2005, 0x2006, 0x2007, 0x2008, 0x2009, 0x200a, 0x2028, 0x2029, 0x202f, 0x205f, 0x3000]

theorem mem_blankPoints {c : Char} (h : isBlank c = true) : c.toNat ∈ blankPoints := by
  unfold isBlank blankBoundaries at h
  generalize c.toNat = n at h
  repeat rw [insideBoundaries_cons_cons (by decide)] at h
  simp only [insideBoundaries, List.foldl_nil, Bool.or_false, Bool.or_eq_true,
    decide_eq_true_eq] at h
  simp only [blankPoints, List.mem_cons, List.not_mem_nil, or_false]
  omega

theorem isWordChar_of_isBlank {c : Char} (h : isBlank c = true) : isWordChar c = false := by
  have hpoints : ∀ n ∈ blankPoints, isWordChar (Char.ofNat n) = false := by decide +kernel
  have hc := hpoints c.toNat (mem_blankPoints h)
  rwa [Char.ofNat_toNat] at hc

section DropEnd

variable {p : Char → Bool} {cs : List Char}

theorem rdropWhile_append {α : Type} (p : α → Bool) (as bs : List α) :
    (as ++ bs).rdropWhile p = if bs.all p then as.rdropWhile p else as ++ bs.rdropWhile p := by
  have hnil : (bs.reverse.dropWhile p).isEmpty = bs.all p := by
    rw [Bool.eq_iff_iff, List.isEmpty_iff, List.dropWhile_eq_nil_iff, List.all_eq_true]
    simp only [List.mem_reverse]
  simp only [List.rdropWhile, List.reverse_append, List.dropWhile_append, hnil]
  split
  · rfl
  · rw [List.reverse_append, List.reverse_reverse]

theorem dropEndWhile_append (p : Char → Bool) (cs ds : List Char) :
    dropEndWhile p (cs ++ ds) =
      if ds.all p then dropEndWhile p cs else cs ++ dropEndWhile p ds :=
  rdropWhile_append p cs ds

theorem dropEndWhile_of_all (h : cs.all p = true) : dropEndWhile p cs = [] :=
  List.rdropWhile_eq_nil_iff.mpr (List.all_eq_true.mp h)

end DropEnd

end HookDispatch.Text
