/-!
Labels: positions in a list of operations, and the placeholder that a branch carries until its
target is known.
-/
namespace HookDispatch

/-- A position in a program, kept in 32 bits. -/
structure Label where
  index : UInt32
deriving DecidableEq, Repr

namespace Label

/-- The placeholder of a branch without a target, the largest label. -/
def pending : Label := ⟨0xffffffff⟩

/-- The label of a position; positions beyond 32 bits lose their high bits. -/
def ofNat (n : Nat) : Label := ⟨n.toUInt32⟩

def toNat (l : Label) : Nat := l.index.toNat

def isPending (l : Label) : Bool := l == pending

/-- A decimal number with zeros in front, to four digits at least. -/
def padded (n : Nat) : String :=
  let digits := Nat.toDigits 10 n
  String.ofList (List.replicate (4 - digits.length) '0' ++ digits)

def text (l : Label) : String := if l.isPending then "????" else padded l.toNat

theorem toNat_ofNat {n : Nat} (h : n < UInt32.size) : (ofNat n).toNat = n := by
  simp only [ofNat, toNat, Nat.toUInt32, UInt32.toNat_ofNat']
  exact Nat.mod_eq_of_lt h

end Label

end HookDispatch
