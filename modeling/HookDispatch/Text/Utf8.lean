/-!
UTF-8. A text is matched byte by byte, and a byte sequence is shown as text by decoding it: each
well-formed character is itself, and each longest start of a character that is not completed
becomes one replacement character.
-/
namespace HookDispatch.Text

/-- The UTF-8 bytes of a text. -/
def bytes (s : String) : List UInt8 := s.toByteArray.data.toList

/-- The ranges in which the bytes after a leading byte must lie, or nothing if no character starts
with that byte. The first follower has a narrower range where a wider one would allow overlong
forms, surrogates or points past the last one. -/
def followers (lead : UInt8) : Option (List (UInt8 × UInt8)) :=
  if lead < 0x80 then some []
  else if lead < 0xc2 then none
  else if lead < 0xe0 then some [(0x80, 0xbf)]
  else if lead = 0xe0 then some [(0xa0, 0xbf), (0x80, 0xbf)]
  else if lead = 0xed then some [(0x80, 0x9f), (0x80, 0xbf)]
  else if lead < 0xf0 then some [(0x80, 0xbf), (0x80, 0xbf)]
  else if lead = 0xf0 then some [(0x90, 0xbf), (0x80, 0xbf), (0x80, 0xbf)]
  else if lead < 0xf4 then some [(0x80, 0xbf), (0x80, 0xbf), (0x80, 0xbf)]
  else if lead = 0xf4 then some [(0x80, 0x8f), (0x80, 0xbf), (0x80, 0xbf)]
  else none

def fitting : List (UInt8 × UInt8) → List UInt8 → Nat
  | (low, high) :: ranges, b :: rest => if low ≤ b && b ≤ high then fitting ranges rest + 1 else 0
  | _, _ => 0

def leadPayload (lead : UInt8) (n : Nat) : Nat :=
  match n with
  | 0 => lead.toNat
  | 1 => lead.toNat - 0xc0
  | 2 => lead.toNat - 0xe0
  | _ => lead.toNat - 0xf0

def assemble (lead : UInt8) (rest : List UInt8) : Char :=
  Char.ofNat (rest.foldl (fun n b => n * 64 + (b.toNat - 0x80)) (leadPayload lead rest.length))

def replacement : Char := '\uFFFD'

def decodeLossy : List UInt8 → List Char
  | [] => []
  | lead :: rest =>
    match followers lead with
    | none => replacement :: decodeLossy rest
    | some ranges =>
      let n := fitting ranges rest
      (if n = ranges.length then assemble lead (rest.take n) else replacement) ::
        decodeLossy (rest.drop n)
termination_by bytes => bytes.length
decreasing_by all_goals (simp only [List.length_cons, List.length_drop]; omega)

def showBytes (bs : List UInt8) : String := String.ofList (decodeLossy bs)

theorem bytes_injective {s t : String} (h : bytes s = bytes t) : s = t := by
  have : s.toByteArray = t.toByteArray := ByteArray.ext (Array.toList_inj.1 h)
  exact String.toByteArray_inj.1 this

theorem bytes_eq_nil_iff {s : String} : bytes s = [] ↔ s = "" :=
  ⟨fun h => bytes_injective (h.trans rfl), fun h => h ▸ rfl⟩

end HookDispatch.Text
