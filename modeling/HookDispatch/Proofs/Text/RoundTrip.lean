import HookDispatch.Text.Utf8

/-!
Decoding gives a text back. Every character is encoded as a leading byte with the followers that
its range table asks for, so the lossy decoding of an encoded text never meets a byte that has to
be replaced.
-/
namespace HookDispatch.Text

theorem bytes_ofList (cs : List Char) :
    bytes (String.ofList cs) = cs.flatMap String.utf8EncodeChar := by
  simp only [bytes, String.toByteArray_ofList, List.utf8Encode]
  exact List.data_toByteArray ▸ rfl

theorem decodeLossy_cons {lead : UInt8} {ranges : List (UInt8 × UInt8)} {tail rest : List UInt8}
    (hlead : followers lead = some ranges) (hlength : tail.length = ranges.length)
    (hfit : fitting ranges (tail ++ rest) = ranges.length) :
    decodeLossy (lead :: tail ++ rest) = assemble lead tail :: decodeLossy rest := by
  rw [List.cons_append, decodeLossy, hlead]
  simp only [hfit, if_true]
  rw [← hlength, List.take_left, List.drop_left]

theorem fitting_cons {low high b : UInt8} {ranges : List (UInt8 × UInt8)} {rest : List UInt8}
    (hlow : low.toNat ≤ b.toNat) (hhigh : b.toNat ≤ high.toNat) :
    fitting ((low, high) :: ranges) (b :: rest) = fitting ranges rest + 1 := by
  have hin : (decide (low ≤ b) && decide (b ≤ high)) = true := by
    simp only [Bool.and_eq_true, decide_eq_true_eq, UInt8.le_iff_toNat_le]
    exact ⟨hlow, hhigh⟩
  simp only [fitting, hin, if_true]

theorem toNat_byte {n : Nat} (h : n < 256) : (UInt8.ofNat n).toNat = n := by
  simp only [UInt8.toNat_ofNat']
  omega

section Leads
variable {lead : UInt8}

theorem followers_one (h : lead.toNat < 0x80) : followers lead = some [] := by
  simp only [followers, UInt8.lt_iff_toNat_lt, UInt8.reduceToNat]
  rw [if_pos h]

theorem followers_two (hlow : 0xc2 ≤ lead.toNat) (hhigh : lead.toNat < 0xe0) :
    followers lead = some [(0x80, 0xbf)] := by
  simp only [followers, UInt8.lt_iff_toNat_lt, UInt8.reduceToNat]
  rw [if_neg (by omega), if_neg (by omega), if_pos hhigh]

/-- The first follower is narrowed below overlong forms and above surrogates. -/
theorem followers_three (hlow : 0xe0 ≤ lead.toNat) (hhigh : lead.toNat < 0xf0) :
    ∃ low high, followers lead = some [(low, high), (0x80, 0xbf)] ∧
      low.toNat = (if lead.toNat = 0xe0 then 0xa0 else 0x80) ∧
      high.toNat = (if lead.toNat = 0xed then 0x9f else 0xbf) := by
  simp only [followers, UInt8.lt_iff_toNat_lt, ← UInt8.toNat_inj, UInt8.reduceToNat]
  rw [if_neg (by omega), if_neg (by omega), if_neg (by omega)]
  by_cases he : lead.toNat = 0xe0
  · exact ⟨0xa0, 0xbf, by rw [if_pos he], by rw [if_pos he]; rfl, by rw [if_neg (by omega)]; rfl⟩
  · by_cases hd : lead.toNat = 0xed
    · exact ⟨0x80, 0x9f, by rw [if_neg he, if_pos hd], by rw [if_neg he]; rfl,
        by rw [if_pos hd]; rfl⟩
    · exact ⟨0x80, 0xbf, by rw [if_neg he, if_neg hd, if_pos hhigh], by rw [if_neg he]; rfl,
        by rw [if_neg hd]; rfl⟩

/-- The first follower is narrowed below overlong forms and above the last character. -/
theorem followers_four (hlow : 0xf0 ≤ lead.toNat) (hhigh : lead.toNat ≤ 0xf4) :
    ∃ low high, followers lead = some [(low, high), (0x80, 0xbf), (0x80, 0xbf)] ∧
      low.toNat = (if lead.toNat = 0xf0 then 0x90 else 0x80) ∧
      high.toNat = (if lead.toNat = 0xf4 then 0x8f else 0xbf) := by
  simp only [followers, UInt8.lt_iff_toNat_lt, ← UInt8.toNat_inj, UInt8.reduceToNat]
  rw [if_neg (by omega), if_neg (by omega), if_neg (by omega), if_neg (by omega),
    if_neg (by omega), if_neg (by omega)]
  by_cases h0 : lead.toNat = 0xf0
  · exact ⟨0x90, 0xbf, by rw [if_pos h0], by rw [if_pos h0]; rfl, by rw [if_neg (by omega)]; rfl⟩
  · by_cases h4 : lead.toNat = 0xf4
    · exact ⟨0x80, 0x8f, by rw [if_neg h0, if_neg (by omega), if_pos h4], by rw [if_neg h0]; rfl,
        by rw [if_pos h4]; rfl⟩
    · exact ⟨0x80, 0xbf, by rw [if_neg h0, if_pos (by omega)], by rw [if_neg h0]; rfl,
        by rw [if_neg h4]; rfl⟩

end Leads

theorem char_bounds (c : Char) :
    c.val.toNat < 0xd800 ∨ 0xdfff < c.val.toNat ∧ c.val.toNat < 0x110000 := c.valid

section Payloads
variable {lead b₁ b₂ b₃ : UInt8} {c : Char}

theorem assemble_one (h : lead.toNat = c.val.toNat) : assemble lead [] = c :=
  (congrArg Char.ofNat h).trans (Char.ofNat_toNat c)

theorem assemble_two (h : (lead.toNat - 0xc0) * 64 + (b₁.toNat - 0x80) = c.val.toNat) :
    assemble lead [b₁] = c :=
  (congrArg Char.ofNat h).trans (Char.ofNat_toNat c)

theorem assemble_three
    (h : ((lead.toNat - 0xe0) * 64 + (b₁.toNat - 0x80)) * 64 + (b₂.toNat - 0x80) = c.val.toNat) :
    assemble lead [b₁, b₂] = c :=
  (congrArg Char.ofNat h).trans (Char.ofNat_toNat c)

theorem assemble_four
    (h : (((lead.toNat - 0xf0) * 64 + (b₁.toNat - 0x80)) * 64 + (b₂.toNat - 0x80)) * 64 +
      (b₃.toNat - 0x80) = c.val.toNat) : assemble lead [b₁, b₂, b₃] = c :=
  (congrArg Char.ofNat h).trans (Char.ofNat_toNat c)

end Payloads

section Characters
variable {c : Char}

theorem encodeChar_one (h : c.val.toNat ≤ 0x7f) :
    String.utf8EncodeChar c = [UInt8.ofNat c.val.toNat] := if_pos h

theorem encodeChar_two (h1 : ¬ c.val.toNat ≤ 0x7f) (h2 : c.val.toNat ≤ 0x7ff) :
    String.utf8EncodeChar c =
      [UInt8.ofNat (c.val.toNat / 64 % 32 + 192), UInt8.ofNat (c.val.toNat % 64 + 128)] :=
  (if_neg h1).trans (if_pos h2)

theorem encodeChar_three (h1 : ¬ c.val.toNat ≤ 0x7f) (h2 : ¬ c.val.toNat ≤ 0x7ff)
    (h3 : c.val.toNat ≤ 0xffff) :
    String.utf8EncodeChar c =
      [UInt8.ofNat (c.val.toNat / 4096 % 16 + 224), UInt8.ofNat (c.val.toNat / 64 % 64 + 128),
        UInt8.ofNat (c.val.toNat % 64 + 128)] :=
  (if_neg h1).trans ((if_neg h2).trans (if_pos h3))

theorem encodeChar_four (h1 : ¬ c.val.toNat ≤ 0x7f) (h2 : ¬ c.val.toNat ≤ 0x7ff)
    (h3 : ¬ c.val.toNat ≤ 0xffff) :
    String.utf8EncodeChar c =
      [UInt8.ofNat (c.val.toNat / 262144 % 8 + 240), UInt8.ofNat (c.val.toNat / 4096 % 64 + 128),
        UInt8.ofNat (c.val.toNat / 64 % 64 + 128), UInt8.ofNat (c.val.toNat % 64 + 128)] :=
  (if_neg h1).trans ((if_neg h2).trans (if_neg h3))

end Characters

/-- A follower that lies in the whole range. -/
theorem fitting_follower (n : Nat) (ranges : List (UInt8 × UInt8)) (rest : List UInt8) :
    fitting ((0x80, 0xbf) :: ranges) (UInt8.ofNat (n % 64 + 128) :: rest) =
      fitting ranges rest + 1 := by
  have h := toNat_byte (show n % 64 + 128 < 256 by omega)
  apply fitting_cons
  · simp only [h, UInt8.reduceToNat]
    omega
  · simp only [h, UInt8.reduceToNat]
    omega

/-- An encoded character is read back, whatever comes after it. -/
theorem decodeLossy_encodeChar (c : Char) (rest : List UInt8) :
    decodeLossy (String.utf8EncodeChar c ++ rest) = c :: decodeLossy rest := by
  have hc := char_bounds c
  have hlast := toNat_byte (show c.val.toNat % 64 + 128 < 256 by omega)
  have hmid := toNat_byte (show c.val.toNat / 64 % 64 + 128 < 256 by omega)
  have hsecond := toNat_byte (show c.val.toNat / 4096 % 64 + 128 < 256 by omega)
  by_cases h1 : c.val.toNat ≤ 0x7f
  · have hlead := toNat_byte (show c.val.toNat < 256 by omega)
    rw [encodeChar_one h1, decodeLossy_cons (followers_one (by omega)) rfl rfl, assemble_one hlead]
  by_cases h2 : c.val.toNat ≤ 0x7ff
  · have hlead := toNat_byte (show c.val.toNat / 64 % 32 + 192 < 256 by omega)
    have hlow : 0xc2 ≤ (UInt8.ofNat (c.val.toNat / 64 % 32 + 192)).toNat := by omega
    have hfollow := followers_two hlow (by omega)
    rw [encodeChar_two h1 h2, decodeLossy_cons hfollow]
    · rw [assemble_two (c := c) (by rw [hlead, hlast]; omega)]
    · rfl
    · rw [List.cons_append, fitting_follower]
      rfl
  by_cases h3 : c.val.toNat ≤ 0xffff
  · have hlead := toNat_byte (show c.val.toNat / 4096 % 16 + 224 < 256 by omega)
    have hthree : 0xe0 ≤ (UInt8.ofNat (c.val.toNat / 4096 % 16 + 224)).toNat := by omega
    obtain ⟨low, high, hfollow, hlow, hhigh⟩ := followers_three hthree (by omega)
    rw [encodeChar_three h1 h2 h3, decodeLossy_cons hfollow]
    · rw [assemble_three (c := c) (by rw [hlead, hmid, hlast]; omega)]
    · rfl
    · rw [List.cons_append, fitting_cons (by rw [hlow, hlead, hmid]; split <;> omega)
        (by rw [hhigh, hlead, hmid]; split <;> omega), List.cons_append, fitting_follower]
      rfl
  · have hlead := toNat_byte (show c.val.toNat / 262144 % 8 + 240 < 256 by omega)
    have hfour : 0xf0 ≤ (UInt8.ofNat (c.val.toNat / 262144 % 8 + 240)).toNat := by omega
    obtain ⟨low, high, hfollow, hlow, hhigh⟩ := followers_four hfour (by omega)
    rw [encodeChar_four h1 h2 h3, decodeLossy_cons hfollow]
    · rw [assemble_four (c := c) (by rw [hlead, hsecond, hmid, hlast]; omega)]
    · rfl
    · rw [List.cons_append, fitting_cons (by rw [hlow, hlead, hsecond]; split <;> omega)
        (by rw [hhigh, hlead, hsecond]; split <;> omega), List.cons_append, fitting_follower,
        List.cons_append, fitting_follower]
      rfl

theorem decodeLossy_flatMap (cs : List Char) :
    decodeLossy (cs.flatMap String.utf8EncodeChar) = cs := by
  induction cs with
  | nil => simp only [List.flatMap_nil, decodeLossy]
  | cons c cs ih => rw [List.flatMap_cons, decodeLossy_encodeChar, ih]

/-- Bytes that encode a text are shown as that text. -/
theorem showBytes_bytes (s : String) : showBytes (bytes s) = s := by
  have h := bytes_ofList s.toList
  rw [String.ofList_toList] at h
  rw [showBytes, h, decodeLossy_flatMap, String.ofList_toList]

end HookDispatch.Text
