import Mathlib.Data.List.Basic

/-!
# ASCII text as bytes

The UTF-8 encoding of a string as a list of bytes, and the way back for bytes that are ASCII
characters.
-/

/-- A property of all bytes, checked value by value. -/
theorem UInt8.forall_of_lt {P : UInt8 → Prop} (h : ∀ n < 256, P (.ofNat n)) (b : UInt8) : P b := by
  simpa using h b.toNat b.toNat_lt

namespace String

/-- The bytes of a string. -/
def utf8Bytes (s : String) : List UInt8 := s.toList.flatMap utf8EncodeChar

/-- The string with these ASCII characters. -/
def ofAscii (bs : List UInt8) : String := ofList (bs.map .ofUInt8)

@[simp] theorem toList_ofAscii (bs : List UInt8) : (ofAscii bs).toList = bs.map .ofUInt8 := by
  simp [ofAscii]

theorem ofAscii_append (bs cs : List UInt8) : ofAscii (bs ++ cs) = ofAscii bs ++ ofAscii cs := by
  simp [ofAscii]

theorem utf8Bytes_append (s t : String) : (s ++ t).utf8Bytes = s.utf8Bytes ++ t.utf8Bytes := by
  simp [utf8Bytes]

/-- An ASCII byte in an encoding is the character itself. -/
theorem mem_utf8EncodeChar {b : UInt8} {c : Char} (h : b ∈ utf8EncodeChar c) (hb : b < 128) :
    c = .ofUInt8 b := by
  -- the bytes of a longer encoding are at least 128
  have hbig : ∀ n, 128 ≤ n → n < 256 → b ≠ .ofNat n := by
    rintro n hn hn' rfl
    rw [UInt8.lt_iff_toNat_lt, UInt8.toNat_ofNat', Nat.mod_eq_of_lt hn'] at hb
    exact absurd hb (by simpa using hn)
  unfold utf8EncodeChar at h
  dsimp only at h
  split at h
  · rename_i hc
    rw [List.mem_singleton.mp h]
    apply Char.ext
    apply UInt32.toNat_inj.mp
    have hlt : c.toNat < 256 := Nat.lt_of_le_of_lt hc (by decide)
    show c.toNat = (UInt8.ofNat c.toNat).toUInt32.toNat
    simp [Nat.mod_eq_of_lt hlt]
  · exfalso
    split_ifs at h <;> simp only [List.mem_cons, List.not_mem_nil, or_false] at h
    · rcases h with h | h <;> exact hbig _ (by omega) (by omega) h
    · rcases h with h | h | h <;> exact hbig _ (by omega) (by omega) h
    · rcases h with h | h | h | h <;> exact hbig _ (by omega) (by omega) h

/-- An ASCII byte of a string is one of its characters. -/
theorem mem_toList_of_mem_utf8Bytes {b : UInt8} {s : String} (h : b ∈ s.utf8Bytes) (hb : b < 128) :
    .ofUInt8 b ∈ s.toList := by
  obtain ⟨c, hc, hmem⟩ := List.mem_flatMap.mp h
  rw [← mem_utf8EncodeChar hmem hb]
  exact hc

theorem utf8EncodeChar_ofUInt8 {b : UInt8} (hb : b < 128) : utf8EncodeChar (.ofUInt8 b) = [b] := by
  have hall : ∀ b : UInt8, b < 128 → utf8EncodeChar (.ofUInt8 b) = [b] :=
    UInt8.forall_of_lt (by decide +kernel)
  exact hall b hb

/-- ASCII characters are encoded as themselves. -/
theorem utf8Bytes_ofAscii {bs : List UInt8} (h : ∀ b ∈ bs, b < 128) :
    (ofAscii bs).utf8Bytes = bs := by
  rw [utf8Bytes, toList_ofAscii, List.flatMap_map]
  induction bs with
  | nil => rfl
  | cons b bs ih =>
    rw [List.flatMap_cons, utf8EncodeChar_ofUInt8 (h b (by simp)),
      ih fun c hc => h c (by simp [hc])]
    rfl

end String
