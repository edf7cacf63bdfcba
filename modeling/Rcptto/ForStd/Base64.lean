import Mathlib.Data.List.Nodup

/-!
# Base64 without padding

Three bytes are four characters of an alphabet of 64; one or two bytes at the end are two or three
characters. The decoder skips line ends and ignores the bits of the last character that belong to
no byte, so that a text can have several spellings.

## Key results

- `decodeGroups_groups`: the groups of six bits and the bytes they stand for
- `Alphabet.decode_encode`: every sequence of bytes is read back
-/

namespace Base64

/-! ## Groups of six bits -/

/-- The groups of six bits of these bytes. -/
def groups : List UInt8 → List Nat
  | [] => []
  | [a] => [a.toNat / 4, a.toNat % 4 * 16]
  | [a, b] => [a.toNat / 4, a.toNat % 4 * 16 + b.toNat / 16, b.toNat % 16 * 4]
  | a :: b :: c :: rest =>
    a.toNat / 4 :: (a.toNat % 4 * 16 + b.toNat / 16) :: (b.toNat % 16 * 4 + c.toNat / 64) ::
      c.toNat % 64 :: groups rest

/-- The bytes of these groups. A single group at the end is too short for a byte. -/
def decodeGroups : List Nat → Option (List UInt8)
  | [] => some []
  | [_] => none
  | [s, t] => some [.ofNat (s * 4 + t / 16)]
  | [s, t, u] => some [.ofNat (s * 4 + t / 16), .ofNat (t % 16 * 16 + u / 4)]
  | s :: t :: u :: v :: rest =>
    (decodeGroups rest).map fun bytes =>
      .ofNat (s * 4 + t / 16) :: .ofNat (t % 16 * 16 + u / 4) :: .ofNat (u % 4 * 64 + v) :: bytes

/-- Groups have six bits. -/
theorem groups_lt {bs : List UInt8} {n : Nat} (h : n ∈ groups bs) : n < 64 := by
  -- every group is cut from at most two bytes, each of which is below 256
  induction bs using groups.induct with
  | case1 => cases h
  | case2 a =>
    have ha := a.toNat_lt
    simp only [groups, List.mem_cons, List.not_mem_nil, or_false] at h
    omega
  | case3 a b =>
    have ha := a.toNat_lt
    have hb := b.toNat_lt
    simp only [groups, List.mem_cons, List.not_mem_nil, or_false] at h
    omega
  | case4 a b c rest ih =>
    have ha := a.toNat_lt
    have hb := b.toNat_lt
    have hc := c.toNat_lt
    simp only [groups, List.mem_cons] at h
    rcases h with h | h | h | h | h
    · omega
    · omega
    · omega
    · omega
    · exact ih h

/-- A byte, from the number that its bits make up. -/
theorem ofNat_eq {b : UInt8} {n : Nat} (h : n = b.toNat) : UInt8.ofNat n = b := by
  rw [h, UInt8.ofNat_toNat]

/-- The groups are put together again. -/
theorem decodeGroups_groups (bs : List UInt8) : decodeGroups (groups bs) = some bs := by
  -- three bytes at a time, and one or two at the end
  induction bs using groups.induct with
  | case1 => rfl
  | case2 a =>
    have ha : UInt8.ofNat (a.toNat / 4 * 4 + a.toNat % 4 * 16 / 16) = a := ofNat_eq (by omega)
    simp only [groups, decodeGroups, ha]
  | case3 a b =>
    have hb := b.toNat_lt
    have ha : UInt8.ofNat (a.toNat / 4 * 4 + (a.toNat % 4 * 16 + b.toNat / 16) / 16) = a :=
      ofNat_eq (by omega)
    have hb :
        UInt8.ofNat ((a.toNat % 4 * 16 + b.toNat / 16) % 16 * 16 + b.toNat % 16 * 4 / 4) = b :=
      ofNat_eq (by omega)
    simp only [groups, decodeGroups, ha, hb]
  | case4 a b c rest ih =>
    have hb := b.toNat_lt
    have hc := c.toNat_lt
    have ha : UInt8.ofNat (a.toNat / 4 * 4 + (a.toNat % 4 * 16 + b.toNat / 16) / 16) = a :=
      ofNat_eq (by omega)
    have hb : UInt8.ofNat ((a.toNat % 4 * 16 + b.toNat / 16) % 16 * 16 +
        (b.toNat % 16 * 4 + c.toNat / 64) / 4) = b := ofNat_eq (by omega)
    have hc : UInt8.ofNat ((b.toNat % 16 * 4 + c.toNat / 64) % 4 * 64 + c.toNat % 64) = c :=
      ofNat_eq (by omega)
    simp only [groups, decodeGroups, ih, Option.map_some, ha, hb, hc]

/-! ## Characters -/

/-- An alphabet: 64 different characters, none of which ends a line. -/
structure Alphabet where
  chars : List Char
  length_eq : chars.length = 64
  nodup : chars.Nodup
  noLineEnd : ∀ c ∈ chars, c ≠ '\r' ∧ c ≠ '\n'

namespace Alphabet

variable (a : Alphabet)

/-- The character of a group. -/
def char (n : Nat) : Char := a.chars[n]?.getD 'A'

/-- The group of a character. -/
def group (c : Char) : Option Nat := a.chars.idxOf? c

/-- The text of these bytes. -/
def encode (bs : List UInt8) : List Char := (groups bs).map a.char

/-- The bytes of a text, unless it has a character that is not in the alphabet, or ends too
    early. -/
def decode (cs : List Char) : Option (List UInt8) :=
  ((cs.filter fun c => c ≠ '\r' && c ≠ '\n').mapM a.group).bind decodeGroups

/-- The character of a group. -/
theorem getElem?_chars {n : Nat} (h : n < 64) : a.chars[n]? = some (a.char n) := by
  rw [char, List.getElem?_eq_getElem (a.length_eq ▸ h), Option.getD_some]

/-- The group of a character is unique. -/
theorem group_char {n : Nat} (h : n < 64) : a.group (a.char n) = some n := by
  obtain ⟨hn, hget⟩ := List.getElem?_eq_some_iff.mp (a.getElem?_chars h)
  rw [group, List.idxOf?_eq_some_iff]
  refine ⟨hn, hget, ?_⟩
  intro m hm heq
  exact absurd (a.nodup.getElem_inj_iff.mp (heq.trans hget.symm)) (by omega)

/-- Every character is read back. -/
theorem mapM_group_encode {ns : List Nat} (h : ∀ n ∈ ns, n < 64) :
    (ns.map a.char).mapM a.group = some ns := by
  induction ns with
  | nil => rfl
  | cons n ns ih =>
    have hn := a.group_char (h n List.mem_cons_self)
    have hns := ih fun m hm => h m (List.mem_cons_of_mem n hm)
    simp [List.mapM_cons, hn, hns]

/-- What was encoded is decoded. -/
theorem decode_encode (bs : List UInt8) : a.decode (a.encode bs) = some bs := by
  have hfilter : (a.encode bs).filter (fun c => c ≠ '\r' && c ≠ '\n') = a.encode bs := by
    refine List.filter_eq_self.mpr fun c hc => ?_
    obtain ⟨n, hn, rfl⟩ := List.mem_map.mp hc
    have hmem := List.mem_of_getElem? (a.getElem?_chars (groups_lt hn))
    simpa using a.noLineEnd _ hmem
  rw [decode, hfilter, encode, a.mapM_group_encode fun n => groups_lt, Option.bind_some,
    decodeGroups_groups]

end Alphabet

end Base64
