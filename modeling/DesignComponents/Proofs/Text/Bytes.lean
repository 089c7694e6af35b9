import DesignComponents.Text.Utf8

/-!
# Bytes read as text

Every text is read from its bytes. One byte more in front of some bytes begins at most one
character more.
-/

namespace DesignComponents

/-- What holds of the characters below a bound, one by one, holds of all of them. -/
theorem char_of_forall_lt {P : Char → Prop} {bound : Nat} (h : ∀ n < bound, P (Char.ofNat n))
    {c : Char} (hc : c.toNat < bound) : P c := by
  have hchar := h c.toNat hc
  rwa [Char.ofNat_toNat] at hchar

namespace Utf8

theorem read_of_lead {b : UInt8} {l : Lead} (h : lead? b.toNat = some l) (bs : List UInt8) :
    read (b :: bs) = (readTrail l.bits l.count l.low l.high bs).1 ::
      read (readTrail l.bits l.count l.low l.high bs).2 := by
  rw [read, h]

theorem read_of_no_lead {b : UInt8} (h : lead? b.toNat = none) (bs : List UInt8) :
    read (b :: bs) = none :: read bs := by
  rw [read, h]

/-! ## The bytes of a text -/

theorem readTrail_cons {b : UInt8} {low high : Nat} (h : low ≤ b.toNat ∧ b.toNat ≤ high)
    (code count : Nat) (bs : List UInt8) :
    readTrail code (count + 1) low high (b :: bs) =
      readTrail (64 * code + b.toNat % 64) count 0x80 0xBF bs := by
  rw [readTrail, if_pos h]

theorem readTrail_ofNat {n low high : Nat} (h : low ≤ n % 64 + 128 ∧ n % 64 + 128 ≤ high)
    (code count : Nat) (bs : List UInt8) :
    readTrail code (count + 1) low high (UInt8.ofNat (n % 64 + 128) :: bs) =
      readTrail (64 * code + n % 64) count 0x80 0xBF bs := by
  have hbyte : (UInt8.ofNat (n % 64 + 128)).toNat = n % 64 + 128 :=
    UInt8.toNat_ofNat_of_lt' (by change _ < 256; omega)
  rw [readTrail_cons (by rw [hbyte]; exact h), hbyte]
  congr 1
  omega

theorem toNat_ofNat {n : Nat} (h : n < 256) : (UInt8.ofNat n).toNat = n :=
  UInt8.toNat_ofNat_of_lt' h

theorem read_one {v : Nat} (h : v ≤ 0x7F) (bs : List UInt8) :
    read (UInt8.ofNat v :: bs) = some (Char.ofNat v) :: read bs := by
  have hlead : lead? v = some ⟨0, 0, 0, v⟩ := by rw [lead?, if_pos (by omega)]
  rw [← toNat_ofNat (show v < 256 by omega)] at hlead
  rw [read_of_lead hlead, toNat_ofNat (by omega), readTrail]

theorem read_two {v : Nat} (h : 0x7F < v ∧ v ≤ 0x7FF) (bs : List UInt8) :
    read (UInt8.ofNat (v / 64 % 32 + 192) :: UInt8.ofNat (v % 64 + 128) :: bs) =
      some (Char.ofNat v) :: read bs := by
  have hlead : lead? (v / 64 % 32 + 192) = some ⟨1, 0x80, 0xBF, v / 64⟩ := by
    have hmod : v / 64 % 32 = v / 64 := by omega
    rw [lead?, hmod, if_neg (by omega), if_neg (by omega), if_pos (by omega), Nat.add_sub_cancel]
  have hbounds : 0x80 ≤ v % 64 + 128 ∧ v % 64 + 128 ≤ 0xBF := by omega
  have hcode : 64 * (v / 64) + v % 64 = v := Nat.div_add_mod v 64
  rw [← toNat_ofNat (show v / 64 % 32 + 192 < 256 by omega)] at hlead
  rw [read_of_lead hlead, readTrail_ofNat hbounds, readTrail, hcode]

/-- The byte before two others, and what it asks of the first of them. -/
theorem lead?_of_three {v : Nat} (h : 0x7FF < v ∧ v ≤ 0xFFFF) (hvalid : v < 0xD800 ∨ 0xDFFF < v) :
    ∃ low high, lead? (v / 4096 % 16 + 224) = some ⟨2, low, high, v / 4096⟩ ∧
      low ≤ v / 64 % 64 + 128 ∧ v / 64 % 64 + 128 ≤ high := by
  have hmod : v / 4096 % 16 = v / 4096 := by omega
  rw [lead?, hmod, if_neg (by omega), if_neg (by omega), if_neg (by omega)]
  by_cases hfirst : v / 4096 = 0
  · rw [if_pos (by omega), hfirst]
    exact ⟨0xA0, 0xBF, rfl, by omega, by omega⟩
  · rw [if_neg (by omega)]
    by_cases hlast : v / 4096 = 13
    · rw [if_pos (by omega), hlast]
      exact ⟨0x80, 0x9F, rfl, by omega, by omega⟩
    · rw [if_neg (by omega), if_pos (by omega), Nat.add_sub_cancel]
      exact ⟨0x80, 0xBF, rfl, by omega, by omega⟩

theorem read_three {v : Nat} (h : 0x7FF < v ∧ v ≤ 0xFFFF) (hvalid : v < 0xD800 ∨ 0xDFFF < v)
    (bs : List UInt8) :
    read (UInt8.ofNat (v / 4096 % 16 + 224) :: UInt8.ofNat (v / 64 % 64 + 128) ::
      UInt8.ofNat (v % 64 + 128) :: bs) = some (Char.ofNat v) :: read bs := by
  obtain ⟨low, high, hlead, hbounds⟩ := lead?_of_three h hvalid
  have hcode : 64 * (64 * (v / 4096) + v / 64 % 64) + v % 64 = v := by omega
  rw [← toNat_ofNat (show v / 4096 % 16 + 224 < 256 by omega)] at hlead
  rw [read_of_lead hlead, readTrail_ofNat hbounds, readTrail_ofNat (by omega), readTrail, hcode]

/-- The byte before three others, and what it asks of the first of them. -/
theorem lead?_of_four {v : Nat} (h : 0xFFFF < v ∧ v < 0x110000) :
    ∃ low high, lead? (v / 262144 % 8 + 240) = some ⟨3, low, high, v / 262144⟩ ∧
      low ≤ v / 4096 % 64 + 128 ∧ v / 4096 % 64 + 128 ≤ high := by
  have hmod : v / 262144 % 8 = v / 262144 := by omega
  rw [lead?, hmod, if_neg (by omega), if_neg (by omega), if_neg (by omega), if_neg (by omega),
    if_neg (by omega), if_neg (by omega)]
  by_cases hfirst : v / 262144 = 0
  · rw [if_pos (by omega), hfirst]
    exact ⟨0x90, 0xBF, rfl, by omega, by omega⟩
  · rw [if_neg (by omega)]
    by_cases hlast : v / 262144 = 4
    · rw [if_neg (by omega), if_pos (by omega), hlast]
      exact ⟨0x80, 0x8F, rfl, by omega, by omega⟩
    · rw [if_pos (by omega), Nat.add_sub_cancel]
      exact ⟨0x80, 0xBF, rfl, by omega, by omega⟩

theorem read_four {v : Nat} (h : 0xFFFF < v ∧ v < 0x110000) (bs : List UInt8) :
    read (UInt8.ofNat (v / 262144 % 8 + 240) :: UInt8.ofNat (v / 4096 % 64 + 128) ::
      UInt8.ofNat (v / 64 % 64 + 128) :: UInt8.ofNat (v % 64 + 128) :: bs) =
        some (Char.ofNat v) :: read bs := by
  obtain ⟨low, high, hlead, hbounds⟩ := lead?_of_four h
  have hcode : 64 * (64 * (64 * (v / 262144) + v / 4096 % 64) + v / 64 % 64) + v % 64 = v := by
    omega
  rw [← toNat_ofNat (show v / 262144 % 8 + 240 < 256 by omega)] at hlead
  rw [read_of_lead hlead, readTrail_ofNat hbounds, readTrail_ofNat (by omega),
    readTrail_ofNat (by omega), readTrail, hcode]

theorem read_utf8EncodeChar (c : Char) (bs : List UInt8) :
    read (String.utf8EncodeChar c ++ bs) = some c :: read bs := by
  have hvalid : c.val.toNat < 0xD800 ∨ (0xDFFF < c.val.toNat ∧ c.val.toNat < 0x110000) := c.valid
  have hread : read (String.utf8EncodeChar c ++ bs) = some (Char.ofNat c.val.toNat) :: read bs := by
    unfold String.utf8EncodeChar
    dsimp only
    split
    · exact read_one (by omega) bs
    split
    · exact read_two (by omega) bs
    split
    · exact read_three (by omega) (by omega) bs
    · exact read_four (by omega) bs
  rw [hread]
  exact congrArg (some · :: read bs) (Char.ofNat_toNat c)

theorem bytes_singleton (c : Char) : bytes [c] = String.utf8EncodeChar c :=
  List.flatMap_singleton ..

theorem bytes_append (cs ds : List Char) : bytes (cs ++ ds) = bytes cs ++ bytes ds :=
  List.flatMap_append

theorem read_bytes_append (cs : List Char) (bs : List UInt8) :
    read (bytes cs ++ bs) = cs.map some ++ read bs := by
  induction cs with
  | nil => rfl
  | cons c cs ih =>
    rw [bytes, List.flatMap_cons, List.append_assoc, read_utf8EncodeChar]
    exact congrArg (some c :: ·) ih

/-- Every text is read from its bytes. -/
theorem lenient_bytes (cs : List Char) : lenient (bytes cs) = cs := by
  have hread := read_bytes_append cs []
  rw [List.append_nil, read, List.append_nil] at hread
  rw [lenient, hread, List.map_map]
  exact List.map_id cs

/-! ## Any bytes -/

theorem lead?_of_trail {b : Nat} (h : 0x80 ≤ b ∧ b ≤ 0xBF) : lead? b = none := by
  rw [lead?, if_neg (by omega), if_pos (by omega)]

/-- The bytes that a leading byte takes to itself begin no characters. -/
theorem length_read_readTrail (code : Nat) {count low high : Nat}
    (h : count = 0 ∨ 0x80 ≤ low ∧ high ≤ 0xBF) (bs : List UInt8) :
    (read (readTrail code count low high bs).2).length ≤ (read bs).length := by
  induction bs generalizing code count low high with
  | nil => cases count <;> exact Nat.le_refl _
  | cons b bs ih =>
    cases count with
    | zero => exact Nat.le_refl _
    | succ count =>
      have hbounds : 0x80 ≤ low ∧ high ≤ 0xBF := h.resolve_left (Nat.succ_ne_zero count)
      rw [readTrail]
      split
      · rename_i hb
        rw [read_of_no_lead (lead?_of_trail (by omega)), List.length_cons]
        exact Nat.le_succ_of_le (ih _ (.inr ⟨Nat.le_refl _, Nat.le_refl _⟩))
      · exact Nat.le_refl _

theorem bounds_of_lead {b : Nat} {l : Lead} (h : lead? b = some l) :
    l.count = 0 ∨ 0x80 ≤ l.low ∧ l.high ≤ 0xBF := by
  unfold lead? at h
  repeat' split at h
  all_goals cases h
  all_goals simp

theorem length_read_cons_le (b : UInt8) (bs : List UInt8) :
    (read (b :: bs)).length ≤ (read bs).length + 1 := by
  cases hlead : lead? b.toNat with
  | none => exact Nat.le_of_eq (congrArg List.length (read_of_no_lead hlead bs))
  | some l =>
    rw [read_of_lead hlead, List.length_cons]
    exact Nat.succ_le_succ (length_read_readTrail l.bits (bounds_of_lead hlead) bs)

end Utf8

end DesignComponents
