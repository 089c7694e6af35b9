import DesignComponents.Text.Hex

/-!
# Hexadecimal digits read back

The digits of a number give it back, alone, in pairs and behind others.
-/

namespace DesignComponents

theorem hexValue?_hexDigit {n : Nat} (h : n < 16) : hexValue? (hexDigit n) = some n := by
  have hall : ∀ n < 16, hexValue? (hexDigit n) = some n := by decide
  exact hall n h

theorem hexDigit_inj {m n : Nat} (hm : m < 16) (hn : n < 16) (h : hexDigit m = hexDigit n) :
    m = n := by
  have hvalue := hexValue?_hexDigit hm
  rw [h, hexValue?_hexDigit hn] at hvalue
  exact (Option.some.inj hvalue).symm

theorem hexPair_inj {x y : UInt8} (h : hexPair x = hexPair y) : x = y := by
  obtain ⟨hhigh, hrest⟩ := List.cons.inj h
  obtain ⟨hlow, _⟩ := List.cons.inj hrest
  have hx : x.toNat < 256 := x.toNat_lt
  have hy : y.toNat < 256 := y.toNat_lt
  have hhigh := hexDigit_inj (by omega) (by omega) hhigh
  have hlow := hexDigit_inj (by omega) (by omega) hlow
  exact UInt8.toNat_inj.mp (by omega)

/-- More digits behind those of a number shift it up. -/
theorem foldlM_hexValue?_hexPair (n : Nat) (b : UInt8) :
    (hexPair b).foldlM (fun n c => (hexValue? c).map (16 * n + ·)) n =
      some (256 * n + b.toNat) := by
  have hb : b.toNat < 256 := b.toNat_lt
  have hhigh := hexValue?_hexDigit (n := b.toNat / 16) (by omega)
  have hlow := hexValue?_hexDigit (n := b.toNat % 16) (by omega)
  have hsum : 16 * (16 * n + b.toNat / 16) + b.toNat % 16 = 256 * n + b.toNat := by omega
  simp [hexPair, hhigh, hlow, hsum]

theorem hexNumber?_append_hexPair {cs : List Char} {n : Nat} (h : hexNumber? cs = some n)
    (b : UInt8) : hexNumber? (cs ++ hexPair b) = some (256 * n + b.toNat) := by
  unfold hexNumber? at h ⊢
  rw [List.foldlM_append, h]
  exact foldlM_hexValue?_hexPair n b

end DesignComponents
