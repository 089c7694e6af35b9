/-!
# Bytes of text

Texts as UTF-8, and back. Bytes that are no UTF-8 read as replacement characters, one for each
longest part that could have begun a character.
-/

namespace DesignComponents.Utf8

def bytes (cs : List Char) : List UInt8 := cs.flatMap String.utf8EncodeChar

/-- What a leading byte announces: how many bytes follow, between which bounds the first of them
lies, and the bits that the byte itself gives. -/
structure Lead where
  count : Nat
  low : Nat
  high : Nat
  bits : Nat

def lead? (b : Nat) : Option Lead :=
  if b < 0x80 then some ⟨0, 0, 0, b⟩
  else if b < 0xC2 then none
  else if b < 0xE0 then some ⟨1, 0x80, 0xBF, b - 0xC0⟩
  else if b = 0xE0 then some ⟨2, 0xA0, 0xBF, 0⟩
  else if b = 0xED then some ⟨2, 0x80, 0x9F, 0xD⟩
  else if b < 0xF0 then some ⟨2, 0x80, 0xBF, b - 0xE0⟩
  else if b = 0xF0 then some ⟨3, 0x90, 0xBF, 0⟩
  else if b < 0xF4 then some ⟨3, 0x80, 0xBF, b - 0xF0⟩
  else if b = 0xF4 then some ⟨3, 0x80, 0x8F, 4⟩
  else none

/-- Reads `count` more bytes of a character; at a byte that does not fit it stops before it. -/
def readTrail (code : Nat) : (count low high : Nat) → List UInt8 → Option Char × List UInt8
  | 0, _, _, bs => (some (Char.ofNat code), bs)
  | _ + 1, _, _, [] => (none, [])
  | count + 1, low, high, b :: bs =>
    if low ≤ b.toNat ∧ b.toNat ≤ high then
      readTrail (64 * code + b.toNat % 64) count 0x80 0xBF bs
    else (none, b :: bs)

theorem length_readTrail (code count low high : Nat) (bs : List UInt8) :
    (readTrail code count low high bs).2.length ≤ bs.length := by
  induction bs generalizing code count low high with
  | nil => cases count <;> simp [readTrail]
  | cons b bs ih =>
    cases count with
    | zero => simp [readTrail]
    | succ count =>
      unfold readTrail
      split
      · exact Nat.le_succ_of_le (ih ..)
      · simp

def read : List UInt8 → List (Option Char)
  | [] => []
  | b :: bs =>
    match lead? b.toNat with
    | none => none :: read bs
    | some l =>
      let step := readTrail l.bits l.count l.low l.high bs
      step.1 :: read step.2
  termination_by bs => bs.length
  decreasing_by
  · simp
  · exact Nat.lt_succ_of_le (length_readTrail ..)

def replacement : Char := Char.ofNat 0xFFFD

def lenient (bs : List UInt8) : List Char := (read bs).map (·.getD replacement)

def strict? (bs : List UInt8) : Option (List Char) := (read bs).mapM id

end DesignComponents.Utf8
