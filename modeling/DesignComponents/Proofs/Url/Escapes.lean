import DesignComponents.Proofs.Text.Bytes
import DesignComponents.Url.Query

/-!
# What a query makes of a text

A text that is put into a query as it is comes out as itself if it holds no escape and no plus.
An escape is a percent sign before two digits, whoever wrote it; what an address has to escape
comes out as it went in.
-/

namespace DesignComponents.Url

/-! ## Escapes -/

/-- The byte that the text begins with as an escape. -/
def escape? : List Char → Option UInt8
  | '%' :: a :: b :: _ =>
    (hexValue? a).bind fun m => (hexValue? b).map fun n => UInt8.ofNat (16 * m + n)
  | _ => none

def hasEscape : List Char → Bool
  | [] => false
  | c :: cs => (escape? (c :: cs)).isSome || hasEscape cs

def blankForPlus (c : Char) : Char := if c = '+' then ' ' else c

/-- The bytes that a text stands for in a query. -/
def spokenBytes : List Char → List UInt8
  | [] => []
  | c :: cs =>
    match escape? (c :: cs) with
    | some b => b :: spokenBytes (cs.drop 2)
    | none => Utf8.bytes [blankForPlus c] ++ spokenBytes cs
  termination_by cs => cs.length
  decreasing_by
  · rw [List.length_drop, List.length_cons]
    exact Nat.lt_succ_of_le (Nat.sub_le ..)
  · exact Nat.lt_succ_self _

def spoken (cs : List Char) : List Char := Utf8.lenient (spokenBytes cs)

theorem exists_digits_of_escape {c : Char} {cs : List Char} {byte : UInt8}
    (h : escape? (c :: cs) = some byte) : ∃ a b rest m n, c = '%' ∧ cs = a :: b :: rest ∧
      hexValue? a = some m ∧ hexValue? b = some n ∧ byte = UInt8.ofNat (16 * m + n) := by
  unfold escape? at h
  split at h
  · rename_i a b rest heq
    obtain ⟨rfl, rfl⟩ := List.cons.inj heq
    obtain ⟨m, hm, h⟩ := Option.bind_eq_some_iff.mp h
    obtain ⟨n, hn, h⟩ := Option.map_eq_some_iff.mp h
    exact ⟨a, b, rest, m, n, rfl, rfl, hm, hn, h.symm⟩
  · cases h

/-! ## Texts without escapes -/

theorem spokenBytes_of_no_escape {cs : List Char} (h : hasEscape cs = false) :
    spokenBytes cs = Utf8.bytes (cs.map blankForPlus) := by
  induction cs with
  | nil => rw [spokenBytes, List.map_nil, Utf8.bytes, List.flatMap_nil]
  | cons c cs ih =>
    obtain ⟨hnone, hrest⟩ := Bool.or_eq_false_iff.mp h
    have hescape : escape? (c :: cs) = none := by simpa using hnone
    rw [spokenBytes, hescape]
    dsimp only
    rw [ih hrest, ← Utf8.bytes_append, List.singleton_append, List.map_cons]

theorem spoken_of_no_escape {cs : List Char} (h : hasEscape cs = false) :
    spoken cs = cs.map blankForPlus := by
  rw [spoken, spokenBytes_of_no_escape h, Utf8.lenient_bytes]

/-- Nothing becomes longer in a query, and an escape makes it shorter. -/
theorem length_spoken_le (cs : List Char) :
    (spoken cs).length ≤ cs.length ∧ (hasEscape cs = true → (spoken cs).length < cs.length) := by
  rw [spoken, Utf8.lenient, List.length_map]
  induction cs using spokenBytes.induct with
  | case1 =>
    rw [spokenBytes, Utf8.read]
    exact ⟨Nat.le_refl _, fun h => absurd h (by decide)⟩
  | case2 c cs byte hescape ih =>
    obtain ⟨a, b, rest, m, n, rfl, rfl, hm, hn, hbyte⟩ := exists_digits_of_escape hescape
    rw [spokenBytes, hescape]
    have hlength := Utf8.length_read_cons_le byte (spokenBytes ((a :: b :: rest).drop 2))
    have hrest := ih.1
    simp only [List.drop_succ_cons, List.drop_zero, List.length_cons] at *
    omega
  | case3 c cs hescape ih =>
    rw [spokenBytes, hescape]
    dsimp only
    rw [Utf8.read_bytes_append, List.map_singleton, List.singleton_append, List.length_cons,
      List.length_cons, hasEscape, hescape, Option.isSome_none, Bool.false_or]
    exact ⟨Nat.succ_le_succ ih.1, fun h => Nat.succ_lt_succ (ih.2 h)⟩

theorem map_blankForPlus_eq_iff {cs : List Char} : cs.map blankForPlus = cs ↔ '+' ∉ cs := by
  have hid : cs.map blankForPlus = cs ↔ cs.map blankForPlus = cs.map id := by rw [List.map_id]
  rw [hid, List.map_inj_left]
  constructor
  · exact fun h hplus => absurd (h '+' hplus) (by decide)
  · intro h c hc
    have hne : c ≠ '+' := fun heq => h (heq ▸ hc)
    exact if_neg hne

theorem spoken_eq_iff {cs : List Char} : spoken cs = cs ↔ hasEscape cs = false ∧ '+' ∉ cs := by
  cases hescape : hasEscape cs with
  | true =>
    refine ⟨fun h => ?_, fun h => absurd h.1 (by decide)⟩
    have hlength := (length_spoken_le cs).2 hescape
    rw [h] at hlength
    exact absurd hlength (Nat.lt_irrefl _)
  | false =>
    rw [spoken_of_no_escape hescape, map_blankForPlus_eq_iff]
    exact ⟨fun h => ⟨rfl, h⟩, fun h => h.2⟩

/-! ## What the decoder sees -/

theorem utf8EncodeChar_of_le {c : Char} (h : c.toNat ≤ 0x7F) :
    String.utf8EncodeChar c = [UInt8.ofNat c.toNat] := by
  unfold String.utf8EncodeChar
  exact if_pos h

theorem le_of_mem_utf8EncodeChar {c : Char} (h : 0x7F < c.toNat) {b : UInt8}
    (hb : b ∈ String.utf8EncodeChar c) : 0x80 ≤ b.toNat := by
  have hbound : ∀ n, 0x80 ≤ n → n < 256 → 0x80 ≤ (UInt8.ofNat n).toNat := fun n hle hlt =>
    (Utf8.toNat_ofNat hlt).symm ▸ hle
  have hnot : ¬c.val.toNat ≤ 0x7F := Nat.not_le_of_lt h
  unfold String.utf8EncodeChar at hb
  dsimp only at hb
  rw [if_neg hnot] at hb
  repeat' split at hb
  all_goals
    simp only [List.mem_cons, List.not_mem_nil, or_false] at hb
    rcases hb with rfl | rfl | rfl | rfl <;> exact hbound _ (by omega) (by omega)

/-! ### Bytes behind a percent sign -/

theorem percentDecode_cons {b : UInt8} (h : b ≠ 0x25) (bs : List UInt8) :
    percentDecode (b :: bs) = b :: percentDecode bs := by
  rw [percentDecode.eq_2]
  exact fun _ _ _ heq => absurd heq h

theorem percentDecode_append {bs : List UInt8} (h : ∀ b ∈ bs, b ≠ 0x25) (more : List UInt8) :
    percentDecode (bs ++ more) = bs ++ percentDecode more := by
  induction bs with
  | nil => rfl
  | cons b bs ih =>
    obtain ⟨hb, hbs⟩ := List.forall_mem_cons.mp h
    rw [List.cons_append, percentDecode_cons hb, ih hbs, List.cons_append]

theorem percentDecode_escape {a b : UInt8} {m n : Nat} (ha : digitOf? a = some m)
    (hb : digitOf? b = some n) (bs : List UInt8) :
    percentDecode (0x25 :: a :: b :: bs) = UInt8.ofNat (16 * m + n) :: percentDecode bs := by
  rw [percentDecode, ha, hb]

def beginWithDigits : List UInt8 → Bool
  | a :: b :: _ => (digitOf? a).isSome && (digitOf? b).isSome
  | _ => false

theorem percentDecode_sign {bs : List UInt8} (h : beginWithDigits bs = false) :
    percentDecode (0x25 :: bs) = 0x25 :: percentDecode bs := by
  cases bs with
  | nil =>
    rw [percentDecode.eq_2]
    rintro _ _ _ _ ⟨⟩
  | cons a bs =>
    cases bs with
    | nil =>
      rw [percentDecode.eq_2]
      rintro _ _ _ _ ⟨⟩
    | cons b rest =>
      rw [beginWithDigits] at h
      rw [percentDecode]
      cases ha : digitOf? a with
      | none => rfl
      | some m =>
        cases hb : digitOf? b with
        | none => rfl
        | some n =>
          rw [ha, hb] at h
          cases h

/-! ### Characters that are escaped or not -/

/-- The bytes that the decoder sees of a character once an address has escaped it. -/
def seen (outside : Char → Bool) (c : Char) : List UInt8 :=
  Utf8.bytes ((percentEncode outside [c]).map blankForPlus)

theorem bytes_percentEncode (outside : Char → Bool) (cs : List Char) :
    Utf8.bytes ((percentEncode outside cs).map blankForPlus) = cs.flatMap (seen outside) := by
  induction cs with
  | nil => rfl
  | cons c cs ih =>
    have happend : percentEncode outside (c :: cs) =
        percentEncode outside [c] ++ percentEncode outside cs := by
      rw [percentEncode, percentEncode, percentEncode, List.flatMap_cons, List.flatMap_singleton]
    rw [happend, List.map_append, Utf8.bytes_append, ih, List.flatMap_cons, seen]

/-- Digits and the marks that mean something in a query. -/
def isSpared (c : Char) : Bool := (hexValue? c).isSome || ['%', '+', '&', '='].contains c

/-- What means something in a query is never escaped. -/
def Spares (outside : Char → Bool) : Prop := ∀ c, isSpared c = true → outside c = false

variable {outside : Char → Bool}

theorem seen_of_inside {c : Char} (h : outside c = false) :
    seen outside c = String.utf8EncodeChar (blankForPlus c) := by
  rw [seen, percentEncode, List.flatMap_singleton, h]
  exact List.flatMap_singleton ..

theorem seen_sign (houtside : Spares outside) : seen outside '%' = [0x25] := by
  rw [seen_of_inside (houtside '%' (by decide))]
  decide

theorem digitOf?_hexDigit : ∀ n < 16,
    String.utf8EncodeChar (blankForPlus (hexDigit n).toUpper) =
        [UInt8.ofNat (hexDigit n).toUpper.toNat] ∧
      digitOf? (UInt8.ofNat (hexDigit n).toUpper.toNat) = some n := by
  decide

theorem percentDecode_percentByte (b : UInt8) (bs : List UInt8) :
    percentDecode (Utf8.bytes ((percentByte b).map blankForPlus) ++ bs) =
      b :: percentDecode bs := by
  have hb : b.toNat < 256 := UInt8.toNat_lt b
  obtain ⟨hhigh, hm⟩ := digitOf?_hexDigit (b.toNat / 16) (by omega)
  obtain ⟨hlow, hn⟩ := digitOf?_hexDigit (b.toNat % 16) (by omega)
  have hbytes : Utf8.bytes ((percentByte b).map blankForPlus) =
      [0x25, UInt8.ofNat (hexDigit (b.toNat / 16)).toUpper.toNat,
        UInt8.ofNat (hexDigit (b.toNat % 16)).toUpper.toNat] := by
    rw [percentByte, hexPair, Utf8.bytes]
    simp only [List.map_cons, List.map_nil, List.flatMap_cons, List.flatMap_nil, hhigh, hlow]
    rfl
  have hsum : 16 * (b.toNat / 16) + b.toNat % 16 = b.toNat := Nat.div_add_mod ..
  rw [hbytes, List.cons_append, List.cons_append, List.singleton_append,
    percentDecode_escape hm hn, hsum, UInt8.ofNat_toNat]

theorem percentDecode_flatMap_percentByte (bytes bs : List UInt8) :
    percentDecode (Utf8.bytes ((bytes.flatMap percentByte).map blankForPlus) ++ bs) =
      bytes ++ percentDecode bs := by
  induction bytes with
  | nil => rfl
  | cons b bytes ih =>
    rw [List.flatMap_cons, List.map_append, Utf8.bytes_append, List.append_assoc]
    exact (percentDecode_percentByte b _).trans (congrArg (b :: ·) ih)

theorem ne_sign_of_mem {c : Char} (h : c ≠ '%') : ∀ b ∈ String.utf8EncodeChar c, b ≠ 0x25 := by
  intro b hb heq
  rcases Nat.lt_or_ge 0x7F c.toNat with hlt | hle
  · have hbyte := le_of_mem_utf8EncodeChar hlt hb
    rw [heq] at hbyte
    exact absurd hbyte (by decide)
  · rw [utf8EncodeChar_of_le hle, List.mem_singleton] at hb
    have hcode : c.toNat = 0x25 := by
      rw [← Utf8.toNat_ofNat (show c.toNat < 256 by omega), ← hb, heq]
      rfl
    exact h (Char.toNat_inj.mp hcode)

/-- But for percent signs, a character is decoded to what it stands for, escaped or not. -/
theorem percentDecode_seen (houtside : Spares outside) {c : Char} (hc : c ≠ '%')
    (bs : List UInt8) : percentDecode (seen outside c ++ bs) =
      Utf8.bytes [blankForPlus c] ++ percentDecode bs := by
  rw [Utf8.bytes_singleton]
  cases hout : outside c with
  | true =>
    have hplain : blankForPlus c = c := if_neg fun heq => by
      rw [heq, houtside '+' (by decide)] at hout
      cases hout
    rw [seen, percentEncode, List.flatMap_singleton, hout, if_pos rfl,
      percentDecode_flatMap_percentByte, hplain, Utf8.bytes_singleton]
  | false =>
    have hplain : blankForPlus c ≠ '%' := by
      unfold blankForPlus
      split
      · decide
      · exact hc
    rw [seen_of_inside hout, percentDecode_append (ne_sign_of_mem hplain)]

theorem digitOf?_ofNat {c : Char} (h : c.toNat ≤ 0x7F) :
    digitOf? (UInt8.ofNat c.toNat) = hexValue? c := by
  rw [digitOf?, Utf8.toNat_ofNat (by omega), Char.ofNat_toNat]

theorem hexValue?_eq_none {c : Char} (h : 'f'.toNat < c.toNat) : hexValue? c = none := by
  have hnot : ∀ d : Char, d.toNat ≤ 'f'.toNat → ¬c ≤ d := fun d hd hle =>
    absurd (Nat.le_trans (Char.le_def.mp hle) hd) (Nat.not_le_of_lt h)
  rw [hexValue?, if_neg fun hc => hnot '9' (by decide) hc.2,
    if_neg fun hc => hnot 'f' (by decide) hc.2, if_neg fun hc => hnot 'F' (by decide) hc.2]

theorem digitOf?_eq_none {b : UInt8} (h : 0x80 ≤ b.toNat) : digitOf? b = none := by
  have hall : ∀ n < 256, 0x80 ≤ n → hexValue? (Char.ofNat n) = none := by decide +kernel
  exact hall b.toNat (UInt8.toNat_lt b) h

theorem le_of_hexValue? {c : Char} (h : (hexValue? c).isSome = true) : c.toNat ≤ 0x7F := by
  by_cases hle : c.toNat ≤ 0x7F
  · exact hle
  · rw [hexValue?_eq_none (Nat.lt_trans (by decide) (Nat.lt_of_not_le hle))] at h
    cases h

theorem seen_digit (houtside : Spares outside) {c : Char} {m : Nat} (hc : hexValue? c = some m) :
    seen outside c = [UInt8.ofNat c.toNat] ∧ digitOf? (UInt8.ofNat c.toNat) = some m := by
  have hsome : (hexValue? c).isSome = true := Option.isSome_of_eq_some hc
  have hinside : outside c = false := houtside c (by rw [isSpared, hsome]; rfl)
  have hplain : blankForPlus c = c := if_neg fun heq => by
    rw [heq] at hc
    cases hc
  have hle := le_of_hexValue? hsome
  rw [seen_of_inside hinside, hplain, utf8EncodeChar_of_le hle, digitOf?_ofNat hle]
  exact ⟨rfl, hc⟩

/-- What is no digit does not become one. -/
theorem exists_seen (outside : Char → Bool) {c : Char} (hc : hexValue? c = none) :
    ∃ b bs, seen outside c = b :: bs ∧ digitOf? b = none := by
  cases hout : outside c with
  | true =>
    obtain ⟨b, bs, hbytes⟩ := List.exists_cons_of_ne_nil (String.utf8EncodeChar_ne_nil (c := c))
    rw [seen, percentEncode, List.flatMap_singleton, hout, if_pos rfl, Utf8.bytes_singleton, hbytes]
    exact ⟨0x25, _, rfl, by decide⟩
  | false =>
    rw [seen_of_inside hout]
    by_cases hplus : c = '+'
    · rw [hplus]
      exact ⟨0x20, [], rfl, by decide⟩
    have hplain : blankForPlus c = c := if_neg hplus
    rw [hplain]
    rcases Nat.lt_or_ge 0x7F c.toNat with hlt | hle
    · obtain ⟨b, bs, hbytes⟩ :=
        List.exists_cons_of_ne_nil (String.utf8EncodeChar_ne_nil (c := c))
      have hmem : b ∈ String.utf8EncodeChar c := hbytes ▸ List.mem_cons_self
      exact ⟨b, bs, hbytes, digitOf?_eq_none (le_of_mem_utf8EncodeChar hlt hmem)⟩
    · exact ⟨_, [], utf8EncodeChar_of_le hle, (digitOf?_ofNat hle).trans hc⟩

theorem beginWithDigits_cons {b : UInt8} (h : digitOf? b = none) (bs : List UInt8) :
    beginWithDigits (b :: bs) = false := by
  cases bs with
  | nil => rfl
  | cons b' bs => rw [beginWithDigits, h, Option.isSome_none, Bool.false_and]

theorem beginWithDigits_of_no_escape (houtside : Spares outside) {cs : List Char}
    (h : escape? ('%' :: cs) = none) : beginWithDigits (cs.flatMap (seen outside)) = false := by
  cases cs with
  | nil => rfl
  | cons a cs =>
    rw [List.flatMap_cons]
    cases ha : hexValue? a with
    | none =>
      obtain ⟨byte, bs, hseen, hnone⟩ := exists_seen outside ha
      rw [hseen, List.cons_append]
      exact beginWithDigits_cons hnone _
    | some m =>
      rw [(seen_digit houtside ha).1, List.singleton_append]
      cases cs with
      | nil => rfl
      | cons b cs =>
        have hb : hexValue? b = none := by
          rw [escape?, ha, Option.bind_some, Option.map_eq_none_iff] at h
          exact h
        obtain ⟨byte, bs, hseen, hnone⟩ := exists_seen outside hb
        rw [List.flatMap_cons, hseen, List.cons_append, beginWithDigits, hnone,
          Option.isSome_none, Bool.and_false]

/-- What an address puts into its query is decoded to the text that it stands for. -/
theorem percentDecode_flatMap_seen (houtside : Spares outside) (cs : List Char) :
    percentDecode (cs.flatMap (seen outside)) = spokenBytes cs := by
  induction cs using spokenBytes.induct with
  | case1 => rw [spokenBytes, List.flatMap_nil, percentDecode]
  | case2 c cs byte hescape ih =>
    obtain ⟨a, b, rest, m, n, rfl, rfl, hm, hn, rfl⟩ := exists_digits_of_escape hescape
    rw [spokenBytes, hescape]
    obtain ⟨ha, ham⟩ := seen_digit houtside hm
    obtain ⟨hb, hbn⟩ := seen_digit houtside hn
    rw [List.flatMap_cons, List.flatMap_cons, List.flatMap_cons, seen_sign houtside, ha, hb]
    exact (percentDecode_escape ham hbn _).trans (congrArg _ ih)
  | case3 c cs hescape ih =>
    rw [spokenBytes, hescape, List.flatMap_cons]
    dsimp only
    rw [← ih]
    by_cases hc : c = '%'
    · rw [hc] at hescape ⊢
      rw [seen_sign houtside, List.singleton_append,
        percentDecode_sign (beginWithDigits_of_no_escape houtside hescape)]
      rfl
    · exact percentDecode_seen houtside hc _

theorem decodePart_percentEncode (houtside : Spares outside) (cs : List Char) :
    decodePart (percentEncode outside cs) = spoken cs := by
  change Utf8.lenient (percentDecode (Utf8.bytes ((percentEncode outside cs).map blankForPlus))) = _
  rw [bytes_percentEncode, percentDecode_flatMap_seen houtside, spoken]

theorem spares_of_forall (h : ∀ n < 0x80, isSpared (Char.ofNat n) = true →
    outside (Char.ofNat n) = false) : Spares outside := by
  intro c hc
  have hle : c.toNat ≤ 0x7F := by
    rw [isSpared, Bool.or_eq_true] at hc
    rcases hc with hdigit | hmark
    · exact le_of_hexValue? hdigit
    · have hall : ['%', '+', '&', '='].all (·.toNat ≤ 0x7F) = true := by decide
      exact of_decide_eq_true (List.all_eq_true.mp hall c (List.contains_iff_mem.mp hmark))
  exact char_of_forall_lt (P := fun c => isSpared c = true → outside c = false) h
    (Nat.lt_succ_of_le hle) hc

theorem outsideQuery_spares : Spares outsideQuery := spares_of_forall (by decide +kernel)

theorem outsideWebQuery_spares : Spares outsideWebQuery := spares_of_forall (by decide +kernel)

end DesignComponents.Url
