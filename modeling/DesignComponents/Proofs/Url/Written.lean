import DesignComponents.Proofs.Url.Carrying

/-!
# Values that are escaped

Whoever writes a value into an address may escape what characters they like, as long as those are
among them that would end the value, be dropped from it or be decoded. The value is then read as it
was, whatever else stands in the query.
-/

namespace DesignComponents.Url

/-- Characters that do not come out of a query as they were put in. -/
def isTouchy (c : Char) : Bool := ['%', '&', '#', '+'].contains c || isEndBlank c

/-- At least what must be escaped is. -/
def Protects (outside : Char → Bool) : Prop := ∀ c, isTouchy c = true → outside c = true

theorem protects_isTouchy : Protects isTouchy := fun _ hc => hc

variable {outside : Char → Bool} (houtside : Protects outside)

/-! ## Escapes are decoded -/

theorem hexValue?_upperHexDigit : ∀ n < 16, hexValue? (hexDigit n).toUpper = some n := by decide

theorem escape?_percentByte (b : UInt8) (rest : List Char) :
    escape? (percentByte b ++ rest) = some b := by
  have hb : b.toNat < 256 := UInt8.toNat_lt b
  have hhigh := hexValue?_upperHexDigit (b.toNat / 16) (by omega)
  have hlow := hexValue?_upperHexDigit (b.toNat % 16) (by omega)
  have hsum : 16 * (b.toNat / 16) + b.toNat % 16 = b.toNat := Nat.div_add_mod ..
  rw [percentByte, hexPair, List.map_cons, List.map_singleton, List.cons_append, List.cons_append,
    List.singleton_append, escape?, hhigh, hlow, Option.bind_some, Option.map_some, hsum,
    UInt8.ofNat_toNat]

theorem spokenBytes_percentBytes (bytes : List UInt8) (rest : List Char) :
    spokenBytes (bytes.flatMap percentByte ++ rest) = bytes ++ spokenBytes rest := by
  induction bytes with
  | nil => rfl
  | cons b bytes ih =>
    have hescape := escape?_percentByte b (bytes.flatMap percentByte ++ rest)
    rw [List.flatMap_cons, List.append_assoc, percentByte, hexPair, List.map_cons,
      List.map_singleton, List.cons_append] at *
    rw [spokenBytes, hescape]
    exact congrArg (b :: ·) ih

theorem escape?_of_ne {c : Char} (hc : c ≠ '%') (cs : List Char) : escape? (c :: cs) = none := by
  cases hescape : escape? (c :: cs) with
  | none => rfl
  | some b =>
    obtain ⟨_, _, _, _, _, hsign, _⟩ := exists_digits_of_escape hescape
    exact absurd hsign hc

section Protected

include houtside

theorem not_isTouchy_of_inside {c : Char} (hc : outside c = false) : isTouchy c = false := by
  cases htouchy : isTouchy c with
  | false => rfl
  | true =>
    rw [houtside c htouchy] at hc
    cases hc

theorem spokenBytes_percentEncode (cs : List Char) :
    spokenBytes (percentEncode outside cs) = Utf8.bytes cs := by
  induction cs with
  | nil => rw [percentEncode, List.flatMap_nil, spokenBytes, Utf8.bytes, List.flatMap_nil]
  | cons c cs ih =>
    have hbytes : Utf8.bytes (c :: cs) = Utf8.bytes [c] ++ Utf8.bytes cs :=
      Utf8.bytes_append [c] cs
    rw [percentEncode_cons, percentEncode, List.flatMap_singleton, hbytes, ← ih]
    cases hout : outside c with
    | true => exact spokenBytes_percentBytes (Utf8.bytes [c]) _
    | false =>
      have htouchy := not_isTouchy_of_inside houtside hout
      have hne : ∀ d, isTouchy d = true → c ≠ d := by
        rintro d hd rfl
        exact Bool.noConfusion (htouchy.symm.trans hd)
      have hblank : blankForPlus c = c := if_neg (hne '+' (by decide))
      rw [if_neg Bool.false_ne_true, List.singleton_append, spokenBytes,
        escape?_of_ne (hne '%' (by decide)), hblank]

theorem spoken_percentEncode (cs : List Char) : spoken (percentEncode outside cs) = cs := by
  rw [spoken, spokenBytes_percentEncode houtside, Utf8.lenient_bytes]

end Protected

/-! ## Escapes are kept -/

/-- What holds of the characters of escapes and of all that are not escaped holds of the whole. -/
theorem forall_mem_percentEncode {P : Char → Prop} (hsign : P '%')
    (hdigit : ∀ n < 16, P (hexDigit n).toUpper) {cs : List Char}
    (hinside : ∀ c ∈ cs, outside c = false → P c) : ∀ d ∈ percentEncode outside cs, P d := by
  intro d hd
  obtain ⟨c, hc, hd⟩ := List.mem_flatMap.mp hd
  split at hd
  · obtain ⟨b, _, hb⟩ := List.mem_flatMap.mp hd
    have hbyte : b.toNat < 256 := UInt8.toNat_lt b
    rw [percentByte, hexPair, List.map_cons, List.map_singleton] at hb
    simp only [List.mem_cons, List.not_mem_nil, or_false] at hb
    rcases hb with rfl | rfl | rfl
    · exact hsign
    · exact hdigit (b.toNat / 16) (by omega)
    · exact hdigit (b.toNat % 16) (by omega)
  · rename_i hout
    rw [List.mem_singleton.mp hd]
    exact hinside c hc (Bool.eq_false_iff.mpr hout)

/-- No escape brings in what would end a value or be dropped from it. -/
theorem kept_percentEncode (houtside : Protects outside) (cs : List Char) :
    ∀ d ∈ percentEncode outside cs, d ≠ '&' ∧ d ≠ '#' ∧ isEndBlank d = false := by
  refine forall_mem_percentEncode (by decide) (by decide) fun c _ hout => ?_
  have htouchy := not_isTouchy_of_inside houtside hout
  rw [isTouchy, Bool.or_eq_false_iff] at htouchy
  have hmarks := htouchy.1
  simp only [List.contains_eq_mem, decide_eq_false_iff_not, List.mem_cons, List.not_mem_nil,
    or_false, not_or] at hmarks
  exact ⟨hmarks.2.1, hmarks.2.2.1, htouchy.2⟩

theorem all_getLast?_append {p : Char → Bool} {ds : List Char} (hne : ds ≠ [])
    (h : ds.getLast?.all p = true) (cs : List Char) : (cs ++ ds).getLast?.all p = true := by
  rw [List.getLast?_append]
  cases hlast : ds.getLast? with
  | none => exact absurd (List.getLast?_eq_none_iff.mp hlast) hne
  | some d =>
    rw [hlast] at h
    exact h

theorem all_getLast?_of_forall {p : Char → Bool} {cs : List Char} (h : ∀ c ∈ cs, p c = true) :
    cs.getLast?.all p = true := by
  cases hlast : cs.getLast? with
  | none => rfl
  | some c => exact h c (List.mem_of_getLast? hlast)

/-- A value that does not end in a blank does not do so when it is escaped. -/
theorem last_percentEncode {cs : List Char} (h : cs.getLast?.all (!isBlank ·) = true) :
    (percentEncode outside cs).getLast?.all (!isBlank ·) = true := by
  rcases List.eq_nil_or_concat cs with rfl | ⟨front, c, rfl⟩
  · rfl
  · have hc : (!isBlank c) = true := by simpa using h
    have hne : percentEncode outside [c] ≠ [] := mt percentEncode_eq_nil_iff.mp (by simp)
    have hall : ∀ d ∈ percentEncode outside [c], (!isBlank d) = true := by
      refine forall_mem_percentEncode (by decide) (by decide) fun d hd _ => ?_
      rw [List.mem_singleton.mp hd]
      exact hc
    rw [List.concat_eq_append, percentEncode_append]
    exact all_getLast?_append hne (all_getLast?_of_forall hall) _

theorem percentEncode_of_inside {cs : List Char} (h : ∀ c ∈ cs, outside c = false) :
    percentEncode outside cs = cs := by
  induction cs with
  | nil => rfl
  | cons c cs ih =>
    obtain ⟨hc, hcs⟩ := List.forall_mem_cons.mp h
    rw [percentEncode_cons, ih hcs, percentEncode, List.flatMap_singleton, hc]
    rfl

/-- The pairs of a query in which nothing is escaped yet. -/
theorem queryPairs_ofList (cs : List Char) : queryPairs (String.ofList cs) = spokenPairs cs := by
  have hinside : percentEncode (fun _ => false) cs = cs := percentEncode_of_inside fun _ _ => rfl
  have hspares : Spares fun _ => false := fun _ _ => rfl
  have hpairs := queryPairs_percentEncode hspares cs
  rwa [hinside] at hpairs

/-! ## What is trimmed -/

theorem dropEnd_append {p : Char → Bool} {cs : List Char} (h : cs.getLast?.all (!p ·) = true)
    (ds : List Char) : dropEnd p (cs ++ ds) = cs ++ dropEnd p ds := by
  rcases List.eq_nil_or_concat cs with rfl | ⟨front, c, rfl⟩
  · rfl
  · have hc : p c = false := by simpa using h
    rw [List.concat_eq_append, List.append_assoc, List.append_assoc]
    exact dropEnd_append_cons hc front ds

/-- Only what stands behind a text that neither begins nor ends in a blank is trimmed. -/
theorem trimBlanks_append {cs : List Char} (hne : cs ≠ [])
    (hfirst : cs.head?.all (!isBlank ·) = true) (hlast : cs.getLast?.all (!isBlank ·) = true)
    (ds : List Char) : trimBlanks (cs ++ ds) = cs ++ dropEnd isBlank ds := by
  cases cs with
  | nil => exact absurd rfl hne
  | cons c cs =>
    have hc : ¬isBlank c = true := by simpa using hfirst
    have hdrop : (c :: cs ++ ds).dropWhile isBlank = c :: cs ++ ds :=
      List.dropWhile_cons_of_neg hc
    rw [trimBlanks, trimEnds, hdrop]
    exact dropEnd_append hlast ds

/-- What a query has behind a text that is kept is as it would be alone. -/
theorem sentQuery_append {cs : List Char} (hsign : '#' ∉ cs)
    (hlast : cs.getLast?.all (!isEndBlank ·) = true) (ds : List Char) :
    sentQuery (cs ++ ds) = sentValue false cs ++ sentQuery ds := by
  have hkept : ∀ c ∈ cs.filter (!isTabOrBreak ·), decide (c ≠ '#') = true := by
    intro c hc
    refine decide_eq_true ?_
    rintro rfl
    exact hsign (List.mem_filter.mp hc).1
  rw [sentQuery, dropEnd_append hlast, List.filter_append, List.takeWhile_append_of_pos hkept]
  rfl

theorem sentQuery_append_of_kept {cs : List Char} (h : ∀ c ∈ cs, c ≠ '#' ∧ isEndBlank c = false)
    (ds : List Char) : sentQuery (cs ++ ds) = cs ++ sentQuery ds := by
  have hsign : '#' ∉ cs := fun hmem => (h _ hmem).1 rfl
  have hlast : cs.getLast?.all (!isEndBlank ·) = true :=
    all_getLast?_of_forall fun c hc => by rw [(h c hc).2, Bool.not_false]
  have hsent : sentValue false cs = cs := by
    refine List.filter_eq_self.mpr fun c hc => ?_
    rw [Bool.not_eq_true', Bool.eq_false_iff]
    intro htab
    have hblank := isEndBlank_of_isTabOrBreak htab
    rw [(h c hc).2] at hblank
    cases hblank
  rw [sentQuery_append hsign hlast, hsent]

end DesignComponents.Url
