import DesignComponents.Proofs.Url.Escapes
import DesignComponents.Proofs.Url.Queries

/-!
# Pairs of a query

The pairs that are decoded from the query of an address are those of its text: between
ampersands, each name and value as the text that it stands for. The text that counts is without
the blanks and controls at its end, without tabs and line breaks, and ends before a number sign.
-/

namespace DesignComponents.Url

variable {outside : Char → Bool}

/-! ## Parting and escaping -/

/-- The marks at which an address is parted, which no escape holds. -/
def isMark (c : Char) : Bool := ['&', '=', '?', '#'].contains c

theorem not_mem_percentByte {m : Char} (hm : isMark m = true) (b : UInt8) :
    m ∉ percentByte b := by
  have hne : ∀ d, isMark d = false → m ≠ d := by
    rintro d hd rfl
    exact Bool.noConfusion (hd.symm.trans hm)
  have hdigits : ∀ n < 16, isMark (hexDigit n).toUpper = false := by decide
  have hb : b.toNat < 256 := UInt8.toNat_lt b
  have hhigh := hne _ (hdigits (b.toNat / 16) (by omega))
  have hlow := hne _ (hdigits (b.toNat % 16) (by omega))
  rw [percentByte, hexPair, List.map_cons, List.map_singleton]
  simp [hne '%' (by decide), hhigh, hlow]

theorem percentEncode_append (cs ds : List Char) :
    percentEncode outside (cs ++ ds) = percentEncode outside cs ++ percentEncode outside ds :=
  List.flatMap_append

theorem percentEncode_cons (c : Char) (cs : List Char) :
    percentEncode outside (c :: cs) = percentEncode outside [c] ++ percentEncode outside cs :=
  percentEncode_append [c] cs

theorem percentEncode_mark (houtside : Spares outside) {m : Char} (hm : isSpared m = true) :
    percentEncode outside [m] = [m] := by
  rw [percentEncode, List.flatMap_singleton, houtside m hm]
  rfl

theorem ne_of_mem_percentEncode {m c : Char} (hm : isMark m = true) (hc : c ≠ m) :
    ∀ d ∈ percentEncode outside [c], d ≠ m := by
  intro d hd
  rw [percentEncode, List.flatMap_singleton] at hd
  split at hd
  · obtain ⟨b, _, hb⟩ := List.mem_flatMap.mp hd
    exact fun heq => not_mem_percentByte hm b (heq ▸ hb)
  · rw [List.mem_singleton.mp hd]
    exact hc

theorem splitBy_percentEncode (houtside : Spares outside) (cs : List Char) :
    splitBy (· == '&') (percentEncode outside cs) =
      (splitBy (· == '&') cs).map (percentEncode outside) := by
  induction cs with
  | nil => rfl
  | cons c cs ih =>
    rw [percentEncode_cons, splitBy]
    by_cases hc : c = '&'
    · rw [hc, percentEncode_mark houtside (by decide), List.singleton_append, splitBy, ih]
      rfl
    · obtain ⟨part, parts, hparts⟩ := List.exists_cons_of_ne_nil (splitBy_ne_nil (· == '&') cs)
      have hne : ∀ d ∈ percentEncode outside [c], (d == '&') = false := fun d hd =>
        beq_eq_false_iff_ne.mpr (ne_of_mem_percentEncode (by decide) hc d hd)
      rw [hparts, List.map_cons] at ih
      rw [splitBy_append_of_forall hne ih, if_neg (by simpa using hc), hparts, extendFirst,
        List.map_cons, ← percentEncode_append, List.singleton_append]

theorem takeWhile_percentEncode (houtside : Spares outside) (cs : List Char) :
    (percentEncode outside cs).takeWhile (· ≠ '=') =
        percentEncode outside (cs.takeWhile (· ≠ '=')) ∧
      (percentEncode outside cs).dropWhile (· ≠ '=') =
        percentEncode outside (cs.dropWhile (· ≠ '=')) := by
  induction cs with
  | nil => exact ⟨rfl, rfl⟩
  | cons c cs ih =>
    rw [percentEncode_cons]
    by_cases hc : c = '='
    · rw [hc, percentEncode_mark houtside (by decide), List.takeWhile_cons_of_neg (by decide),
        List.dropWhile_cons_of_neg (by decide), percentEncode_cons,
        percentEncode_mark houtside (by decide)]
      exact ⟨rfl, rfl⟩
    · have hne : ∀ d ∈ percentEncode outside [c], (decide (d ≠ '=')) = true := fun d hd =>
        decide_eq_true (ne_of_mem_percentEncode (by decide) hc d hd)
      rw [List.takeWhile_append_of_pos hne, List.dropWhile_append_of_pos hne, ih.1, ih.2,
        List.takeWhile_cons_of_pos (p := (· ≠ '=')) (decide_eq_true hc),
        List.dropWhile_cons_of_pos (p := (· ≠ '=')) (decide_eq_true hc)]
      exact ⟨(percentEncode_cons c _).symm, rfl⟩

theorem percentEncode_eq_nil_iff {cs : List Char} : percentEncode outside cs = [] ↔ cs = [] := by
  cases cs with
  | nil => exact ⟨fun _ => rfl, fun _ => rfl⟩
  | cons c cs =>
    refine ⟨fun h => ?_, fun h => nomatch h⟩
    rw [percentEncode_cons, List.append_eq_nil_iff, percentEncode, List.flatMap_singleton] at h
    split at h
    · obtain ⟨b, bs, hbytes⟩ := List.exists_cons_of_ne_nil (String.utf8EncodeChar_ne_nil (c := c))
      rw [Utf8.bytes_singleton, hbytes] at h
      cases h.1
    · cases h.1

/-! ## Pairs -/

/-- The pair that a text stands for in a query. -/
def spokenPair (cs : List Char) : String × String :=
  (String.ofList (spoken (cs.takeWhile (· ≠ '='))),
    String.ofList (spoken ((cs.dropWhile (· ≠ '=')).drop 1)))

theorem decodePair_percentEncode (houtside : Spares outside) (cs : List Char) :
    decodePair (percentEncode outside cs) = spokenPair cs := by
  obtain ⟨htake, hdrop⟩ := takeWhile_percentEncode houtside cs
  have hvalue : (percentEncode outside (cs.dropWhile (· ≠ '='))).drop 1 =
      percentEncode outside ((cs.dropWhile (· ≠ '=')).drop 1) := by
    cases h : cs.dropWhile (· ≠ '=') with
    | nil => rfl
    | cons c rest =>
      have hc : c = '=' := by
        have hhead := List.head?_dropWhile_not (· ≠ '=') cs
        rw [h] at hhead
        simpa using hhead
      rw [hc, percentEncode_cons, percentEncode_mark houtside (by decide)]
      rfl
  rw [decodePair, htake, hdrop, hvalue, decodePart_percentEncode houtside,
    decodePart_percentEncode houtside, spokenPair]

/-- What an address escapes in its query is not to be seen in the pairs. -/
theorem queryPairs_percentEncode (houtside : Spares outside) (cs : List Char) :
    queryPairs (String.ofList (percentEncode outside cs)) =
      ((splitBy (· == '&') cs).filter (· ≠ [])).map spokenPair := by
  rw [queryPairs, String.toList_ofList, splitBy_percentEncode houtside, List.filter_map,
    List.map_map]
  have hfilter : ((fun part => decide (part ≠ [])) ∘ percentEncode outside) =
      fun part => decide (part ≠ []) :=
    funext fun part => by simp [percentEncode_eq_nil_iff]
  rw [hfilter]
  exact List.map_congr_left fun part _ => decodePair_percentEncode houtside part

/-! ## From text to pairs -/

def isEndBlank (c : Char) : Bool := c.toNat ≤ 0x20

/-- What is left of the query that is written in an address. -/
def sentQuery (cs : List Char) : List Char :=
  ((dropEnd isEndBlank cs).filter (!isTabOrBreak ·)).takeWhile (· ≠ '#')

def spokenPairs (cs : List Char) : List (String × String) :=
  ((splitBy (· == '&') cs).filter (· ≠ [])).map spokenPair

theorem dropWhile_append_cons {p : Char → Bool} {c : Char} (hc : p c = false)
    (cs ds : List Char) : (cs ++ c :: ds).dropWhile p = cs.dropWhile p ++ c :: ds := by
  induction cs with
  | nil => exact List.dropWhile_cons_of_neg (by rw [hc]; decide)
  | cons d cs ih =>
    rw [List.cons_append, List.dropWhile_cons, List.dropWhile_cons]
    split
    · exact ih
    · rfl

theorem dropEnd_append_cons {p : Char → Bool} {c : Char} (hc : p c = false)
    (cs ds : List Char) : dropEnd p (cs ++ c :: ds) = cs ++ c :: dropEnd p ds := by
  rw [dropEnd, dropEnd, List.reverse_append, List.reverse_cons, List.append_assoc,
    List.singleton_append, dropWhile_append_cons hc]
  simp

theorem cleaned_append_cons {c : Char} (hc : isEndBlank c = false) (cs ds : List Char) :
    cleaned (cs ++ c :: ds) = (cs.dropWhile isEndBlank).filter (!isTabOrBreak ·) ++
      (c :: dropEnd isEndBlank ds).filter (!isTabOrBreak ·) := by
  have htrim : trimEnds isEndBlank (cs ++ c :: ds) =
      cs.dropWhile isEndBlank ++ c :: dropEnd isEndBlank ds := by
    rw [trimEnds, dropWhile_append_cons hc]
    exact dropEnd_append_cons hc _ _
  change (trimEnds isEndBlank _).filter (!isTabOrBreak ·) = _
  rw [htrim, List.filter_append]

theorem behindPath_cleaned {front : List Char} (hfront : ∀ c ∈ front, isBeforeQuery c = true)
    (query : List Char) : behindPath (cleaned (front ++ '?' :: query)) =
      '?' :: (dropEnd isEndBlank query).filter (!isTabOrBreak ·) := by
  have hbefore : ∀ c ∈ (front.dropWhile isEndBlank).filter (!isTabOrBreak ·),
      isBeforeQuery c = true := fun c hc =>
    hfront c ((List.dropWhile_sublist _).subset (List.mem_filter.mp hc).1)
  rw [cleaned_append_cons (by decide), behindPath_append hbefore,
    List.filter_cons_of_pos (by decide)]
  rfl

/-- The pairs that are decoded from an address are those of the text behind its first question
mark. -/
theorem pairs_of_read {text : String} {front query : List Char} {url : Url}
    (h : read text = .ok url) (htext : text.toList = front ++ '?' :: query)
    (hfront : ∀ c ∈ front, isBeforeQuery c = true) :
    url.query.map queryPairs = some (spokenPairs (sentQuery query)) := by
  obtain ⟨kind, hquery⟩ := query_of_read h
  rw [htext, behindPath_cleaned hfront] at hquery
  rw [hquery, readQuery, Option.map_some, queryPairs_percentEncode]
  · rfl
  · split
    · exact outsideQuery_spares
    · exact outsideWebQuery_spares

end DesignComponents.Url
