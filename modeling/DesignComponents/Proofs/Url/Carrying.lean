import DesignComponents.Proofs.Url.Pairs

/-!
# Values that a query carries

A query of names and values gives a value back if nothing in the value means anything in a query
or in an address: no ampersand and no number sign that would end it, no plus and no escape that
would be decoded, no tab and no line break that would be dropped. At the end of an address it
must not end in a blank or a control, either.
-/

namespace DesignComponents.Url

/-! ## What a query carries -/

def isCarried (c : Char) : Bool := !(['&', '#', '+', '\t', '\n', '\r'].contains c)

def isTextCarried (text : String) : Bool := text.toList.all isCarried && !hasEscape text.toList

def endsPlainly (text : String) : Bool := text.toList.getLast?.all (!isEndBlank ·)

theorem isTextCarried_iff {text : String} : isTextCarried text = true ↔
    (∀ c ∈ text.toList, isCarried c = true) ∧ hasEscape text.toList = false := by
  rw [isTextCarried, Bool.and_eq_true, List.all_eq_true, Bool.not_eq_true']

theorem dropEnd_eq_self_iff {p : Char → Bool} {cs : List Char} :
    dropEnd p cs = cs ↔ cs.getLast?.all (!p ·) = true := by
  rw [dropEnd, List.reverse_eq_iff, ← List.head?_reverse]
  cases cs.reverse with
  | nil => exact ⟨fun _ => rfl, fun _ => rfl⟩
  | cons c rest =>
    rw [List.head?_cons, Option.all_some]
    cases hc : p c with
    | true =>
      refine ⟨fun h => ?_, fun h => absurd h (by decide)⟩
      rw [List.dropWhile_cons_of_pos hc] at h
      have hlength := (List.dropWhile_sublist p (l := rest)).length_le
      rw [h] at hlength
      exact absurd hlength (Nat.not_succ_le_self _)
    | false => exact ⟨fun _ => rfl, fun _ => List.dropWhile_cons_of_neg (by rw [hc]; decide)⟩

theorem dropEnd_sublist (p : Char → Bool) (cs : List Char) : (dropEnd p cs).Sublist cs := by
  have hdrop := (List.dropWhile_sublist p (l := cs.reverse)).reverse
  rwa [List.reverse_reverse] at hdrop

theorem dropEnd_of_forall {p : Char → Bool} {cs : List Char} (h : ∀ c ∈ cs, p c = false) :
    dropEnd p cs = cs := by
  rw [dropEnd_eq_self_iff]
  cases hlast : cs.getLast? with
  | none => rfl
  | some c => rw [Option.all_some, h c (List.mem_of_getLast? hlast), Bool.not_false]

theorem spoken_eq_of_carried {text : String} (h : isTextCarried text = true) :
    spoken text.toList = text.toList := by
  obtain ⟨hcarried, hescape⟩ := isTextCarried_iff.mp h
  exact spoken_eq_iff.mpr ⟨hescape, fun hplus => absurd (hcarried '+' hplus) (by decide)⟩

/-! ## Tokens -/

/-- Whether a character means nothing and is kept wherever it stands in an address's query. -/
def isTokenChar (c : Char) : Bool := isCarried c && c != '%' && c != '=' && !isEndBlank c

def IsToken (text : String) : Prop := ∀ c ∈ text.toList, isTokenChar c = true

instance (text : String) : Decidable (IsToken text) :=
  decidable_of_iff (text.toList.all isTokenChar = true) List.all_eq_true

theorem ne_of_isTokenChar {c d : Char} (hc : isTokenChar c = true) (hd : isTokenChar d = false) :
    c ≠ d := by
  rintro rfl
  exact Bool.noConfusion (hd.symm.trans hc)

theorem not_mem_token {text : String} (h : IsToken text) {d : Char} (hd : isTokenChar d = false) :
    d ∉ text.toList :=
  fun hmem => ne_of_isTokenChar (h d hmem) hd rfl

theorem hasEscape_of_not_mem {cs : List Char} (h : '%' ∉ cs) : hasEscape cs = false := by
  induction cs with
  | nil => rfl
  | cons c cs ih =>
    rw [List.mem_cons, not_or] at h
    cases hescape : escape? (c :: cs) with
    | none => rw [hasEscape, hescape, ih h.2, Option.isSome_none, Bool.or_false]
    | some b =>
      obtain ⟨_, _, _, _, _, hc, _⟩ := exists_digits_of_escape hescape
      exact absurd hc.symm h.1

theorem isCarried_of_isTokenChar {c : Char} (h : isTokenChar c = true) : isCarried c = true := by
  rw [isTokenChar, Bool.and_eq_true, Bool.and_eq_true, Bool.and_eq_true] at h
  exact h.1.1.1

theorem isEndBlank_of_isTokenChar {c : Char} (h : isTokenChar c = true) : isEndBlank c = false := by
  rw [isTokenChar, Bool.and_eq_true, Bool.not_eq_true'] at h
  exact h.2

theorem IsToken.isTextCarried {text : String} (h : IsToken text) : isTextCarried text = true :=
  isTextCarried_iff.mpr ⟨fun c hc => isCarried_of_isTokenChar (h c hc),
    hasEscape_of_not_mem (not_mem_token h (by decide))⟩

/-! ## Fields -/

def fieldText (field : String × String) : List Char := field.1.toList ++ '=' :: field.2.toList

/-- The fields of a query behind the first one. -/
def moreText (fields : List (String × String)) : List Char :=
  fields.flatMap fun field => '&' :: fieldText field

def AreTokens (fields : List (String × String)) : Prop :=
  ∀ field ∈ fields, IsToken field.1 ∧ IsToken field.2

theorem spokenPair_append {name : String} (hname : IsToken name) (value : List Char) :
    spokenPair (name.toList ++ '=' :: value) = (name, String.ofList (spoken value)) := by
  have hpos : ∀ c ∈ name.toList, (decide (c ≠ '=')) = true := fun c hc =>
    decide_eq_true (ne_of_isTokenChar (hname c hc) (by decide))
  rw [spokenPair, List.takeWhile_append_of_pos hpos, List.dropWhile_append_of_pos hpos,
    List.takeWhile_cons_of_neg (by decide), List.dropWhile_cons_of_neg (by decide),
    List.append_nil, spoken_eq_of_carried hname.isTextCarried, String.ofList_toList]
  rfl

theorem exists_splitBy (p : Char → Bool) (cs : List Char) :
    ∃ parts, splitBy p cs = cs.takeWhile (!p ·) :: parts := by
  induction cs with
  | nil => exact ⟨[], rfl⟩
  | cons c cs ih =>
    obtain ⟨parts, hparts⟩ := ih
    rw [splitBy, hparts, List.takeWhile_cons]
    cases p c with
    | true => exact ⟨_, rfl⟩
    | false => exact ⟨parts, rfl⟩

/-- The first pair of a query has what stands before the first ampersand as its value. -/
theorem exists_spokenPairs {name : String} (hname : IsToken name) (value : List Char) :
    ∃ pairs, spokenPairs (name.toList ++ '=' :: value) =
      (name, String.ofList (spoken (value.takeWhile (· ≠ '&')))) :: pairs := by
  obtain ⟨parts, hparts⟩ := exists_splitBy (· == '&') ('=' :: value)
  have hpos : ∀ c ∈ name.toList, (c == '&') = false := fun c hc =>
    beq_eq_false_iff_ne.mpr (ne_of_isTokenChar (hname c hc) (by decide))
  have hmark : (fun c : Char => !c == '&') = fun c => decide (c ≠ '&') :=
    funext fun c => by simp [Bool.beq_eq_decide_eq]
  rw [hmark, List.takeWhile_cons_of_pos (by decide)] at hparts
  rw [spokenPairs, splitBy_append_of_forall hpos hparts, List.filter_cons_of_pos (by simp),
    List.map_cons, spokenPair_append hname]
  exact ⟨_, rfl⟩

theorem spokenPairs_append (cs ds : List Char) :
    spokenPairs (cs ++ '&' :: ds) = spokenPairs cs ++ spokenPairs ds := by
  rw [spokenPairs, splitBy_append (by decide), List.filter_append, List.map_append]
  rfl

theorem spokenPairs_fieldText {name value : String} (hname : IsToken name)
    (hvalue : isTextCarried value = true) :
    spokenPairs (fieldText (name, value)) = [(name, value)] := by
  have hparts : splitBy (· == '&') (fieldText (name, value)) = [fieldText (name, value)] := by
    refine splitBy_eq_singleton fun c hc => beq_eq_false_iff_ne.mpr ?_
    rcases List.mem_append.mp hc with hc | hc
    · exact ne_of_isTokenChar (hname c hc) (by decide)
    · rcases List.mem_cons.mp hc with rfl | hc
      · decide
      · rintro rfl
        exact absurd ((isTextCarried_iff.mp hvalue).1 _ hc) (by decide)
  rw [spokenPairs, hparts, List.filter_cons_of_pos (by simp [fieldText]), List.filter_nil,
    List.map_singleton, fieldText, spokenPair_append hname, spoken_eq_of_carried hvalue,
    String.ofList_toList]

/-- A query whose values are carried has just its fields as pairs. -/
theorem spokenPairs_of_carried {name value : String} (hname : IsToken name)
    (hvalue : isTextCarried value = true) {fields : List (String × String)}
    (hfields : AreTokens fields) :
    spokenPairs (fieldText (name, value) ++ moreText fields) = (name, value) :: fields := by
  induction fields generalizing name value with
  | nil =>
    rw [moreText, List.flatMap_nil, List.append_nil]
    exact spokenPairs_fieldText hname hvalue
  | cons field fields ih =>
    obtain ⟨hfield, hrest⟩ := List.forall_mem_cons.mp hfields
    rw [moreText, List.flatMap_cons, List.cons_append, spokenPairs_append,
      spokenPairs_fieldText hname hvalue]
    exact congrArg ((name, value) :: ·) (ih hfield.1 hfield.2.isTextCarried hrest)

/-! ## What is sent -/

theorem isEndBlank_of_isTabOrBreak {c : Char} (h : isTabOrBreak c = true) :
    isEndBlank c = true := by
  rw [isTabOrBreak, Bool.or_eq_true, Bool.or_eq_true, beq_iff_eq, beq_iff_eq, beq_iff_eq] at h
  rcases h with (rfl | rfl) | rfl <;> decide

/-- Nothing in the fields behind the first one is cut off or dropped. -/
theorem plain_of_mem_moreText {fields : List (String × String)} (hfields : AreTokens fields) :
    ∀ c ∈ moreText fields, isEndBlank c = false ∧ c ≠ '#' := by
  intro c hc
  obtain ⟨field, hfield, hc⟩ := List.mem_flatMap.mp hc
  obtain ⟨hname, hvalue⟩ := hfields field hfield
  have htoken : c = '&' ∨ c = '=' ∨ isTokenChar c = true := by
    rcases List.mem_cons.mp hc with hc | hc
    · exact .inl hc
    · rcases List.mem_append.mp hc with hc | hc
      · exact .inr (.inr (hname c hc))
      · exact .inr ((List.mem_cons.mp hc).imp_right (hvalue c))
  rcases htoken with rfl | rfl | htoken
  · decide
  · decide
  · exact ⟨isEndBlank_of_isTokenChar htoken, ne_of_isTokenChar htoken (by decide)⟩

/-- What is left of the first value: only at the end of an address its end is trimmed. -/
def sentValue (atEnd : Bool) (value : List Char) : List Char :=
  (if atEnd then dropEnd isEndBlank value else value).filter (!isTabOrBreak ·)

theorem sentValue_sublist (atEnd : Bool) (value : List Char) :
    (sentValue atEnd value).Sublist value := by
  refine List.filter_sublist.trans ?_
  cases atEnd with
  | false => exact List.Sublist.refl _
  | true => exact dropEnd_sublist isEndBlank value

theorem dropEnd_append_moreText {fields : List (String × String)} (hfields : AreTokens fields)
    (cs : List Char) : dropEnd isEndBlank (cs ++ moreText fields) =
      (if fields.isEmpty then dropEnd isEndBlank cs else cs) ++ moreText fields := by
  cases fields with
  | nil =>
    rw [moreText, List.flatMap_nil, List.append_nil, List.append_nil]
    rfl
  | cons field fields =>
    have hself : dropEnd isEndBlank (fieldText field ++ moreText fields) =
        fieldText field ++ moreText fields :=
      dropEnd_of_forall fun c hc => (plain_of_mem_moreText hfields c (List.mem_cons_of_mem _ hc)).1
    exact (dropEnd_append_cons (by decide) _ _).trans (congrArg (cs ++ '&' :: ·) hself)

theorem sentQuery_fieldText {name : String} (hname : IsToken name) (value : String)
    {fields : List (String × String)} (hfields : AreTokens fields) :
    sentQuery (fieldText (name, value) ++ moreText fields) =
      name.toList ++ '=' :: (sentValue fields.isEmpty value.toList ++ moreText fields).takeWhile
        (· ≠ '#') := by
  have hkept : ∀ c, isEndBlank c = false → (!isTabOrBreak c) = true := fun c hc => by
    rw [Bool.not_eq_true', Bool.eq_false_iff]
    exact fun htab => Bool.noConfusion (hc.symm.trans (isEndBlank_of_isTabOrBreak htab))
  have hnameKept : name.toList.filter (!isTabOrBreak ·) = name.toList :=
    List.filter_eq_self.mpr fun c hc => hkept c (isEndBlank_of_isTokenChar (hname c hc))
  have hmoreKept : (moreText fields).filter (!isTabOrBreak ·) = moreText fields :=
    List.filter_eq_self.mpr fun c hc => hkept c (plain_of_mem_moreText hfields c hc).1
  have hnameSign : ∀ c ∈ name.toList, (decide (c ≠ '#')) = true := fun c hc =>
    decide_eq_true (ne_of_isTokenChar (hname c hc) (by decide))
  rw [sentQuery, fieldText, List.append_assoc, List.cons_append, dropEnd_append_cons (by decide),
    dropEnd_append_moreText hfields, List.filter_append, List.filter_cons_of_pos (by decide),
    List.filter_append, hnameKept, hmoreKept, List.takeWhile_append_of_pos hnameSign,
    List.takeWhile_cons_of_pos (by decide), sentValue]

/-- The first value ends before the first ampersand or number sign. -/
theorem takeWhile_sent (cs : List Char) (fields : List (String × String)) :
    ((cs ++ moreText fields).takeWhile (· ≠ '#')).takeWhile (· ≠ '&') =
      cs.takeWhile fun c => c ≠ '&' ∧ c ≠ '#' := by
  rw [List.takeWhile_takeWhile]
  simp only [decide_eq_true_eq]
  cases fields with
  | nil => rw [moreText, List.flatMap_nil, List.append_nil]
  | cons field fields =>
    rw [moreText, List.flatMap_cons, List.cons_append, List.takeWhile_append]
    split
    · rename_i hlength
      rw [List.takeWhile_cons_of_neg (by decide), List.append_nil]
      exact ((List.takeWhile_sublist _).eq_of_length hlength).symm
    · rfl

/-! ## What is carried -/

theorem isCarried_iff {c : Char} :
    isCarried c = true ↔ c ≠ '&' ∧ c ≠ '#' ∧ c ≠ '+' ∧ isTabOrBreak c = false := by
  simp [isCarried, isTabOrBreak, and_assoc]

theorem sentValue_of_carried {value : String} (hvalue : isTextCarried value = true) {atEnd : Bool}
    (hend : atEnd = true → endsPlainly value = true) :
    sentValue atEnd value.toList = value.toList := by
  have htrim : (if atEnd then dropEnd isEndBlank value.toList else value.toList) =
      value.toList := by
    split
    · rename_i hatEnd
      exact dropEnd_eq_self_iff.mpr (hend hatEnd)
    · rfl
  rw [sentValue, htrim, List.filter_eq_self]
  intro c hc
  rw [(isCarried_iff.mp ((isTextCarried_iff.mp hvalue).1 c hc)).2.2.2, Bool.not_false]

/-- A value that comes out as it went in was sent as it is, for it cannot have become longer. -/
theorem eq_of_spoken_sent {value : String} {atEnd : Bool}
    (h : spoken ((sentValue atEnd value.toList).takeWhile fun c => c ≠ '&' ∧ c ≠ '#') =
      value.toList) :
    sentValue atEnd value.toList = value.toList ∧
      (sentValue atEnd value.toList).takeWhile (fun c => c ≠ '&' ∧ c ≠ '#') = value.toList := by
  have hsent := sentValue_sublist atEnd value.toList
  have htake := List.takeWhile_sublist (fun c => decide (c ≠ '&' ∧ c ≠ '#'))
    (l := sentValue atEnd value.toList)
  have hlength := (length_spoken_le
    ((sentValue atEnd value.toList).takeWhile fun c => c ≠ '&' ∧ c ≠ '#')).1
  rw [h] at hlength
  exact ⟨hsent.eq_of_length_le (Nat.le_trans hlength htake.length_le),
    (htake.trans hsent).eq_of_length_le hlength⟩

theorem carried_of_spoken {value : String} {atEnd : Bool}
    (h : spoken ((sentValue atEnd value.toList).takeWhile fun c => c ≠ '&' ∧ c ≠ '#') =
      value.toList) :
    isTextCarried value = true ∧ (atEnd = true → endsPlainly value = true) := by
  obtain ⟨hsent, htake⟩ := eq_of_spoken_sent h
  rw [htake] at h
  obtain ⟨hescape, hplus⟩ := spoken_eq_iff.mp h
  refine ⟨isTextCarried_iff.mpr ⟨fun c hc => isCarried_iff.mpr ?_, hescape⟩, ?_⟩
  · have hmarks : c ≠ '&' ∧ c ≠ '#' := by
      rw [← htake] at hc
      exact of_decide_eq_true (List.mem_takeWhile_imp (p := fun c => decide (c ≠ '&' ∧ c ≠ '#')) hc)
    have hkept : isTabOrBreak c = false := by
      rw [← hsent] at hc
      simpa using (List.mem_filter.mp hc).2
    exact ⟨hmarks.1, hmarks.2, fun heq => hplus (heq ▸ hc), hkept⟩
  · rintro rfl
    have hfilter : (sentValue true value.toList).Sublist (dropEnd isEndBlank value.toList) :=
      List.filter_sublist
    rw [hsent] at hfilter
    have hdrop := (dropEnd_sublist isEndBlank value.toList).eq_of_length_le hfilter.length_le
    exact dropEnd_eq_self_iff.mp hdrop

/-- Fields come out of the query of an address as they were put in if and only if it carries the
first value; the others are tokens. -/
theorem spokenPairs_eq_iff {name : String} (hname : IsToken name) (value : String)
    {fields : List (String × String)} (hfields : AreTokens fields) :
    spokenPairs (sentQuery (fieldText (name, value) ++ moreText fields)) =
        (name, value) :: fields ↔
      isTextCarried value = true ∧ (fields.isEmpty = true → endsPlainly value = true) := by
  rw [sentQuery_fieldText hname value hfields]
  constructor
  · intro h
    obtain ⟨pairs, hpairs⟩ := exists_spokenPairs hname
      ((sentValue fields.isEmpty value.toList ++ moreText fields).takeWhile (· ≠ '#'))
    rw [hpairs, takeWhile_sent] at h
    have hvalue := congrArg String.toList (Prod.mk.inj (List.cons.inj h).1).2
    rw [String.toList_ofList] at hvalue
    exact carried_of_spoken hvalue
  · rintro ⟨hvalue, hend⟩
    have hsign : ∀ c ∈ value.toList ++ moreText fields, (decide (c ≠ '#')) = true := by
      intro c hc
      refine decide_eq_true ?_
      rcases List.mem_append.mp hc with hc | hc
      · exact (isCarried_iff.mp ((isTextCarried_iff.mp hvalue).1 c hc)).2.1
      · exact (plain_of_mem_moreText hfields c hc).2
    rw [sentValue_of_carried hvalue hend, List.takeWhile_eq_self_iff.mpr hsign,
      ← spokenPairs_of_carried hname hvalue hfields, fieldText, List.append_assoc]
    rfl

end DesignComponents.Url
