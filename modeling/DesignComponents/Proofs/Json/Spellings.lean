import DesignComponents.Json.Reader
import DesignComponents.Json.Writer
import DesignComponents.Proofs.Text.Hexadecimal

/-!
# Texts of JSON values

The layouts of a value differ in the space between its parts only. A spelling is a text of a value
with any space there; whatever spelling is read, the value comes out. Numbers are left aside: they
have more than one text each and end where the text goes on with something else.
-/

namespace DesignComponents.Json

/-! ## Strings -/

/-- The characters with an escape of their own. -/
def namedEscapes : List Char := ['"', '\\', '\n', '\r', '\t', '\x08', '\x0c']

theorem escapeChar_of_mem {c : Char} (h : c ∈ namedEscapes) :
    ∃ e, escapeChar c = ['\\', e] ∧ simpleEscape? e = some c := by
  simp only [namedEscapes, List.mem_cons, List.not_mem_nil, or_false] at h
  rcases h with rfl | rfl | rfl | rfl | rfl | rfl | rfl <;> exact ⟨_, rfl, rfl⟩

theorem escapeChar_of_not_mem {c : Char} (h : c ∉ namedEscapes) :
    escapeChar c =
      if c.toNat < 0x20 then ['\\', 'u', '0', '0'] ++ hexPair (UInt8.ofNat c.toNat) else [c] := by
  simp only [namedEscapes, List.mem_cons, List.not_mem_nil, or_false, not_or] at h
  obtain ⟨hquote, hslash, hline, hreturn, htab, hback, hfeed⟩ := h
  rw [escapeChar, if_neg hquote, if_neg hslash, if_neg hline, if_neg hreturn, if_neg htab,
    if_neg hback, if_neg hfeed]

/-- The text goes on with four digits of a character. -/
def BeginsWithUnicode (cs : List Char) : Prop :=
  ∃ w x y z rest, cs = '\\' :: 'u' :: w :: x :: y :: z :: rest

theorem readString?_of_simpleEscape {c e : Char} (h : simpleEscape? c = some e) (sound : Bool)
    (done rest : List Char) :
    readString? sound done ('\\' :: c :: rest) = readString? sound (e :: done) rest := by
  have hc : c ≠ 'u' := by
    rintro rfl
    cases h
  rw [readString?.eq_5, h]
  · intro _ _ _ _ _ _ _ _ _ heq
    exact absurd heq hc
  · intro _ _ _ _ _ heq
    exact absurd heq hc

theorem readString?_of_no_number {a b c d : Char} (h : hexNumber? [a, b, c, d] = none)
    (sound : Bool) (done rest : List Char) :
    readString? sound done ('\\' :: 'u' :: a :: b :: c :: d :: rest) = none := by
  by_cases hnext : BeginsWithUnicode rest
  · obtain ⟨w, x, y, z, more, rfl⟩ := hnext
    rw [readString?.eq_3, h]
  · rw [readString?.eq_4, h]
    intro w x y z more heq
    exact hnext ⟨w, x, y, z, more, heq⟩

/-- The digits of a character that is no half of a pair are read by themselves. -/
theorem readString?_of_number {a b c d : Char} {n : Nat} (h : hexNumber? [a, b, c, d] = some n)
    (hn : n < 0xD800) (sound : Bool) (done rest : List Char) :
    readString? sound done ('\\' :: 'u' :: a :: b :: c :: d :: rest) =
      readString? sound (Char.ofNat n :: done) rest := by
  have hlead : isLead n = false := by simp [isLead]; omega
  have htrail : isTrail n = false := by simp [isTrail]; omega
  by_cases hnext : BeginsWithUnicode rest
  · obtain ⟨w, x, y, z, more, rfl⟩ := hnext
    rw [readString?.eq_3, h]
    cases hm : hexNumber? [w, x, y, z] with
    | some m => simp [hlead, htrail]
    | none => exact (readString?_of_no_number hm sound (Char.ofNat n :: done) more).symm
  · rw [readString?.eq_4, h]
    · simp [hlead, htrail]
    · intro w x y z more heq
      exact hnext ⟨w, x, y, z, more, heq⟩

theorem readString?_of_plain {c : Char} (hquote : c ≠ '"') (hslash : c ≠ '\\')
    (hc : ¬c.toNat < 0x20) (sound : Bool) (done rest : List Char) :
    readString? sound done (c :: rest) = readString? sound (c :: done) rest := by
  rw [readString?.eq_6, if_neg hc]
  · exact hquote
  · intro _ _ _ _ _ _ _ _ _ heq
    exact absurd heq hslash
  · intro _ _ _ _ _ heq
    exact absurd heq hslash
  · intro _ _ heq
    exact absurd heq hslash

theorem readString?_escapeChar (c : Char) (sound : Bool) (done rest : List Char) :
    readString? sound done (escapeChar c ++ rest) = readString? sound (c :: done) rest := by
  by_cases hnamed : c ∈ namedEscapes
  · obtain ⟨e, hescape, he⟩ := escapeChar_of_mem hnamed
    rw [hescape]
    exact readString?_of_simpleEscape he sound done rest
  · rw [escapeChar_of_not_mem hnamed]
    split
    · rename_i hc
      have hbyte : (UInt8.ofNat c.toNat).toNat = c.toNat := by
        rw [UInt8.toNat_ofNat']
        omega
      have hzeros : hexNumber? ['0', '0'] = some 0 := by decide
      have hnumber := hexNumber?_append_hexPair hzeros (UInt8.ofNat c.toNat)
      rw [hbyte, Nat.mul_zero, Nat.zero_add] at hnumber
      have hread := readString?_of_number hnumber (by omega) sound done rest
      rw [Char.ofNat_toNat] at hread
      exact hread
    · rename_i hc
      have hquote : c ≠ '"' := fun heq => hnamed (heq ▸ by decide)
      have hslash : c ≠ '\\' := fun heq => hnamed (heq ▸ by decide)
      exact readString?_of_plain hquote hslash hc sound done rest

theorem readString?_escaped (cs done rest : List Char) :
    readString? true done (cs.flatMap escapeChar ++ '"' :: rest) =
      some (some (String.ofList (done.reverse ++ cs)), rest) := by
  induction cs generalizing done with
  | nil => simp [readString?]
  | cons c cs ih =>
    rw [List.flatMap_cons, List.append_assoc, readString?_escapeChar, ih, List.reverse_cons,
      List.append_assoc, List.singleton_append]

theorem readString?_quoted (s : String) (rest : List Char) :
    readString? true [] (s.toList.flatMap escapeChar ++ '"' :: rest) = some (some s, rest) := by
  rw [readString?_escaped, List.reverse_nil, List.nil_append, String.ofList_toList]

/-! ## Spellings -/

def Spaces (cs : List Char) : Prop := ∀ c ∈ cs, isSpace c = true

mutual

/-- The texts of a value, without space around it. -/
inductive Spells : Json → List Char → Prop
  | null : Spells null ['n', 'u', 'l', 'l']
  | yes : Spells (bool true) ['t', 'r', 'u', 'e']
  | no : Spells (bool false) ['f', 'a', 'l', 's', 'e']
  | string (s : String) : Spells (string s) (quoted s)
  | emptyArray {gap : List Char} : Spaces gap → Spells (array []) ('[' :: gap ++ [']'])
  | array {items : List Json} {cs gap : List Char} :
      SpellsItems items cs → Spaces gap → Spells (array items) ('[' :: cs ++ gap ++ [']'])
  | emptyObject {gap : List Char} : Spaces gap → Spells (object []) ('\x7b' :: gap ++ ['\x7d'])
  | object {fields : List (String × Json)} {cs gap : List Char} :
      SpellsFields fields cs → Spaces gap → Spells (object fields) ('\x7b' :: cs ++ gap ++ ['\x7d'])

/-- The texts of one item or more, with space before them and before their commas. -/
inductive SpellsItems : List Json → List Char → Prop
  | last {j : Json} {before cs : List Char} :
      Spaces before → Spells j cs → SpellsItems [j] (before ++ cs)
  | more {j : Json} {items : List Json} {before cs behind ds : List Char} :
      Spaces before → Spells j cs → Spaces behind → SpellsItems items ds →
        SpellsItems (j :: items) (before ++ cs ++ behind ++ ',' :: ds)

/-- The texts of one field or more, with space around their names and before their commas. -/
inductive SpellsFields : List (String × Json) → List Char → Prop
  | last {name : String} {j : Json} {before colon value cs : List Char} :
      Spaces before → Spaces colon → Spaces value → Spells j cs →
        SpellsFields [(name, j)] (before ++ quoted name ++ colon ++ ':' :: (value ++ cs))
  | more {name : String} {j : Json} {fields : List (String × Json)}
      {before colon value cs behind ds : List Char} :
      Spaces before → Spaces colon → Spaces value → Spells j cs → Spaces behind →
        SpellsFields fields ds →
        SpellsFields ((name, j) :: fields)
          (before ++ quoted name ++ colon ++ ':' :: (value ++ cs) ++ behind ++ ',' :: ds)

end

/-! ## Reading spellings -/

theorem skipSpace_append {gap : List Char} (h : Spaces gap) (cs : List Char) :
    skipSpace (gap ++ cs) = skipSpace cs :=
  List.dropWhile_append_of_pos h

theorem skipSpace_append_cons {gap : List Char} (h : Spaces gap) {c : Char}
    (hc : isSpace c = false) (cs : List Char) : skipSpace (gap ++ c :: cs) = c :: cs := by
  rw [skipSpace_append h]
  exact List.dropWhile_cons_of_neg (by simp [hc])

theorem readValue?_append {gap : List Char} (h : Spaces gap) (fuel : Nat) (cs : List Char) :
    readValue? fuel (gap ++ cs) = readValue? fuel cs := by
  cases fuel with
  | zero => rfl
  | succ fuel => rw [readValue?, readValue?, skipSpace_append h]

theorem readItems?_append {gap : List Char} (h : Spaces gap) (fuel : Nat) (cs : List Char)
    (done : List Json) : readItems? fuel (gap ++ cs) done = readItems? fuel cs done := by
  cases fuel with
  | zero => rfl
  | succ fuel => rw [readItems?, readItems?, readValue?_append h]

theorem readFields?_append {gap : List Char} (h : Spaces gap) (fuel : Nat) (cs : List Char)
    (sound : Bool) (done : List (String × Json)) :
    readFields? fuel (gap ++ cs) sound done = readFields? fuel cs sound done := by
  cases fuel with
  | zero => rfl
  | succ fuel => rw [readFields?, readFields?, skipSpace_append h]

/-- What is written for a string, in front of any rest. -/
theorem quoted_append (s : String) (rest : List Char) :
    quoted s ++ rest = '"' :: (s.toList.flatMap escapeChar ++ '"' :: rest) := by
  simp [quoted]

theorem readValue?_quote (fuel : Nat) (cs : List Char) :
    readValue? (fuel + 1) ('"' :: cs) =
      (readString? true [] cs).map fun p => (p.1.elim void string, p.2) := rfl

theorem readValue?_quoted (fuel : Nat) (s : String) (rest : List Char) :
    readValue? (fuel + 1) (quoted s ++ rest) = some (string s, rest) := by
  rw [quoted_append, readValue?_quote, readString?_quoted]
  rfl

theorem readValue?_bracket (fuel : Nat) (cs : List Char) :
    readValue? (fuel + 1) ('[' :: cs) =
      match skipSpace cs with
      | ']' :: rest => some (array [], rest)
      | rest => readItems? fuel rest [] := rfl

theorem readValue?_brace (fuel : Nat) (cs : List Char) :
    readValue? (fuel + 1) ('\x7b' :: cs) =
      match skipSpace cs with
      | '\x7d' :: rest => some (object [], rest)
      | rest => readFields? fuel rest true [] := rfl

/-- A spelling begins with a character that is neither space nor the end of an array. -/
theorem Spells.exists_head {j : Json} {cs : List Char} (h : Spells j cs) :
    ∃ c rest, cs = c :: rest ∧ isSpace c = false ∧ c ≠ ']' := by
  cases h <;> exact ⟨_, _, rfl, by decide, by decide⟩

theorem SpellsItems.exists_head {items : List Json} {cs : List Char} (h : SpellsItems items cs) :
    ∃ gap c rest, cs = gap ++ c :: rest ∧ Spaces gap ∧ isSpace c = false ∧ c ≠ ']' := by
  cases h with
  | last hbefore hj =>
    obtain ⟨c, rest, rfl, hspace, hc⟩ := hj.exists_head
    exact ⟨_, c, rest, rfl, hbefore, hspace, hc⟩
  | @more _ _ before _ behind ds hbefore hj =>
    obtain ⟨c, rest, rfl, hspace, hc⟩ := hj.exists_head
    exact ⟨before, c, rest ++ behind ++ ',' :: ds, by simp, hbefore, hspace, hc⟩

theorem SpellsFields.exists_head {fields : List (String × Json)} {cs : List Char}
    (h : SpellsFields fields cs) : ∃ gap rest, cs = gap ++ '"' :: rest ∧ Spaces gap := by
  cases h with
  | @last name _ before colon value ds hbefore =>
    refine ⟨before, name.toList.flatMap escapeChar ++ '"' :: colon ++ ':' :: (value ++ ds), ?_,
      hbefore⟩
    simp [quoted]
  | @more name _ _ before colon value ds behind more hbefore =>
    refine ⟨before, name.toList.flatMap escapeChar ++ '"' :: colon ++ ':' :: (value ++ ds) ++
      behind ++ ',' :: more, ?_, hbefore⟩
    simp [quoted]

/-- Where items begin, the array does not end. -/
theorem readValue?_of_items {items : List Json} {cs : List Char} (h : SpellsItems items cs)
    (fuel : Nat) (rest : List Char) :
    readValue? (fuel + 1) ('[' :: (cs ++ rest)) = readItems? fuel (cs ++ rest) [] := by
  obtain ⟨gap, c, more, rfl, hgap, hspace, hc⟩ := h.exists_head
  rw [readValue?_bracket, List.append_assoc, List.cons_append, skipSpace_append_cons hgap hspace,
    readItems?_append hgap]
  split
  · rename_i heq
    exact absurd (List.cons.inj heq).1 hc
  · rfl

theorem readValue?_of_fields {fields : List (String × Json)} {cs : List Char}
    (h : SpellsFields fields cs) (fuel : Nat) (rest : List Char) :
    readValue? (fuel + 1) ('\x7b' :: (cs ++ rest)) = readFields? fuel (cs ++ rest) true [] := by
  obtain ⟨gap, more, rfl, hgap⟩ := h.exists_head
  rw [readValue?_brace, List.append_assoc, List.cons_append,
    skipSpace_append_cons hgap (by decide), readFields?_append hgap]
  split
  · rename_i heq
    exact absurd (List.cons.inj heq).1 (by decide)
  · rfl

/-- A field is read up to its value, and from behind its value on. -/
theorem readFields?_quoted {before colon : List Char} (hbefore : Spaces before)
    (hcolon : Spaces colon) (fuel : Nat) (name : String) (cs : List Char)
    (done : List (String × Json)) :
    readFields? (fuel + 1) (before ++ (quoted name ++ (colon ++ ':' :: cs))) true done =
      match readValue? fuel cs with
      | none => none
      | some (value, rest) =>
        match skipSpace rest with
        | ',' :: rest => readFields? fuel rest true ((name, value) :: done)
        | '\x7d' :: rest => some (object ((name, value) :: done).reverse, rest)
        | _ => none := by
  rw [quoted_append, readFields?, skipSpace_append_cons hbefore (by decide)]
  split
  · rename_i rest heq
    obtain rfl := (List.cons.inj heq).2
    rw [readString?_quoted]
    dsimp only
    rw [skipSpace_append_cons hcolon (by decide)]
    rfl
  · rename_i hne
    exact absurd rfl (hne _)

-- By recursion on the value. A call on a part takes one unit of fuel and leaves out a character at
-- least, a bracket or a comma, so that fuel for the length of the spelling is enough.
mutual

theorem readValue?_of_spells (j : Json) {cs : List Char} (h : Spells j cs) {fuel : Nat}
    (hfuel : cs.length ≤ fuel) (rest : List Char) :
    readValue? fuel (cs ++ rest) = some (j, rest) := by
  cases fuel with
  | zero =>
    obtain ⟨c, more, rfl, _⟩ := h.exists_head
    cases hfuel
  | succ fuel =>
    cases h with
    | null | yes | no => rfl
    | string s => exact readValue?_quoted fuel s rest
    | emptyArray hgap =>
      rw [List.append_assoc, List.cons_append, readValue?_bracket, List.singleton_append,
        skipSpace_append_cons hgap (by decide)]
      rfl
    | @array items cs gap hitems hgap =>
      simp only [List.length_append, List.length_cons] at hfuel
      rw [List.append_assoc, List.append_assoc, List.cons_append, readValue?_of_items hitems]
      exact readItems?_of_spells items hitems hgap (by omega) [] rest
    | emptyObject hgap =>
      rw [List.append_assoc, List.cons_append, readValue?_brace, List.singleton_append,
        skipSpace_append_cons hgap (by decide)]
      rfl
    | @object fields cs gap hfields hgap =>
      simp only [List.length_append, List.length_cons] at hfuel
      rw [List.append_assoc, List.append_assoc, List.cons_append, readValue?_of_fields hfields]
      exact readFields?_of_spells fields hfields hgap (by omega) [] rest

theorem readItems?_of_spells (items : List Json) {cs gap : List Char} (h : SpellsItems items cs)
    (hgap : Spaces gap) {fuel : Nat} (hfuel : cs.length < fuel) (done : List Json)
    (rest : List Char) :
    readItems? fuel (cs ++ (gap ++ ']' :: rest)) done =
      some (array (done.reverse ++ items), rest) := by
  cases fuel with
  | zero => cases hfuel
  | succ fuel =>
    cases h with
    | @last j before cs hbefore hj =>
      rw [List.length_append] at hfuel
      have hvalue : readValue? fuel (cs ++ (gap ++ ']' :: rest)) = some (j, gap ++ ']' :: rest) :=
        readValue?_of_spells j hj (by omega) _
      rw [readItems?, List.append_assoc, readValue?_append hbefore, hvalue]
      dsimp only
      rw [skipSpace_append_cons hgap (by decide)]
      simp
    | @more j items before cs behind ds hbefore hj hbehind hitems =>
      simp only [List.length_append, List.length_cons] at hfuel
      have hvalue : readValue? fuel (cs ++ (behind ++ ',' :: (ds ++ (gap ++ ']' :: rest)))) =
          some (j, behind ++ ',' :: (ds ++ (gap ++ ']' :: rest))) :=
        readValue?_of_spells j hj (by omega) _
      have hitems : readItems? fuel (ds ++ (gap ++ ']' :: rest)) (j :: done) =
          some (array ((j :: done).reverse ++ items), rest) :=
        readItems?_of_spells items hitems hgap (by omega) (j :: done) rest
      simp only [List.append_assoc, List.cons_append]
      rw [readItems?, readValue?_append hbefore, hvalue]
      dsimp only
      rw [skipSpace_append_cons hbehind (by decide)]
      simp [hitems]

theorem readFields?_of_spells (fields : List (String × Json)) {cs gap : List Char}
    (h : SpellsFields fields cs) (hgap : Spaces gap) {fuel : Nat} (hfuel : cs.length < fuel)
    (done : List (String × Json)) (rest : List Char) :
    readFields? fuel (cs ++ (gap ++ '\x7d' :: rest)) true done =
      some (object (done.reverse ++ fields), rest) := by
  cases fuel with
  | zero => cases hfuel
  | succ fuel =>
    cases h with
    | @last name j before colon value cs hbefore hcolon hvalue hj =>
      simp only [List.length_append, List.length_cons] at hfuel
      have hread : readValue? fuel (cs ++ (gap ++ '\x7d' :: rest)) =
          some (j, gap ++ '\x7d' :: rest) :=
        readValue?_of_spells j hj (by omega) _
      simp only [List.append_assoc, List.cons_append]
      rw [readFields?_quoted hbefore hcolon, readValue?_append hvalue, hread]
      dsimp only
      rw [skipSpace_append_cons hgap (by decide)]
      simp
    | @more name j fields before colon value cs behind ds hbefore hcolon hvalue hj hbehind
        hfields =>
      simp only [List.length_append, List.length_cons] at hfuel
      have hread : readValue? fuel (cs ++ (behind ++ ',' :: (ds ++ (gap ++ '\x7d' :: rest)))) =
          some (j, behind ++ ',' :: (ds ++ (gap ++ '\x7d' :: rest))) :=
        readValue?_of_spells j hj (by omega) _
      have hfields : readFields? fuel (ds ++ (gap ++ '\x7d' :: rest)) true ((name, j) :: done) =
          some (object (((name, j) :: done).reverse ++ fields), rest) :=
        readFields?_of_spells fields hfields hgap (by omega) ((name, j) :: done) rest
      simp only [List.append_assoc, List.cons_append]
      rw [readFields?_quoted hbefore hcolon, readValue?_append hvalue, hread]
      dsimp only
      rw [skipSpace_append_cons hbehind (by decide)]
      simp [hfields]

end

/-- Whatever spelling of a value is read, with any space around it, the value comes out, as far as
it is not nested too deep. -/
theorem read?_of_spells {j : Json} {cs before behind : List Char} (h : Spells j cs)
    (hbefore : Spaces before) (hbehind : Spaces behind) :
    read? (String.ofList (before ++ cs ++ behind)) = some (j.cut deepest) := by
  have hend : skipSpace behind = [] := by
    rw [← List.append_nil behind, skipSpace_append hbehind]
    rfl
  have hlength : cs.length ≤ 2 * (before ++ cs ++ behind).length + 2 := by
    simp only [List.length_append]
    omega
  have hread := readValue?_of_spells j h hlength behind
  unfold read?
  dsimp only
  rw [String.toList_ofList, List.append_assoc, readValue?_append hbefore, ← List.append_assoc,
    hread]
  exact if_pos (by rw [hend, List.isEmpty_nil])

end DesignComponents.Json
