import DesignComponents.Json.Reader

/-!
# Numbers that are read

An arithmetic result can be no number at all, and what is no number cannot be compared. No text
stands for it, however: every number inside a value that is read is one.
-/

namespace DesignComponents

namespace Binary

variable {f : BinaryFormat}

theorem isNaN_ofStored (negative : Bool) (m : Nat) (e : Int) :
    (ofStored f negative m e).isNaN = false := by
  unfold ofStored
  split <;> rfl

theorem isNaN_nearest (negative : Bool) (num den : Nat) :
    (nearest f negative num den).isNaN = false := by
  unfold nearest
  split
  · exact isNaN_ofStored ..
  · dsimp only
    split <;> exact isNaN_ofStored ..

theorem isNaN_zero : (0 : Binary f).isNaN = false := isNaN_nearest false 0 1

theorem isNaN_neg (x : Binary f) : (-x).isNaN = x.isNaN := by
  cases x <;> rfl

/-- Finite and not zero. -/
def isOrdinary : Binary f → Bool
  | finite _ m _ _ => m != 0
  | _ => false

theorem isNaN_mul {x y : Binary f} (hx : x.isNaN = false) (hy : y.isOrdinary = true) :
    (x * y).isNaN = false := by
  cases y with
  | nan => cases hy
  | infinite t => cases hy
  | finite t n e hn =>
    have hzero : n ≠ 0 := bne_iff_ne.mp hy
    cases x with
    | nan => cases hx
    | infinite s =>
      change (if n = 0 then nan else infinite (s != t)).isNaN = false
      rw [if_neg hzero]
      rfl
    | finite s m d hm => exact isNaN_nearest ..

theorem isNaN_div {x y : Binary f} (hx : x.isNaN = false) (hy : y.isOrdinary = true) :
    (x / y).isNaN = false := by
  cases y with
  | nan => cases hy
  | infinite t => cases hy
  | finite t n e hn =>
    have hzero : n ≠ 0 := bne_iff_ne.mp hy
    cases x with
    | nan => cases hx
    | infinite s => rfl
    | finite s m d hm =>
      change (if n = 0 then _ else nearest f _ _ _).isNaN = false
      rw [if_neg hzero]
      exact isNaN_nearest ..

end Binary

namespace Json

theorem isOrdinary_tenTo {k : Nat} (h : k ≤ greatestPower) : (tenTo k).isOrdinary = true := by
  have hall : ∀ k ≤ greatestPower, (tenTo k).isOrdinary = true := by decide +kernel
  exact hall k h

theorem isNaN_scaled {n : Nat} {e : Int} {x : Double} (h : scaled? n e = some x) :
    x.isNaN = false := by
  have hwhole : (Binary.ofNat .double n).isNaN = false := Binary.isNaN_nearest ..
  simp only [scaled?] at h
  split at h
  · rw [← Option.some.inj h]
    exact hwhole
  · split at h
    · split at h
      · rename_i hpower
        split at h
        · cases h
        · rw [← Option.some.inj h]
          exact Binary.isNaN_mul hwhole (isOrdinary_tenTo hpower)
      · cases h
    · split at h
      · rename_i hpower
        rw [← Option.some.inj h]
        exact Binary.isNaN_div hwhole (isOrdinary_tenTo hpower)
      · split at h
        · rename_i hpower
          have hfirst := Binary.isNaN_div hwhole (isOrdinary_tenTo (Nat.le_refl _))
          have hrest : e.natAbs - greatestPower ≤ greatestPower := by omega
          rw [← Option.some.inj h]
          exact Binary.isNaN_div hfirst (isOrdinary_tenTo hrest)
        · rw [← Option.some.inj h]
          exact Binary.isNaN_nearest ..

/-- Every number inside the value is one. -/
inductive Numeric : Json → Prop
  | null : Numeric null
  | bool (b : Bool) : Numeric (bool b)
  | integer (n : Int) : Numeric (integer n)
  | float {x : Double} : x.isNaN = false → Numeric (float x)
  | string (s : String) : Numeric (string s)
  | array {items : List Json} : (∀ j ∈ items, Numeric j) → Numeric (array items)
  | object {fields : List (String × Json)} :
      (∀ field ∈ fields, Numeric field.2) → Numeric (object fields)
  | void : Numeric void

theorem Numeric.elim_void {x? : Option Double} {withSign : Double → Json}
    (h : ∀ x ∈ x?, (withSign x).Numeric) : (x?.elim .void withSign).Numeric := by
  cases x? with
  | none => exact .void
  | some x => exact h x rfl

theorem numeric_toJson (negative : Bool) (t : NumberText) : (t.toJson negative).Numeric := by
  have hsigned : ∀ (n : Nat) (e : Int), ((scaled? n e).elim Json.void
      fun x => float (if negative then -x else x)).Numeric := by
    intro n e
    refine .elim_void fun x hx => .float ?_
    have hnumber := isNaN_scaled hx
    split
    · rw [Binary.isNaN_neg, hnumber]
    · exact hnumber
  simp only [NumberText.toJson]
  split
  · split
    · exact .integer _
    · split
      · exact .integer _
      · exact hsigned _ _
  · exact hsigned _ _

theorem numeric_readNumber {cs rest : List Char} {j : Json}
    (h : readNumber? cs = some (j, rest)) : j.Numeric := by
  unfold readNumber? at h
  split at h
  all_goals
    obtain ⟨⟨t, rest'⟩, _, heq⟩ := Option.map_eq_some_iff.mp h
    rw [← (Prod.mk.inj heq).1]
    exact numeric_toJson _ t

/-! ## Reading -/

/-- What is read with this much fuel is numeric if what was read before is. -/
structure ReadsNumeric (fuel : Nat) : Prop where
  value : ∀ {cs rest j}, readValue? fuel cs = some (j, rest) → j.Numeric
  items : ∀ {cs done rest j}, (∀ item ∈ done, item.Numeric) →
    readItems? fuel cs done = some (j, rest) → j.Numeric
  fields : ∀ {cs sound done rest j}, (∀ field ∈ done, field.2.Numeric) →
    readFields? fuel cs sound done = some (j, rest) → j.Numeric

theorem numeric_readValue {fuel : Nat} (ih : ReadsNumeric fuel) {cs rest : List Char} {j : Json}
    (h : readValue? (fuel + 1) cs = some (j, rest)) : j.Numeric := by
  rw [readValue?] at h
  split at h
  · obtain ⟨⟨s, rest'⟩, _, heq⟩ := Option.map_eq_some_iff.mp h
    rw [← (Prod.mk.inj heq).1]
    cases s with
    | none => exact .void
    | some s => exact .string s
  · split at h
    · rw [← (Prod.mk.inj (Option.some.inj h)).1]
      exact .array (List.forall_mem_nil _)
    · exact ih.items (List.forall_mem_nil _) h
  · split at h
    · rw [← (Prod.mk.inj (Option.some.inj h)).1]
      exact .object (List.forall_mem_nil _)
    · exact ih.fields (List.forall_mem_nil _) h
  · rw [← (Prod.mk.inj (Option.some.inj h)).1]
    exact .bool true
  · rw [← (Prod.mk.inj (Option.some.inj h)).1]
    exact .bool false
  · rw [← (Prod.mk.inj (Option.some.inj h)).1]
    exact .null
  · exact numeric_readNumber h

theorem numeric_readItems {fuel : Nat} (ih : ReadsNumeric fuel) {cs rest : List Char}
    {done : List Json} {j : Json} (hdone : ∀ item ∈ done, item.Numeric)
    (h : readItems? (fuel + 1) cs done = some (j, rest)) : j.Numeric := by
  rw [readItems?] at h
  split at h
  · cases h
  · rename_i item rest' hitem
    have hitems : ∀ i ∈ item :: done, i.Numeric := List.forall_mem_cons.mpr ⟨ih.value hitem, hdone⟩
    split at h
    · exact ih.items hitems h
    · rw [← (Prod.mk.inj (Option.some.inj h)).1]
      exact .array fun i hi => hitems i (List.mem_reverse.mp hi)
    · cases h

theorem numeric_readFields {fuel : Nat} (ih : ReadsNumeric fuel) {cs rest : List Char}
    {sound : Bool} {done : List (String × Json)} {j : Json}
    (hdone : ∀ field ∈ done, field.2.Numeric)
    (h : readFields? (fuel + 1) cs sound done = some (j, rest)) : j.Numeric := by
  rw [readFields?] at h
  split at h
  · split at h
    · cases h
    · rename_i name _ _
      split at h
      · split at h
        · cases h
        · rename_i value _ hvalue
          have hfields : ∀ field ∈ (name.getD "", value) :: done, field.2.Numeric :=
            List.forall_mem_cons.mpr ⟨ih.value hvalue, hdone⟩
          dsimp only at h
          split at h
          · exact ih.fields hfields h
          · rw [← (Prod.mk.inj (Option.some.inj h)).1]
            split
            · exact .object fun field hfield => hfields field (List.mem_reverse.mp hfield)
            · exact .void
          · cases h
      · cases h
  · cases h

theorem readsNumeric (fuel : Nat) : ReadsNumeric fuel := by
  induction fuel with
  | zero =>
    refine ⟨?_, ?_, ?_⟩
    · intro cs rest j h
      rw [readValue?] at h
      cases h
    · intro cs done rest j _ h
      rw [readItems?] at h
      cases h
    · intro cs sound done rest j _ h
      rw [readFields?] at h
      cases h
  | succ fuel ih => exact ⟨numeric_readValue ih, numeric_readItems ih, numeric_readFields ih⟩

mutual

theorem Numeric.cut {j : Json} (h : j.Numeric) (levels : Nat) : (j.cut levels).Numeric := by
  cases h with
  | array hitems =>
    cases levels with
    | zero => rw [Json.cut]; exact .void
    | succ levels => rw [Json.cut]; exact .array (numeric_cutItems hitems levels)
  | object hfields =>
    cases levels with
    | zero => rw [Json.cut]; exact .void
    | succ levels => rw [Json.cut]; exact .object (numeric_cutFields hfields levels)
  | float hx => cases levels <;> exact .float hx
  | null => cases levels <;> exact .null
  | bool b => cases levels <;> exact .bool b
  | integer n => cases levels <;> exact .integer n
  | string s => cases levels <;> exact .string s
  | void => cases levels <;> exact .void

theorem numeric_cutItems {items : List Json} (h : ∀ j ∈ items, j.Numeric) (levels : Nat) :
    ∀ j ∈ cutItems levels items, j.Numeric := by
  cases items with
  | nil => rw [cutItems]; exact List.forall_mem_nil _
  | cons j items =>
    obtain ⟨hj, hitems⟩ := List.forall_mem_cons.mp h
    rw [cutItems]
    exact List.forall_mem_cons.mpr ⟨hj.cut levels, numeric_cutItems hitems levels⟩

theorem numeric_cutFields {fields : List (String × Json)} (h : ∀ field ∈ fields, field.2.Numeric)
    (levels : Nat) : ∀ field ∈ cutFields levels fields, field.2.Numeric := by
  cases fields with
  | nil => rw [cutFields]; exact List.forall_mem_nil _
  | cons field fields =>
    obtain ⟨hfield, hfields⟩ := List.forall_mem_cons.mp h
    rw [cutFields]
    exact List.forall_mem_cons.mpr ⟨hfield.cut levels, numeric_cutFields hfields levels⟩

end

/-- Whatever is read, every number inside it is one. -/
theorem numeric_read {s : String} {j : Json} (h : read? s = some j) : j.Numeric := by
  simp only [read?] at h
  split at h
  · rename_i value _ hvalue
    split at h
    · rw [← Option.some.inj h]
      exact ((readsNumeric _).value hvalue).cut deepest
    · cases h
  · cases h

end Json

end DesignComponents
