import Mathlib.Data.List.Forall2
import DesignComponents.Design.Encode

/-!
# Forms of records

A record may be written in many ways: as an object, with its fields in any order and with fields
of other names among them, or as the array of its fields; and where a field is a record itself
there is the same choice again. A form says what may be written for each field of a record, and
a coding what may be written for a value, what is written for it, and that all of it is read as
that value.
-/

namespace DesignComponents.Json

/-- The name of a field, what may be written for it and what is written. -/
structure FieldForm where
  name : String
  Writes : Json → Prop
  written : Json

abbrev RecordForm := List FieldForm

namespace RecordForm

def names (form : RecordForm) : List String := form.map (·.name)

def values (form : RecordForm) : List Json := form.map (·.written)

/-- The fields in order, as they are written. -/
def fields (form : RecordForm) : List (String × Json) := form.map fun f => (f.name, f.written)

/-- What is written for each field may be written there. -/
def Sound (form : RecordForm) : Prop := ∀ f ∈ form, f.Writes f.written

def FillsIn (form : RecordForm) (values : List Json) : Prop :=
  List.Forall₂ FieldForm.Writes form values

/-- An object has each field of the record once, an array has all of them in order. -/
inductive Writes (form : RecordForm) : Json → Prop
  | object (fields : List (String × Json)) :
      (∀ f ∈ form, ∃ j, fields.filter (·.1 == f.name) = [(f.name, j)] ∧ f.Writes j) →
        Writes form (Json.object fields)
  | array (items : List Json) : form.FillsIn items → Writes form (Json.array items)

variable {form more : RecordForm}

theorem Sound.append (hform : form.Sound) (hmore : more.Sound) : (form ++ more).Sound :=
  fun f hf => (List.mem_append.mp hf).elim (hform f) (hmore f)

theorem Sound.fillsIn (h : form.Sound) : form.FillsIn form.values := by
  induction form with
  | nil => exact .nil
  | cons f form ih =>
    obtain ⟨hf, hform⟩ := List.forall_mem_cons.mp h
    exact .cons hf (ih hform)

theorem FillsIn.exists_filter (hnames : form.names.Nodup) {values : List Json}
    (h : form.FillsIn values) : ∀ f ∈ form, ∃ j,
      (form.names.zip values).filter (·.1 == f.name) = [(f.name, j)] ∧ f.Writes j := by
  induction h with
  | nil => exact List.forall_mem_nil _
  | @cons f j form values hj _ ih =>
    obtain ⟨hf, hform⟩ := List.nodup_cons.mp hnames
    rw [names, List.map_cons, List.zip_cons_cons]
    refine List.forall_mem_cons.mpr ⟨⟨j, ?_, hj⟩, fun g hg => ?_⟩
    · rw [List.filter_cons_of_pos (by simp), List.filter_eq_nil_iff.mpr ?_]
      intro field hfield heq
      have hmem : field.1 ∈ names form := (List.of_mem_zip hfield).1
      rw [eq_of_beq heq] at hmem
      exact hf hmem
    · have hne : f.name ≠ g.name := fun heq => hf (List.mem_map.mpr ⟨g, hg, heq.symm⟩)
      rw [List.filter_cons_of_neg (by simpa using hne)]
      exact ih hform g hg

/-- Whatever fills in the fields may be written as an object, too. -/
theorem FillsIn.writes_object {values : List Json} (h : form.FillsIn values)
    (hnames : form.names.Nodup) : form.Writes (Json.object (form.names.zip values)) :=
  .object _ (h.exists_filter hnames)

theorem Sound.writes_object (h : form.Sound) (hnames : form.names.Nodup) :
    form.Writes (Json.object form.fields) := by
  have hfields : form.fields = form.names.zip form.values := (List.zip_map' ..).symm
  rw [hfields]
  exact h.fillsIn.writes_object hnames

/-- A field of another name may stand anywhere. -/
theorem Writes.with_unknown {first last : List (String × Json)}
    (h : form.Writes (Json.object (first ++ last))) {name : String} (hname : name ∉ form.names)
    (j : Json) : form.Writes (Json.object (first ++ (name, j) :: last)) := by
  cases h with
  | object _ hfields =>
    refine .object _ fun f hf => ?_
    have hne : name ≠ f.name := fun heq => hname (List.mem_map.mpr ⟨f, hf, heq.symm⟩)
    obtain ⟨value, hfilter, hvalue⟩ := hfields f hf
    refine ⟨value, ?_, hvalue⟩
    rw [List.filter_append, List.filter_cons_of_neg (by simpa using hne), ← List.filter_append,
      hfilter]

end RecordForm

/-! ## Slots -/

theorem field?_of_filter {name : String} {fields : List (String × Json)} {j : Json}
    (h : fields.filter (·.1 == name) = [(name, j)]) : field? name fields = some j := by
  induction fields with
  | nil => cases h
  | cons field fields ih =>
    obtain ⟨k, v⟩ := field
    rw [field?]
    by_cases hk : k = name
    · rw [List.filter_cons_of_pos (by simp [hk])] at h
      rw [if_pos hk, (Prod.mk.inj (List.cons.inj h).1).2]
    · rw [List.filter_cons_of_neg (by simp [hk])] at h
      rw [if_neg hk, ih h]

theorem itemSlots_length (items : List Json) : itemSlots items.length items = items.map .value := by
  induction items with
  | nil => rfl
  | cons j items ih => rw [List.length_cons, itemSlots, ih, List.map_cons]

theorem exists_values_of_object {form : RecordForm} {fields : List (String × Json)}
    (h : ∀ f ∈ form, ∃ j, fields.filter (·.1 == f.name) = [(f.name, j)] ∧ f.Writes j) :
    ∃ values, form.FillsIn values ∧
      (form.names.map fun name => (field? name fields).elim .unnamed .value) =
        values.map Slot.value := by
  induction form with
  | nil => exact ⟨[], .nil, rfl⟩
  | cons f form ih =>
    obtain ⟨⟨j, hfilter, hj⟩, hrest⟩ := List.forall_mem_cons.mp h
    obtain ⟨values, hvalues, hslots⟩ := ih hrest
    refine ⟨j :: values, .cons hj hvalues, ?_⟩
    rw [RecordForm.names, List.map_cons, List.map_cons, List.map_cons, field?_of_filter hfilter,
      ← hslots]
    rfl

/-- However a record is written, each slot has a value that may be written there. -/
theorem RecordForm.Writes.exists_values {form : RecordForm} {j : Json} (h : form.Writes j) :
    ∃ values, form.FillsIn values ∧ slots? form.names j = some (values.map .value) := by
  cases h with
  | object fields hfields =>
    obtain ⟨values, hvalues, hslots⟩ := exists_values_of_object hfields
    have honce : (form.names.all fun name => decide (occurrences name fields ≤ 1)) = true := by
      rw [List.all_eq_true]
      intro name hname
      obtain ⟨f, hf, rfl⟩ := List.mem_map.mp hname
      obtain ⟨j, hfilter, _⟩ := hfields f hf
      rw [occurrences, List.countP_eq_length_filter, hfilter]
      rfl
    refine ⟨values, hvalues, ?_⟩
    rw [slots?, if_pos honce, hslots]
  | array items hitems =>
    have hlength : form.names.length = items.length := by
      rw [RecordForm.names, List.length_map, hitems.length_eq]
    refine ⟨items, hitems, ?_⟩
    rw [slots?, if_pos (Nat.le_of_eq hlength.symm), hlength, itemSlots_length]

/-! ## Codings -/

/-- A coding of values, none of which is written as null. -/
structure Coding (α : Type) where
  Writes : α → Json → Prop
  encode : α → Json
  decode : Json → Option α
  not_null : ∀ a, ¬Writes a null
  writes_encode : ∀ a, Writes a (encode a)
  decode_of_writes : ∀ {a j}, Writes a j → decode j = some a

namespace Coding

variable {α : Type} (coding : Coding α)

def WritesOption : Option α → Json → Prop
  | some a => coding.Writes a
  | none => Eq null

theorem writesOption_nullOr (a? : Option α) : coding.WritesOption a? (nullOr coding.encode a?) := by
  cases a? with
  | none => rfl
  | some a => exact coding.writes_encode a

theorem nullable_of_writesOption {a? : Option α} {j : Json} (h : coding.WritesOption a? j) :
    Fields.nullable coding.decode j = some a? := by
  cases a? with
  | none =>
    cases h
    rfl
  | some a =>
    have hj : j ≠ null := fun heq => coding.not_null a (heq ▸ h)
    rw [Fields.nullable.eq_2 _ _ hj, coding.decode_of_writes h, Option.map_some]

def field (name : String) (a : α) : FieldForm := ⟨name, coding.Writes a, coding.encode a⟩

def optionalField (name : String) (a? : Option α) : FieldForm :=
  ⟨name, coding.WritesOption a?, nullOr coding.encode a?⟩

@[simp] theorem field_sound (name : String) (a : α) :
    (coding.field name a).Writes (coding.field name a).written :=
  coding.writes_encode a

@[simp] theorem optionalField_sound (name : String) (a? : Option α) :
    (coding.optionalField name a?).Writes (coding.optionalField name a?).written :=
  coding.writesOption_nullOr a?

/-- The doubles; a whole number may be written as an integer. -/
def number : Coding Double where
  Writes x j := j = float x ∨ ∃ n, Binary.ofInt .double n = x ∧ j = integer n
  encode := float
  decode := number?
  not_null x h := by rcases h with h | ⟨n, _, h⟩ <;> cases h
  writes_encode x := .inl rfl
  decode_of_writes h := by
    rcases h with rfl | ⟨n, rfl, rfl⟩
    · rfl
    · rfl

def text : Coding String where
  Writes s := Eq (string s)
  encode := string
  decode := string?
  not_null s h := by cases h
  writes_encode s := rfl
  decode_of_writes h := by
    cases h
    rfl

def truth : Coding Bool where
  Writes b := Eq (bool b)
  encode := bool
  decode := bool?
  not_null b h := by cases h
  writes_encode b := rfl
  decode_of_writes h := by
    cases h
    rfl

/-- The cases of an enumeration, each written as its word. -/
def enumeration (all : List α) (word : α → String) (other : α)
    (h : ∀ a, (all.find? (word · == word a)).getD other = a) : Coding α where
  Writes a := Eq (string (word a))
  encode a := string (word a)
  decode := openCase? all word other
  not_null a hnull := by cases hnull
  writes_encode a := rfl
  decode_of_writes := by
    rintro a j rfl
    exact congrArg some (h a)

theorem mapM_of_writes {as : List α} {items : List Json}
    (h : List.Forall₂ coding.Writes as items) : items.mapM coding.decode = some as := by
  induction h with
  | nil => rfl
  | cons hj _ ih =>
    rw [List.mapM_cons, coding.decode_of_writes hj, ih]
    rfl

def list : Coding (List α) where
  Writes as j := ∃ items, j = array items ∧ List.Forall₂ coding.Writes as items
  encode as := array (as.map coding.encode)
  decode := list? coding.decode
  not_null as h := by
    obtain ⟨items, h, _⟩ := h
    cases h
  writes_encode as := by
    refine ⟨_, rfl, List.forall₂_map_right_iff.mpr (List.forall₂_same.mpr ?_)⟩
    exact fun a _ => coding.writes_encode a
  decode_of_writes := by
    rintro as j ⟨items, rfl, hitems⟩
    exact coding.mapM_of_writes hitems

/-- The records that are written in a form. -/
def ofForm (form : α → RecordForm) (names : List String) (decode : Json → Option α)
    (hnames : ∀ a, (form a).names = names) (hnodup : names.Nodup) (hsound : ∀ a, (form a).Sound)
    (hdecode : ∀ {a j}, (form a).Writes j → decode j = some a) : Coding α where
  Writes a := (form a).Writes
  encode a := object (form a).fields
  decode := decode
  not_null a h := by cases h
  writes_encode a := (hsound a).writes_object (hnames a ▸ hnodup)
  decode_of_writes := hdecode

end Coding

/-! ## Reading a form -/

namespace Fields

variable {α β : Type}

/-- From values that may be written for the fields of a form, the fields read one record. -/
def Reads (fields : Fields α) (form : RecordForm) (a : α) : Prop :=
  ∀ values rest, form.FillsIn values → fields (values.map .value ++ rest) = some (a, rest)

theorem reads_pure (a : α) : Reads (pure a) [] a := by
  intro values rest hvalues
  cases hvalues
  rfl

theorem run_bind {fields : Fields α} {slots rest : List Slot} {a : α}
    (h : fields slots = some (a, rest)) (next : α → Fields β) :
    (fields >>= next) slots = next a rest := by
  change (fields slots).bind (fun p => next p.1 p.2) = _
  rw [h]
  rfl

theorem Reads.bind {fields : Fields α} {f : FieldForm} {a : α} {next : α → Fields β}
    {form : RecordForm} {b : β} (hfields : Reads fields [f] a) (hnext : Reads (next a) form b) :
    Reads (fields >>= next) (f :: form) b := by
  intro values rest hvalues
  cases hvalues with
  | @cons _ j _ values hj hvalues =>
    have hfirst : fields (.value j :: (values.map .value ++ rest)) = some (a, _) :=
      hfields [j] _ (.cons hj .nil)
    rw [List.map_cons, List.cons_append, run_bind hfirst]
    exact hnext values rest hvalues

theorem run_decode {decode : Json → Option α} {j : Json} {a : α} (h : decode j = some a)
    (rest : List Slot) : (decode j : Fields α) rest = some (a, rest) := by
  change (decode j).bind (fun a => some (a, rest)) = _
  rw [h]
  rfl

theorem reads_field {fields : Fields α} {f : FieldForm} {a : α}
    (h : ∀ j rest, f.Writes j → fields (.value j :: rest) = some (a, rest)) :
    Reads fields [f] a := by
  intro values rest hvalues
  cases hvalues with
  | cons hj hnil =>
    cases hnil
    exact h _ rest hj

variable (coding : Coding α) (name : String)

theorem reads_required (a : α) : Reads (required coding.decode) [coding.field name a] a :=
  reads_field fun _ rest h => run_decode (coding.decode_of_writes h) rest

theorem reads_defaulted (default a : α) :
    Reads (defaulted default coding.decode) [coding.field name a] a :=
  reads_field fun _ rest h => run_decode (coding.decode_of_writes h) rest

theorem reads_optional (a? : Option α) :
    Reads (optional coding.decode) [coding.optionalField name a?] a? :=
  reads_field fun _ rest h => run_decode (coding.nullable_of_writesOption h) rest

/-- The fields of a record may be followed by others that are not read. -/
theorem Reads.record_append {fields : Fields α} {form : RecordForm} {a : α}
    (h : Reads fields form a) (more : RecordForm) {j : Json} (hj : (form ++ more).Writes j) :
    record (form ++ more).names fields j = some a := by
  obtain ⟨values, hvalues, hslots⟩ := hj.exists_values
  have hform : form.FillsIn (values.take form.length) := by
    have htake := List.forall₂_take form.length hvalues
    rwa [List.take_left] at htake
  have hread := h _ ((values.drop form.length).map .value) hform
  rw [← List.map_append, List.take_append_drop] at hread
  rw [record, hslots, Option.bind_some, StateT.run, hread, Option.map_some]

theorem Reads.record {fields : Fields α} {form : RecordForm} {a : α} (h : Reads fields form a)
    {j : Json} (hj : form.Writes j) : Json.record form.names fields j = some a := by
  have hmore := h.record_append [] (j := j)
  rw [List.append_nil] at hmore
  exact hmore hj

end Fields

end DesignComponents.Json
