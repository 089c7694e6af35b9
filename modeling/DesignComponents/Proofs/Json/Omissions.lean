import Mathlib.Data.List.Nodup
import DesignComponents.Proofs.Json.Forms

/-!
# Fields that are left out

An object need not have the fields of a record that are optional or have a default. A record of
which only the fields with a value are written is read from these.
-/

namespace DesignComponents.Json

/-- The fields of a record in order, those that are left out without a value. -/
abbrev Entries := List (String × Option Json)

theorem field?_of_not_mem {name : String} {fields : List (String × Json)}
    (h : name ∉ fields.map (·.1)) : field? name fields = none := by
  induction fields with
  | nil => rfl
  | cons field fields ih =>
    obtain ⟨hne, hrest⟩ := not_or.mp (mt List.mem_cons.mpr h)
    rw [field?, if_neg (Ne.symm hne), ih hrest]

namespace Entries

def names (entries : Entries) : List String := entries.map (·.1)

/-- The fields that have a value. -/
def given (entries : Entries) : List (String × Json) :=
  entries.filterMap fun entry => entry.2.map (entry.1, ·)

def slots (entries : Entries) : List Slot := entries.map fun entry => entry.2.elim .unnamed .value

theorem given_append (entries more : Entries) :
    given (entries ++ more) = entries.given ++ more.given :=
  List.filterMap_append

theorem names_given (entries : Entries) :
    entries.given.map (·.1) = (entries.filter (·.2.isSome)).map (·.1) := by
  induction entries with
  | nil => rfl
  | cons entry entries ih =>
    obtain ⟨name, j?⟩ := entry
    cases j? with
    | none => exact ih
    | some j => exact congrArg (name :: ·) ih

theorem mem_names_of_given {entries : Entries} {name : String}
    (h : name ∈ entries.given.map (·.1)) : name ∈ entries.names := by
  rw [names_given] at h
  exact List.map_subset _ (List.filter_subset_self _) h

theorem forall_mem_given {entries : Entries} {P : Json → Prop}
    (h : ∀ entry ∈ entries, ∀ j ∈ entry.2, P j) : ∀ field ∈ entries.given, P field.2 := by
  intro field hfield
  obtain ⟨entry, hentry, hvalue⟩ := List.mem_filterMap.mp hfield
  obtain ⟨j, hj, rfl⟩ := Option.map_eq_some_iff.mp hvalue
  exact h entry hentry j hj

section

variable {entries : Entries} (h : entries.names.Nodup)
include h

theorem occurrences_given_le (name : String) : occurrences name entries.given ≤ 1 := by
  have hnodup : (entries.given.map (·.1)).Nodup := by
    rw [names_given]
    exact h.sublist (List.filter_sublist.map _)
  have hcount := List.nodup_iff_count_le_one.mp hnodup name
  rw [List.count, List.countP_map] at hcount
  exact hcount

theorem field?_given {name : String} {j? : Option Json} (hmem : (name, j?) ∈ entries) :
    field? name entries.given = j? := by
  induction entries with
  | nil => cases hmem
  | cons entry entries ih =>
    obtain ⟨hnew, hrest⟩ := List.nodup_cons.mp h
    rcases List.mem_cons.mp hmem with rfl | htail
    · cases j? with
      | none => exact field?_of_not_mem fun hgiven => hnew (mem_names_of_given hgiven)
      | some j => exact if_pos rfl
    · have hne : entry.1 ≠ name := by
        rintro rfl
        exact hnew (List.mem_map.mpr ⟨_, htail, rfl⟩)
      obtain ⟨other, k?⟩ := entry
      cases k? with
      | none => exact ih hrest htail
      | some k => exact (if_neg hne).trans (ih hrest htail)

/-- The slots of a record of which only some fields are written. -/
theorem slots?_given : slots? entries.names (object entries.given) = some entries.slots := by
  have honce : (entries.names.all fun name => decide (occurrences name entries.given ≤ 1)) = true :=
    List.all_eq_true.mpr fun name _ => decide_eq_true (occurrences_given_le h name)
  rw [slots?, if_pos honce, names, List.map_map, slots]
  refine congrArg some (List.map_congr_left fun entry hentry => ?_)
  rw [Function.comp_apply, field?_given h hentry]

end

end Entries

/-! ## Reading from slots -/

namespace Fields

variable {α β : Type}

/-- From these slots, whatever is behind them, the fields read one value. -/
def Takes (fields : Fields α) (slots : List Slot) (a : α) : Prop :=
  ∀ rest, fields (slots ++ rest) = some (a, rest)

theorem takes_pure (a : α) : Takes (pure a) [] a := fun _ => rfl

theorem Takes.bind {fields : Fields α} {s : Slot} {a : α} {next : α → Fields β}
    {slots : List Slot} {b : β} (hfields : Takes fields [s] a) (hnext : Takes (next a) slots b) :
    Takes (fields >>= next) (s :: slots) b := by
  intro rest
  have hfirst : fields (s :: (slots ++ rest)) = some (a, slots ++ rest) := hfields _
  rw [List.cons_append, run_bind hfirst]
  exact hnext rest

theorem takes_required {decode : Json → Option α} {j : Json} {a : α} (h : decode j = some a) :
    Takes (required decode) [.value j] a :=
  fun rest => run_decode h rest

theorem record_given {entries : Entries} (hnodup : entries.names.Nodup) {fields : Fields α}
    {a : α} (h : Takes fields entries.slots a) :
    Json.record entries.names fields (object entries.given) = some a := by
  have hread := h []
  rw [List.append_nil] at hread
  rw [Json.record, Entries.slots?_given hnodup, Option.bind_some, StateT.run, hread,
    Option.map_some]

end Fields

namespace Coding

open Fields

variable {α : Type} (coding : Coding α)

theorem decode_encode (a : α) : coding.decode (coding.encode a) = some a :=
  coding.decode_of_writes (coding.writes_encode a)

/-- A coding that writes a value in one way. -/
def exact (encode : α → Json) (decode : Json → Option α) (hnull : ∀ a, encode a ≠ null)
    (h : ∀ a, decode (encode a) = some a) : Coding α where
  Writes a := Eq (encode a)
  encode := encode
  decode := decode
  not_null := hnull
  writes_encode _ := rfl
  decode_of_writes := by
    rintro a _ rfl
    exact h a

/-- A field that is left out if it has no value. -/
def entry (name : String) (a? : Option α) : String × Option Json := (name, a?.map coding.encode)

variable {coding} in
theorem forall_mem_entry {P : Json → Prop} (h : ∀ a, P (coding.encode a)) {name : String}
    {a? : Option α} : ∀ j ∈ (coding.entry name a?).2, P j := by
  intro j hj
  obtain ⟨a, _, rfl⟩ := Option.map_eq_some_iff.mp hj
  exact h a

theorem takes_required (a : α) : Takes (required coding.decode) [.value (coding.encode a)] a :=
  Fields.takes_required (coding.decode_encode a)

theorem takes_optional (a? : Option α) :
    Takes (optional coding.decode) [(a?.map coding.encode).elim .unnamed .value] a? := by
  cases a? with
  | none => exact fun _ => rfl
  | some a =>
    have hread := coding.nullable_of_writesOption (coding.writesOption_nullOr (some a))
    exact fun rest => run_decode hread rest

theorem takes_nullOr (a? : Option α) :
    Takes (optional coding.decode) [.value (nullOr coding.encode a?)] a? :=
  fun rest => run_decode (coding.nullable_of_writesOption (coding.writesOption_nullOr a?)) rest

theorem takes_defaulted (default : α) (a? : Option α) :
    Takes (defaulted default coding.decode) [(a?.map coding.encode).elim .unnamed .value]
      (a?.getD default) := by
  cases a? with
  | none => exact fun _ => rfl
  | some a => exact fun rest => run_decode (coding.decode_encode a) rest

end Coding

end DesignComponents.Json
