import DesignComponents.Proofs.Json.Spellings

/-!
# Both layouts are read again

The compact and the indented text of a value are spellings of it. Values without numbers are
therefore read from either as they were, if they are not nested too deep.
-/

namespace DesignComponents.Json

/-! ## Values without numbers -/

/-- Texts, truth values and nulls, in at most so many arrays and objects. -/
inductive Verbal : (levels : Nat) → Json → Prop
  | null (levels : Nat) : Verbal levels null
  | bool (levels : Nat) (b : Bool) : Verbal levels (bool b)
  | string (levels : Nat) (s : String) : Verbal levels (string s)
  | array {levels : Nat} {items : List Json} :
      (∀ j ∈ items, Verbal levels j) → Verbal (levels + 1) (array items)
  | object {levels : Nat} {fields : List (String × Json)} :
      (∀ field ∈ fields, Verbal levels field.2) → Verbal (levels + 1) (object fields)

theorem cutItems_eq_map (levels : Nat) (items : List Json) :
    cutItems levels items = items.map (cut levels) := by
  induction items with
  | nil => rw [cutItems, List.map_nil]
  | cons j items ih => rw [cutItems, ih, List.map_cons]

theorem cutFields_eq_map (levels : Nat) (fields : List (String × Json)) :
    cutFields levels fields = fields.map fun field => (field.1, field.2.cut levels) := by
  induction fields with
  | nil => rw [cutFields, List.map_nil]
  | cons field fields ih =>
    obtain ⟨name, j⟩ := field
    rw [cutFields, ih, List.map_cons]

theorem Verbal.cut_eq {levels : Nat} {j : Json} (h : j.Verbal levels) {n : Nat}
    (hn : levels ≤ n) : j.cut n = j := by
  induction h generalizing n with
  | null | bool | string => cases n <;> rfl
  | @array levels items _ ih =>
    obtain ⟨n, rfl⟩ := Nat.exists_eq_add_of_lt (Nat.lt_of_succ_le hn)
    rw [Json.cut, cutItems_eq_map, List.map_congr_left fun j hj => ih j hj (by omega),
      List.map_id']
  | @object levels fields _ ih =>
    obtain ⟨n, rfl⟩ := Nat.exists_eq_add_of_lt (Nat.lt_of_succ_le hn)
    have hfields : ∀ field ∈ fields, (field.1, field.2.cut (levels + n)) = field := by
      intro field hfield
      rw [ih field hfield (by omega)]
    rw [Json.cut, cutFields_eq_map, List.map_congr_left hfields, List.map_id']

theorem areSound_of_forall {items : List Json} (h : ∀ j ∈ items, j.isSound = true) :
    areSound items = true := by
  induction items with
  | nil => rfl
  | cons j items ih =>
    obtain ⟨hj, hitems⟩ := List.forall_mem_cons.mp h
    rw [areSound, hj, ih hitems]
    rfl

theorem areSoundFields_of_forall {fields : List (String × Json)}
    (h : ∀ field ∈ fields, field.2.isSound = true) : areSoundFields fields = true := by
  induction fields with
  | nil => rfl
  | cons field fields ih =>
    obtain ⟨hfield, hfields⟩ := List.forall_mem_cons.mp h
    rw [areSoundFields, hfield, ih hfields]
    rfl

theorem Verbal.isSound_eq {levels : Nat} {j : Json} (h : j.Verbal levels) : j.isSound = true := by
  induction h with
  | null | bool | string => rfl
  | array _ ih =>
    rw [isSound]
    exact areSound_of_forall ih
  | object _ ih =>
    rw [isSound]
    exact areSoundFields_of_forall ih

/-! ## Lists of items and of fields -/

section

variable {α : Type} (write : α → List Char)

/-- What is written for each, with commas between. -/
def listed (as : List α) : List Char := [','].intercalate (as.map write)

@[simp] theorem listed_singleton (a : α) : listed write [a] = write a := List.intercalate_singleton

@[simp] theorem listed_cons_cons (a b : α) (as : List α) :
    listed write (a :: b :: as) = write a ++ ',' :: listed write (b :: as) := by
  simp [listed]

end

theorem compactItems_eq (items : List Json) : compactItems items = listed compactChars items := by
  induction items with
  | nil => rfl
  | cons j items ih =>
    cases items with
    | nil => rw [compactItems, listed_singleton]
    | cons k items => simp [compactItems, ih]

theorem compactFields_eq (fields : List (String × Json)) :
    compactFields fields =
      listed (fun field => quoted field.1 ++ ':' :: compactChars field.2) fields := by
  induction fields with
  | nil => rfl
  | cons field fields ih =>
    cases fields with
    | nil => rw [compactFields, listed_singleton]
    | cons next fields => simp [compactFields, ih]

theorem indentedItems_eq (level : Nat) (items : List Json) :
    indentedItems level items = listed (fun j => newLine level ++ indentedChars level j) items := by
  induction items with
  | nil => rfl
  | cons j items ih =>
    cases items with
    | nil => rw [indentedItems, listed_singleton]
    | cons k items => simp [indentedItems, ih]

theorem indentedFields_eq (level : Nat) (fields : List (String × Json)) :
    indentedFields level fields =
      listed (fun field =>
        newLine level ++ quoted field.1 ++ ':' :: ' ' :: indentedChars level field.2) fields := by
  induction fields with
  | nil => rfl
  | cons field fields ih =>
    cases fields with
    | nil => rw [indentedFields, listed_singleton]
    | cons next fields => simp [indentedFields, ih]

theorem spaces_nil : Spaces [] := List.forall_mem_nil _

theorem spaces_newLine (level : Nat) : Spaces (newLine level) := by
  intro c hc
  rcases List.mem_cons.mp hc with rfl | hc
  · rfl
  · rw [List.eq_of_mem_replicate hc]
    rfl

/-- Items with the same space before each are spelled if each of them is. -/
theorem spellsItems_listed {items : List Json} {write : Json → List Char} {gap : List Char}
    (hgap : Spaces gap) (hne : items ≠ []) (h : ∀ j ∈ items, Spells j (write j)) :
    SpellsItems items (listed (fun j => gap ++ write j) items) := by
  induction items with
  | nil => exact absurd rfl hne
  | cons j items ih =>
    obtain ⟨hj, hitems⟩ := List.forall_mem_cons.mp h
    cases items with
    | nil =>
      rw [listed_singleton]
      exact .last hgap hj
    | cons k items =>
      have hrest := ih (List.cons_ne_nil _ _) hitems
      have hmore := SpellsItems.more hgap hj spaces_nil hrest
      rw [List.append_nil] at hmore
      rw [listed_cons_cons]
      exact hmore

theorem spellsFields_listed {fields : List (String × Json)} {write : Json → List Char}
    {gap value : List Char} (hgap : Spaces gap) (hvalue : Spaces value) (hne : fields ≠ [])
    (h : ∀ field ∈ fields, Spells field.2 (write field.2)) :
    SpellsFields fields
      (listed (fun field => gap ++ quoted field.1 ++ ':' :: (value ++ write field.2)) fields) := by
  induction fields with
  | nil => exact absurd rfl hne
  | cons field fields ih =>
    obtain ⟨name, j⟩ := field
    obtain ⟨hj, hfields⟩ := List.forall_mem_cons.mp h
    cases fields with
    | nil =>
      have hlast : SpellsFields [(name, j)]
          (gap ++ quoted name ++ [] ++ ':' :: (value ++ write j)) :=
        .last hgap spaces_nil hvalue hj
      rw [List.append_nil] at hlast
      rw [listed_singleton]
      exact hlast
    | cons next fields =>
      have hrest := ih (List.cons_ne_nil _ _) hfields
      have hmore : SpellsFields ((name, j) :: next :: fields)
          (gap ++ quoted name ++ [] ++ ':' :: (value ++ write j) ++ [] ++ ',' :: _) :=
        .more hgap spaces_nil hvalue hj spaces_nil hrest
      rw [List.append_nil, List.append_nil] at hmore
      rw [listed_cons_cons]
      exact hmore

/-! ## Layouts -/

/-- The compact text of a value without numbers is one of its spellings. -/
theorem Verbal.spells_compact {levels : Nat} {j : Json} (h : j.Verbal levels) :
    Spells j j.compactChars := by
  induction h with
  | null => exact .null
  | bool levels b => cases b with
    | false => exact .no
    | true => exact .yes
  | string levels s => exact .string s
  | @array levels items _ ih =>
    cases items with
    | nil => exact .emptyArray spaces_nil
    | cons j items =>
      have hitems := spellsItems_listed spaces_nil (List.cons_ne_nil _ _) ih
      have harray := Spells.array hitems spaces_nil
      rw [List.append_nil] at harray
      rw [compactChars, compactItems_eq]
      exact harray
  | @object levels fields _ ih =>
    cases fields with
    | nil => exact .emptyObject spaces_nil
    | cons field fields =>
      have hfields := spellsFields_listed spaces_nil spaces_nil (List.cons_ne_nil _ _) ih
      have hobject := Spells.object hfields spaces_nil
      rw [List.append_nil] at hobject
      rw [compactChars, compactFields_eq]
      exact hobject

theorem Verbal.spells_indented {levels : Nat} {j : Json} (h : j.Verbal levels) (level : Nat) :
    Spells j (j.indentedChars level) := by
  induction h generalizing level with
  | null => exact .null
  | bool levels b => cases b with
    | false => exact .no
    | true => exact .yes
  | string levels s => exact .string s
  | @array levels items _ ih =>
    cases items with
    | nil => exact .emptyArray spaces_nil
    | cons j items =>
      have hitems := spellsItems_listed (spaces_newLine (level + 1)) (List.cons_ne_nil _ _)
        fun j hj => ih j hj (level + 1)
      rw [indentedChars, indentedItems_eq]
      · exact .array hitems (spaces_newLine level)
      · exact List.cons_ne_nil _ _
  | @object levels fields _ ih =>
    cases fields with
    | nil => exact .emptyObject spaces_nil
    | cons field fields =>
      have hblank : Spaces [' '] := by simp [Spaces, isSpace]
      have hfields := spellsFields_listed (spaces_newLine (level + 1)) hblank
        (List.cons_ne_nil _ _) fun field hfield => ih field hfield (level + 1)
      rw [indentedChars, indentedFields_eq]
      · exact .object hfields (spaces_newLine level)
      · exact List.cons_ne_nil _ _

theorem Verbal.read_compact {levels : Nat} {j : Json} (h : j.Verbal levels)
    (hlevels : levels ≤ deepest) : read? j.compact = some j := by
  have hread := read?_of_spells h.spells_compact spaces_nil spaces_nil
  rw [List.append_nil, List.nil_append, h.cut_eq hlevels] at hread
  exact hread

theorem Verbal.read_indented {levels : Nat} {j : Json} (h : j.Verbal levels)
    (hlevels : levels ≤ deepest) : read? j.indented = some j := by
  have hread := read?_of_spells (h.spells_indented 0) spaces_nil spaces_nil
  rw [List.append_nil, List.nil_append, h.cut_eq hlevels] at hread
  exact hread

end DesignComponents.Json
