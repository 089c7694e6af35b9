import DesignComponents.Report.Outcome
import DesignComponents.Proofs.Json.Layouts
import DesignComponents.Proofs.Json.Omissions

/-!
# Reports are read again

Whoever reads a report, as a value or as a text in either layout, has what the command said: the
fields that a creation left out are absent again, and no two reports are written alike.
-/

namespace DesignComponents

open Json Json.Fields

/-! ## What reports are made of -/

namespace Framework

theorem ofJson?_toJson (f : Framework) : ofJson? f.toJson = some f := by
  cases f <;> decide

def coding : Coding Framework := .exact toJson ofJson? (fun _ => nofun) ofJson?_toJson

end Framework

namespace FailureCategory

def coding : Coding FailureCategory :=
  .exact (fun c => string c.word) (case? all word) (fun _ => nofun) fun c => by cases c <;> decide

end FailureCategory

theorem present_eq {α : Type} (name : String) (encode : α → Json) (a? : Option α) :
    present name encode a? = Entries.given [(name, a?.map encode)] := by
  cases a? <;> rfl

theorem orNull_eq {α : Type} (encode : α → Json) (a? : Option α) :
    orNull encode a? = nullOr encode a? := by
  cases a? <;> rfl

theorem verbal_text (s : String) : (Coding.text.encode s).Verbal 1 := .string 1 s

theorem verbal_truth (b : Bool) : (Coding.truth.encode b).Verbal 1 := .bool 1 b

theorem verbal_texts (texts : List String) : (array (texts.map string)).Verbal 1 := by
  apply Verbal.array
  intro j hj
  obtain ⟨s, _, rfl⟩ := List.mem_map.mp hj
  exact .string 0 s

theorem verbal_nullOr {α : Type} {encode : α → Json} (h : ∀ a, (encode a).Verbal 1)
    (a? : Option α) : (nullOr encode a?).Verbal 1 := by
  cases a? with
  | none => exact .null 1
  | some a => exact h a

namespace DesignReference

def entries (r : DesignReference) : Entries :=
  [Coding.text.entry "fileKey" (some r.fileKey), Coding.text.entry "nodeId" (some r.nodeId)]

theorem nodup_names (r : DesignReference) : r.entries.names.Nodup := by
  change ["fileKey", "nodeId"].Nodup
  decide

theorem ofJson?_toJson (r : DesignReference) : ofJson? r.toJson = some r :=
  record_given r.nodup_names <|
    .bind (Coding.text.takes_required r.fileKey) <|
    .bind (Coding.text.takes_required r.nodeId) <| takes_pure r

theorem verbal_toJson (r : DesignReference) : r.toJson.Verbal 1 := by
  apply Verbal.object
  intro field hfield
  rcases List.mem_cons.mp hfield with rfl | hfield
  · exact .string 0 r.fileKey
  · rw [List.mem_singleton.mp hfield]
    exact .string 0 r.nodeId

def coding : Coding DesignReference := .exact toJson ofJson? (fun _ => nofun) ofJson?_toJson

end DesignReference

namespace Creation

def givenImports (c : Creation) : Option (List String) :=
  if c.imports.isEmpty then none else some c.imports

theorem getD_givenImports (c : Creation) : c.givenImports.getD [] = c.imports := by
  unfold givenImports
  split
  · rename_i hempty
    exact (List.isEmpty_iff.mp hempty).symm
  · rfl

theorem isSome_givenImports (c : Creation) : c.givenImports.isSome = !c.imports.isEmpty := by
  unfold givenImports
  cases c.imports.isEmpty <;> rfl

def entries (c : Creation) : Entries :=
  [Coding.text.entry "version" (some c.version),
    DesignReference.coding.entry "input" (some c.design),
    Framework.coding.entry "framework" (some c.framework),
    Coding.text.entry "extension" (some c.extension),
    Coding.text.entry "componentName" (some c.componentName),
    Coding.text.entry "outputPath" c.outputPath,
    Coding.text.list.entry "imports" c.givenImports,
    Coding.text.entry "scaffold" c.scaffold,
    Coding.truth.entry "dryRun" (some c.dryRun),
    Coding.text.entry "code" c.code]

theorem toFields_eq (c : Creation) : c.toFields = c.entries.given := by
  have hentries : c.entries.given =
      Entries.given (c.entries.take 5) ++ Entries.given ((c.entries.drop 5).take 1) ++
        Entries.given ((c.entries.drop 6).take 1) ++ Entries.given ((c.entries.drop 7).take 1) ++
        Entries.given ((c.entries.drop 8).take 1) ++ Entries.given (c.entries.drop 9) := by
    simp only [← Entries.given_append]
    rfl
  have himports : (if c.imports.isEmpty then [] else [("imports", array (c.imports.map string))]) =
      Entries.given [Coding.text.list.entry "imports" c.givenImports] := by
    unfold givenImports
    split <;> rfl
  rw [toFields, himports, present_eq, present_eq, present_eq, hentries]
  rfl

theorem nodup_names (c : Creation) : c.entries.names.Nodup := by
  change fieldNames.Nodup
  decide

theorem ofJson?_toFields (c : Creation) : ofJson? (object c.toFields) = some c := by
  have himports := Coding.text.list.takes_defaulted [] c.givenImports
  rw [getD_givenImports] at himports
  rw [toFields_eq]
  exact record_given c.nodup_names <|
    .bind (Coding.text.takes_required c.version) <|
    .bind (DesignReference.coding.takes_required c.design) <|
    .bind (Framework.coding.takes_required c.framework) <|
    .bind (Coding.text.takes_required c.extension) <|
    .bind (Coding.text.takes_required c.componentName) <|
    .bind (Coding.text.takes_optional c.outputPath) <|
    .bind himports <|
    .bind (Coding.text.takes_optional c.scaffold) <|
    .bind (Coding.truth.takes_required c.dryRun) <|
    .bind (Coding.text.takes_optional c.code) <| takes_pure c

/-- Whether there is something to write in a field. -/
def gives (c : Creation) : (name : String) → Bool
  | "outputPath" => c.outputPath.isSome
  | "imports" => !c.imports.isEmpty
  | "scaffold" => c.scaffold.isSome
  | "code" => c.code.isSome
  | _ => true

/-- The fields with something to write are written, in their order. -/
theorem names_toFields (c : Creation) : c.toFields.map (·.1) = fieldNames.filter c.gives := by
  have hgives : ∀ entry ∈ c.entries, entry.2.isSome = c.gives entry.1 := by
    simp [entries, Coding.entry, gives, isSome_givenImports]
  rw [toFields_eq, Entries.names_given, List.filter_congr hgives]
  change _ = (c.entries.map (·.1)).filter c.gives
  rw [List.filter_map]
  rfl

theorem verbal_toFields (c : Creation) : ∀ field ∈ c.toFields, field.2.Verbal 1 := by
  have hdesign : ∀ r, (DesignReference.coding.encode r).Verbal 1 := DesignReference.verbal_toJson
  have hframework : ∀ f, (Framework.coding.encode f).Verbal 1 := fun f => .string 1 f.word
  have himports : ∀ names, (Coding.text.list.encode names).Verbal 1 := verbal_texts
  rw [toFields_eq]
  apply Entries.forall_mem_given
  simp only [entries, List.forall_mem_cons]
  exact ⟨Coding.forall_mem_entry verbal_text, Coding.forall_mem_entry hdesign,
    Coding.forall_mem_entry hframework, Coding.forall_mem_entry verbal_text,
    Coding.forall_mem_entry verbal_text, Coding.forall_mem_entry verbal_text,
    Coding.forall_mem_entry himports, Coding.forall_mem_entry verbal_text,
    Coding.forall_mem_entry verbal_truth, Coding.forall_mem_entry verbal_text,
    List.forall_mem_nil _⟩

end Creation

namespace Detection

def entries (d : Detection) : Entries :=
  [Coding.text.entry "version" (some d.version),
    Coding.text.entry "projectDir" (some d.projectDir),
    ("framework", some (nullOr Framework.coding.encode d.framework)),
    ("extension", some (nullOr Coding.text.encode d.extension)),
    Coding.truth.entry "typescript" (some d.typescript)]

theorem toFields_eq (d : Detection) : d.toFields = d.entries.given := by
  rw [toFields, orNull_eq, orNull_eq]
  rfl

theorem nodup_names (d : Detection) : d.entries.names.Nodup := by
  change fieldNames.Nodup
  decide

theorem ofJson?_toFields (d : Detection) : ofJson? (object d.toFields) = some d := by
  rw [toFields_eq]
  exact record_given d.nodup_names <|
    .bind (Coding.text.takes_required d.version) <|
    .bind (Coding.text.takes_required d.projectDir) <|
    .bind (Framework.coding.takes_nullOr d.framework) <|
    .bind (Coding.text.takes_nullOr d.extension) <|
    .bind (Coding.truth.takes_required d.typescript) <| takes_pure d

theorem names_toFields (d : Detection) : d.toFields.map (·.1) = fieldNames := rfl

theorem verbal_toFields (d : Detection) : ∀ field ∈ d.toFields, field.2.Verbal 1 := by
  have hframework : ∀ f, (Framework.coding.encode f).Verbal 1 := fun f => .string 1 f.word
  rw [toFields, orNull_eq, orNull_eq]
  simp only [List.forall_mem_cons]
  exact ⟨.string 1 _, .string 1 _, verbal_nullOr hframework _, verbal_nullOr verbal_text _,
    .bool 1 _, List.forall_mem_nil _⟩

end Detection

namespace Outcome

/-- The mode in front of the fields says which record they make. -/
theorem ofRecord?_cons_mode {fields : List (String × Json)} (h : modeField ∉ fields.map (·.1))
    (mode : String) :
    ofRecord? (object ((modeField, string mode) :: fields)) =
      ofMode? (string mode) (object fields) := by
  have hnone : occurrences modeField fields = 0 := by
    apply List.countP_eq_zero.mpr
    intro field hfield heq
    exact h (List.mem_map.mpr ⟨field, hfield, eq_of_beq heq⟩)
  have honce : occurrences modeField ((modeField, string mode) :: fields) = 1 := by
    rw [occurrences, List.countP_cons_of_pos (by simp)]
    exact congrArg (· + 1) hnone
  have hrest : ((modeField, string mode) :: fields).filter (·.1 ≠ modeField) = fields := by
    rw [List.filter_cons_of_neg (by simp), List.filter_eq_self]
    intro field hfield
    exact decide_eq_true fun heq => h (List.mem_map.mpr ⟨field, hfield, heq⟩)
  rw [ofRecord?, if_pos honce, field?, if_pos rfl, Option.bind_some, hrest]

theorem ofRecord?_toJson (o : Outcome) : ofRecord? o.toJson = some o := by
  cases o with
  | create c =>
    have hmode : modeField ∉ c.toFields.map (·.1) := by
      rw [Creation.names_toFields]
      exact fun hmem => absurd (List.mem_of_mem_filter hmem) (by decide)
    rw [toJson, ofRecord?_cons_mode hmode, ofMode?, if_pos rfl, c.ofJson?_toFields,
      Option.map_some]
  | detect d =>
    have hmode : modeField ∉ d.toFields.map (·.1) := by
      rw [Detection.names_toFields]
      decide
    rw [toJson, ofRecord?_cons_mode hmode, ofMode?, if_neg (by decide), if_pos rfl,
      d.ofJson?_toFields, Option.map_some]

theorem verbal_toJson (o : Outcome) : o.toJson.Verbal 2 := by
  cases o with
  | create c =>
    apply Verbal.object
    exact List.forall_mem_cons.mpr ⟨.string 1 createMode, c.verbal_toFields⟩
  | detect d =>
    apply Verbal.object
    exact List.forall_mem_cons.mpr ⟨.string 1 detectMode, d.verbal_toFields⟩

theorem ofJson?_toJson (o : Outcome) : ofJson? o.toJson = some o := by
  rw [ofJson?, if_pos o.verbal_toJson.isSound_eq, ofRecord?_toJson]

end Outcome

namespace Complaint

def details (c : Complaint) : Entries :=
  [FailureCategory.coding.entry "category" (some c.category),
    Coding.text.entry "message" (some c.message), Coding.text.entry "remediation" c.remedy]

def entries (c : Complaint) : Entries :=
  [Coding.text.entry "version" (some c.version), ("error", some (object c.details.given))]

theorem toJson_eq (c : Complaint) : c.toJson = object c.entries.given := by
  have hdetails : c.details.given =
      Entries.given (c.details.take 2) ++ Entries.given (c.details.drop 2) := by
    rw [← Entries.given_append]
    rfl
  rw [toJson, present_eq, entries, hdetails]
  rfl

theorem nodup_details (c : Complaint) : c.details.names.Nodup := by
  change ["category", "message", "remediation"].Nodup
  decide

theorem nodup_entries (c : Complaint) : c.entries.names.Nodup := by
  change ["version", "error"].Nodup
  decide

theorem detailsOfJson?_details (c : Complaint) :
    detailsOfJson? c.version (object c.details.given) = some c :=
  record_given c.nodup_details <|
    .bind (FailureCategory.coding.takes_required c.category) <|
    .bind (Coding.text.takes_required c.message) <|
    .bind (Coding.text.takes_optional c.remedy) <| takes_pure c

theorem ofJson?_toJson (c : Complaint) : ofJson? c.toJson = some c := by
  have herror : Takes (required some) [.value (object c.details.given)] (object c.details.given) :=
    takes_required rfl
  have hrecord : record ["version", "error"] (do
      let version ← required string?
      let details ← required some
      pure (version, details)) (object c.entries.given) =
        some (c.version, object c.details.given) :=
    record_given c.nodup_entries <|
      .bind (Coding.text.takes_required c.version) <| .bind herror <| takes_pure _
  rw [toJson_eq, ofJson?, hrecord]
  exact c.detailsOfJson?_details

theorem verbal_toJson (c : Complaint) : c.toJson.Verbal 2 := by
  have hcategory : ∀ k, (FailureCategory.coding.encode k).Verbal 0 := fun k => .string 0 k.word
  have htext : ∀ s, (Coding.text.encode s).Verbal 0 := .string 0
  have hdetails : (object c.details.given).Verbal 1 := by
    apply Verbal.object
    apply Entries.forall_mem_given
    simp only [details, List.forall_mem_cons]
    exact ⟨Coding.forall_mem_entry hcategory, Coding.forall_mem_entry htext,
      Coding.forall_mem_entry htext, List.forall_mem_nil _⟩
  rw [toJson_eq]
  apply Verbal.object
  exact List.forall_mem_cons.mpr ⟨.string 1 c.version, List.forall_mem_singleton.mpr hdetails⟩

end Complaint

/-! ## What is read of a report -/

/-- What is written of a value gives it back, as a value or in either layout; what was read of a
value or of any text is read again from what is written of it; and different values are written
differently. -/
structure IsReadAgain {α : Type} (encode : α → Json) (decode : Json → Option α) : Prop where
  value : ∀ a, decode (encode a) = some a
  compact : ∀ a, (read? (encode a).compact).bind decode = some a
  indented : ∀ a, (read? (encode a).indented).bind decode = some a
  again : ∀ j, ((decode j).bind fun a => decode (encode a)) = decode j
  text_again : ∀ text, (((read? text).bind decode).bind fun a =>
    (read? (encode a).compact).bind decode) = (read? text).bind decode
  compact_injective : Function.Injective fun a => (encode a).compact
  indented_injective : Function.Injective fun a => (encode a).indented

theorem injective_of_read {α β : Type} {write : α → β} (read : β → Option α)
    (h : ∀ a, read (write a) = some a) : Function.Injective write := by
  intro a b hab
  have hread := h a
  rw [hab, h b] at hread
  exact (Option.some.inj hread).symm

theorem IsReadAgain.of_verbal {α : Type} {encode : α → Json} {decode : Json → Option α}
    (hverbal : ∀ a, (encode a).Verbal 2) (hvalue : ∀ a, decode (encode a) = some a) :
    IsReadAgain encode decode := by
  have hcompact : ∀ a, (read? (encode a).compact).bind decode = some a := by
    intro a
    rw [(hverbal a).read_compact (by decide), Option.bind_some, hvalue]
  have hindented : ∀ a, (read? (encode a).indented).bind decode = some a := by
    intro a
    rw [(hverbal a).read_indented (by decide), Option.bind_some, hvalue]
  let readText (text : String) : Option α := (read? text).bind decode
  refine ⟨hvalue, hcompact, hindented, ?_, ?_, injective_of_read readText hcompact,
    injective_of_read readText hindented⟩
  · intro j
    rw [funext hvalue, Option.bind_fun_some]
  · intro text
    rw [funext hcompact, Option.bind_fun_some]

/-- A complaint has no mode. -/
theorem Outcome.ofJson?_complaint (c : Complaint) : ofJson? c.toJson = none := by
  have hrecord : ofRecord? c.toJson = none := by
    rw [Complaint.toJson, ofRecord?]
    exact if_neg (by simp [occurrences, modeField])
  rw [ofJson?, hrecord, ite_self]

theorem Outcome.toJson_ne_complaint (o : Outcome) (c : Complaint) : o.toJson ≠ c.toJson := by
  intro heq
  have hread := o.ofJson?_toJson
  rw [heq, ofJson?_complaint] at hread
  cases hread

/-- Outcomes and complaints are read again from what is written of them, and neither is written
like another or like one of the other kind. A creation has just the fields in which there is
something to write, a detection has all of its fields. -/
theorem reports_are_read_again :
    IsReadAgain Outcome.toJson Outcome.ofJson? ∧
      IsReadAgain Complaint.toJson Complaint.ofJson? ∧
      (∀ (o : Outcome) (c : Complaint), o.toJson.compact ≠ c.toJson.compact) ∧
      (∀ c : Creation, c.toFields.map (·.1) = Creation.fieldNames.filter c.gives) ∧
      ∀ d : Detection, d.toFields.map (·.1) = Detection.fieldNames := by
  refine ⟨.of_verbal Outcome.verbal_toJson Outcome.ofJson?_toJson,
    .of_verbal Complaint.verbal_toJson Complaint.ofJson?_toJson, ?_, Creation.names_toFields,
    Detection.names_toFields⟩
  intro o c heq
  have hread := o.verbal_toJson.read_compact (by decide)
  rw [heq, c.verbal_toJson.read_compact (by decide)] at hread
  exact o.toJson_ne_complaint c (Option.some.inj hread).symm

end DesignComponents
