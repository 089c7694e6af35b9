import DesignComponents.Failure
import DesignComponents.Framework
import DesignComponents.Json.Record

/-!
# Reports

What a command says of its work: the component it created, the target it detected, or why it
failed. A report is a JSON record; the two kinds of success are told apart by the field `mode`,
and a field without a value is left out of a creation but null in a detection.
-/

namespace DesignComponents

open Json Json.Fields

def reportVersion : String := "0.1.0"

structure DesignReference where
  fileKey : String
  nodeId : String
  deriving DecidableEq, Repr

structure Creation where
  version : String
  design : DesignReference
  framework : Framework
  extension : String
  componentName : String
  outputPath : Option String
  imports : List String
  scaffold : Option String
  dryRun : Bool
  code : Option String
  deriving DecidableEq, Repr

structure Detection where
  version : String
  projectDir : String
  framework : Option Framework
  extension : Option String
  typescript : Bool
  deriving DecidableEq, Repr

inductive Outcome where
  | create (c : Creation)
  | detect (d : Detection)
  deriving DecidableEq, Repr

structure Complaint where
  version : String
  category : FailureCategory
  message : String
  remedy : Option String
  deriving DecidableEq, Repr

def present {α : Type} (name : String) (encode : α → Json) : Option α → List (String × Json)
  | some x => [(name, encode x)]
  | none => []

def orNull {α : Type} (encode : α → Json) : Option α → Json
  | some x => encode x
  | none => null

namespace Framework

def toJson (f : Framework) : Json := string f.word

def ofWord? (w : String) : Option Framework := all.find? (·.word == w)

/-- A framework is named by a string, or by the only field of an object if that is empty. -/
def ofJson? : Json → Option Framework
  | string w => ofWord? w
  | object [(w, null)] => ofWord? w
  | object [(w, object [])] => ofWord? w
  | _ => none

end Framework

namespace DesignReference

def toJson (r : DesignReference) : Json :=
  object [("fileKey", string r.fileKey), ("nodeId", string r.nodeId)]

def ofJson? : Json → Option DesignReference :=
  record ["fileKey", "nodeId"] do
    let fileKey ← required string?
    let nodeId ← required string?
    pure ⟨fileKey, nodeId⟩

end DesignReference

namespace Creation

def fieldNames : List String :=
  ["version", "input", "framework", "extension", "componentName", "outputPath", "imports",
    "scaffold", "dryRun", "code"]

def toFields (c : Creation) : List (String × Json) :=
  [("version", string c.version), ("input", c.design.toJson), ("framework", c.framework.toJson),
    ("extension", string c.extension), ("componentName", string c.componentName)] ++
  present "outputPath" string c.outputPath ++
  (if c.imports.isEmpty then [] else [("imports", array (c.imports.map string))]) ++
  present "scaffold" string c.scaffold ++
  [("dryRun", bool c.dryRun)] ++
  present "code" string c.code

def ofJson? : Json → Option Creation :=
  record fieldNames do
    let version ← required string?
    let design ← required DesignReference.ofJson?
    let framework ← required Framework.ofJson?
    let extension ← required string?
    let componentName ← required string?
    let outputPath ← optional string?
    let imports ← defaulted [] (list? string?)
    let scaffold ← optional string?
    let dryRun ← required bool?
    let code ← optional string?
    pure
      { version, design, framework, extension, componentName, outputPath, imports, scaffold,
        dryRun, code }

end Creation

namespace Detection

def fieldNames : List String := ["version", "projectDir", "framework", "extension", "typescript"]

def toFields (d : Detection) : List (String × Json) :=
  [("version", string d.version), ("projectDir", string d.projectDir),
    ("framework", orNull Framework.toJson d.framework),
    ("extension", orNull string d.extension), ("typescript", bool d.typescript)]

def ofJson? : Json → Option Detection :=
  record fieldNames do
    let version ← required string?
    let projectDir ← required string?
    let framework ← optional Framework.ofJson?
    let extension ← optional string?
    let typescript ← required bool?
    pure ⟨version, projectDir, framework, extension, typescript⟩

end Detection

namespace Outcome

def createMode : String := "create"

def detectMode : String := "detect"

def modeField : String := "mode"

def toJson : Outcome → Json
  | create c => object ((modeField, string createMode) :: c.toFields)
  | detect d => object ((modeField, string detectMode) :: d.toFields)

def ofMode? (mode body : Json) : Option Outcome :=
  match mode with
  | string m =>
    if m = createMode then (Creation.ofJson? body).map create
    else if m = detectMode then (Detection.ofJson? body).map detect
    else none
  | _ => none

/-- The mode is a field of the record, at any place but only once, or the first item of an
array. -/
def ofRecord? : Json → Option Outcome
  | object fields =>
    if occurrences modeField fields = 1 then
      (field? modeField fields).bind fun mode =>
        ofMode? mode (object (fields.filter (·.1 ≠ modeField)))
    else none
  | array (mode :: items) => ofMode? mode (array items)
  | _ => none

/-- Before the mode is known the record is taken in as a whole, so that a void is refused even in
a field that is passed over later. -/
def ofJson? (j : Json) : Option Outcome := if j.isSound then ofRecord? j else none

end Outcome

namespace Complaint

def ofFailure (e : Failure) : Complaint := ⟨reportVersion, e.category, e.message, some e.remedy⟩

def toJson (c : Complaint) : Json :=
  object
    [("version", string c.version),
      ("error", object ([("category", string c.category.word), ("message", string c.message)] ++
        present "remediation" string c.remedy))]

def detailsOfJson? (version : String) : Json → Option Complaint :=
  record ["category", "message", "remediation"] do
    let category ← required (case? FailureCategory.all FailureCategory.word)
    let message ← required string?
    let remedy ← optional string?
    pure ⟨version, category, message, remedy⟩

def ofJson? (j : Json) : Option Complaint :=
  (record ["version", "error"] do
    let version ← required string?
    let details ← required some
    pure (version, details)) j |>.bind fun (version, details) => detailsOfJson? version details

end Complaint

end DesignComponents
