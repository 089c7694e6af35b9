import DesignComponents.Json.Value

/-!
# Decoding JSON

A record is written as an object, whose unknown fields are passed over, or as the array of its
fields in order. A decoder takes the fields one after the other; each says what it does without
a value. Decoding has one failure: the value has another shape.
-/

namespace DesignComponents.Json

inductive Slot where
  | value (j : Json)
  | unnamed
  | beyond

def occurrences (name : String) (fields : List (String × Json)) : Nat :=
  fields.countP (·.1 == name)

def itemSlots : (n : Nat) → List Json → List Slot
  | 0, _ => []
  | n + 1, [] => .beyond :: itemSlots n []
  | n + 1, j :: rest => .value j :: itemSlots n rest

/-- The slots of the named fields, in order. A name that is repeated and an array that is too
long have none. -/
def slots? (names : List String) : Json → Option (List Slot)
  | object fields =>
    if names.all fun name => occurrences name fields ≤ 1 then
      some (names.map fun name => (field? name fields).elim .unnamed .value)
    else none
  | array items => if items.length ≤ names.length then some (itemSlots names.length items) else none
  | _ => none

abbrev Fields := StateT (List Slot) Option

namespace Fields

def next : Fields Slot
  | [] => none
  | s :: rest => some (s, rest)

def required {α : Type} (decode : Json → Option α) : Fields α := do
  match ← next with
  | .value j => decode j
  | _ => failure

def defaulted {α : Type} (default : α) (decode : Json → Option α) : Fields α := do
  match ← next with
  | .value j => decode j
  | _ => pure default

def nullable {α : Type} (decode : Json → Option α) : Json → Option (Option α)
  | null => some none
  | j => (decode j).map some

/-- A field that may be null or missing from an object; an array has to give it. -/
def optional {α : Type} (decode : Json → Option α) : Fields (Option α) := do
  match ← next with
  | .value j => nullable decode j
  | .unnamed => pure none
  | .beyond => failure

end Fields

def record {α : Type} (names : List String) (fields : Fields α) (j : Json) : Option α :=
  (slots? names j).bind fun slots => (fields.run slots).map (·.1)

def number? : Json → Option Double
  | integer n => some (Binary.ofInt .double n)
  | float x => some x
  | _ => none

def string? : Json → Option String
  | string s => some s
  | _ => none

def bool? : Json → Option Bool
  | bool b => some b
  | _ => none

def list? {α : Type} (decode : Json → Option α) : Json → Option (List α)
  | array items => items.mapM decode
  | _ => none

def putEntry {α : Type} (name : String) (value : α) : List (String × α) → List (String × α)
  | [] => [(name, value)]
  | (k, v) :: rest => if k = name then (k, value) :: rest else (k, v) :: putEntry name value rest

def entries? {α : Type} (decode : Json → Option α) : Json → Option (List (String × α))
  | object fields =>
    fields.foldlM (fun done (k, v) => (decode v).map fun value => putEntry k value done) []
  | _ => none

/-- The word that names a case: a string, or the only name of an object whose value is null. -/
def word? : Json → Option String
  | string s => some s
  | object [(k, null)] => some k
  | _ => none

def case? {α : Type} (cases : List α) (word : α → String) (j : Json) : Option α :=
  (word? j).bind fun w => cases.find? (word · == w)

/-- The case that a value names, where other words name the case `other`. -/
def openCase? {α : Type} (cases : List α) (word : α → String) (other : α) (j : Json) : Option α :=
  (word? j).map fun w => (cases.find? (word · == w)).getD other

end DesignComponents.Json
