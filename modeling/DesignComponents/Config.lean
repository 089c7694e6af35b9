import DesignComponents.Api.Image
import DesignComponents.Duration
import DesignComponents.Framework
import DesignComponents.Path
import DesignComponents.Toml.Reader
import DesignComponents.Url.Read

/-!
# Configuration

Where components live, how images are rendered and how the design service is reached. Every
setting has a value of its own when the text of a configuration leaves it out; what the values
mean together is checked afterwards.
-/

namespace DesignComponents

structure Config where
  componentsDir : String
  angularAppDir : String
  reuseComponents : Bool
  apiBaseUrl : String
  image : ImageOptions
  requestTimeout : Duration
  deriving DecidableEq

structure InvalidSetting where
  field : String
  text : String
  deriving DecidableEq, Repr

def InvalidSetting.message (e : InvalidSetting) : String := e.field ++ ": " ++ e.text

namespace Config

def standard : Config :=
  { componentsDir := "src/components"
    angularAppDir := "src/app"
    reuseComponents := true
    apiBaseUrl := "https://api.figma.com/v1"
    image := .standard
    requestTimeout := .ofSeconds 30 }

/-! ## Decoding -/

/-- The values of the named fields, if the value has fields: a table by their names, a row by
their order. A moment has none of them. -/
def fields? (names : List String) : Toml → Option (List (Option Toml))
  | .table _ entries => some (names.map fun name => Toml.find? name entries)
  | .array items => some ((names.zipIdx).map fun (_, i) => items[i]?)
  | .tables rows => some ((names.zipIdx).map fun (_, i) => (rows[i]?).map (Toml.table .header))
  | .moment => some (names.map fun _ => none)
  | _ => none

def setting {α : Type} (own : α) (decode : Toml → Option α) : Option Toml → Option α
  | some t => decode t
  | none => some own

def string? : Toml → Option String
  | .string s => some s
  | _ => none

def bool? : Toml → Option Bool
  | .bool b => some b
  | _ => none

def single? : Toml → Option Single
  | .integer n => some (Binary.ofInt .single n)
  | .float x => some (x.convert .single)
  | _ => none

def isHollow : Toml → Bool
  | .table _ [] | .array [] | .tables [] => true
  | _ => false

/-- A format is named by a string, or by the only key of a table with nothing behind it. -/
def format? : Toml → Option ImageFormat
  | .string w => ImageFormat.ofWord? w
  | .table _ [(w, v)] => if isHollow v then ImageFormat.ofWord? w else none
  | _ => none

def image? (t : Toml) : Option ImageOptions := do
  match ← fields? ["format", "scale"] t with
  | [format, scale] =>
    let format ← setting standard.image.format format? format
    let scale ← setting standard.image.scale single? scale
    some ⟨format, scale⟩
  | _ => none

def timeout? (t : Toml) : Option Duration := do
  match ← fields? ["request"] t with
  | [request] =>
    setting standard.requestTimeout (fun t => (string? t).bind Duration.read?) request
  | _ => none

def read? (text : String) : Option Config := do
  let entries ← Toml.read? text
  let field {α : Type} (name : String) (own : α) (decode : Toml → Option α) : Option α :=
    setting own decode (Toml.find? name entries)
  some
    { componentsDir := ← field "components_dir" standard.componentsDir string?
      angularAppDir := ← field "angular_app_dir" standard.angularAppDir string?
      reuseComponents := ← field "reuse_components" standard.reuseComponents bool?
      apiBaseUrl := ← field "api_base_url" standard.apiBaseUrl string?
      image := ← field "image" standard.image image?
      requestTimeout := ← field "timeouts" standard.requestTimeout timeout? }

/-! ## Checks -/

/-- The checks in order; the first fault is reported. -/
def validate (c : Config) : Except InvalidSetting Unit := do
  if c.image.scale.isNaN || c.image.scale.le 0 then
    throw ⟨"image.scale", "must be greater than 0 (got " ++ c.image.scale.plain ++ ")"⟩
  if c.componentsDir.isEmpty then throw ⟨"components_dir", "must not be empty"⟩
  if c.angularAppDir.isEmpty then throw ⟨"angular_app_dir", "must not be empty"⟩
  match Url.read c.apiBaseUrl with
  | .error e => throw ⟨"api_base_url", e.message⟩
  | .ok _ => pure ()
  if c.requestTimeout.isZero then throw ⟨"timeouts.request", "must be greater than 0"⟩

def componentRoot (c : Config) (projectDir : String) (f : Framework) : String :=
  match f with
  | .angular => Path.join projectDir c.angularAppDir
  | _ => Path.join projectDir c.componentsDir

end Config

end DesignComponents
