import DesignComponents.Component.File
import DesignComponents.Conversion.Walk
import DesignComponents.Design.NodeId

/-!
# From a design to a component

The three depths of the work: a design is converted to an element, the element rendered as a
file, the file written to the store of components. Whatever fails ends the work there, so that a
file is written only when everything before it went well.
-/

namespace DesignComponents

structure Source where
  document : (fileKey id : String) → Except Failure Node
  image : (fileKey id : String) → Fetch

structure Options where
  framework : Framework
  extension : String
  reuse : Bool
  nameOverride : Option String
  deriving DecidableEq, Repr

namespace Options

/-- Components are reused where the framework lets a file import them. -/
def reuseFor (o : Options) (rootName : String) (catalogue : Catalogue) : Option Reuse :=
  if o.reuse && o.framework.importsComponents then some ⟨rootName, o.extension, catalogue⟩
  else none

/-- The name asked for, unless it is blank; else the name of the design. -/
def nameFor (o : Options) (own : String) : String :=
  match o.nameOverride with
  | some name => if (trimBlanks name.toList).isEmpty then own else componentName name
  | none => own

end Options

structure Conversion where
  name : String
  element : Option Element
  imports : List String

namespace Conversion

def markup (f : Framework) (c : Conversion) : String := (c.element.map (·.markup f)).getD ""

/-- Converts a root that was fetched; the things asked for on the way. -/
def ofRoot (source : Source) (o : Options) (catalogue : Catalogue) (fileKey : String)
    (root : Node) : Conversion × List Call :=
  let root := root.inReadingOrder
  let name := componentName root.layer.displayName
  let walk : Walk := ⟨fileKey, o.reuseFor name catalogue, source.image fileKey⟩
  let (task, ledger) := walk.start root .empty
  (⟨name, task.finish, ledger.imports.names⟩, ledger.calls)

def ofLink (source : Source) (o : Options) (catalogue : Catalogue) (fileKey id : String) :
    Except Failure Conversion × List Call :=
  let asked := Call.document fileKey (nodeId id)
  match source.document fileKey (nodeId id) with
  | .error e => (.error e, [asked])
  | .ok root =>
    let (conversion, calls) := ofRoot source o catalogue fileKey root
    (.ok conversion, asked :: calls)

end Conversion

structure Component where
  framework : Framework
  extension : String
  file : ComponentFile
  imports : List String
  deriving DecidableEq, Repr

namespace Component

def ofConversion (o : Options) (c : Conversion) : Component :=
  { framework := o.framework
    extension := o.extension
    file := o.framework.componentFile (o.nameFor c.name) (c.markup o.framework) c.imports
      o.extension
    imports := c.imports }

def render (source : Source) (o : Options) (catalogue : Catalogue) (fileKey id : String) :
    Except Failure Component × List Call :=
  let (result, calls) := Conversion.ofLink source o catalogue fileKey id
  (result.map (ofConversion o), calls)

end Component

structure Store (σ : Type) where
  holds : σ → Framework → (name extension : String) → Bool
  write : σ → Framework → ComponentFile → Except Failure String × σ

namespace Store

variable {σ : Type}

/-- What a store holds stays the same while nothing is written. -/
def catalogue (store : Store σ) (s : σ) (o : Options) : Catalogue :=
  fun _ name => store.holds s o.framework name o.extension

def create (store : Store σ) (source : Source) (o : Options) (fileKey id : String) (s : σ) :
    Except Failure (Component × String) × List Call × σ :=
  match Component.render source o (store.catalogue s o) fileKey id with
  | (.error e, calls) => (.error e, calls, s)
  | (.ok component, calls) =>
    let (written, s) := store.write s o.framework component.file
    (written.map (component, ·), calls ++ [.write component.file.path], s)

end Store

abbrev Shelf := List String

namespace Shelf

def store : Store Shelf where
  holds shelf f name extension := shelf.contains (f.filePath name extension)
  write shelf _ file :=
    (.ok (Path.join "store" file.path),
      if shelf.contains file.path then shelf else shelf ++ [file.path])

end Shelf

end DesignComponents
