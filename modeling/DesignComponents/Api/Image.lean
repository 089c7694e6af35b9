import DesignComponents.Number.Text

/-!
# Images of nodes

How the design service is to render a node: in which format, and at which scale.
-/

namespace DesignComponents

inductive ImageFormat where
  | png | jpg | svg | pdf
  deriving DecidableEq, Repr

namespace ImageFormat

def word : ImageFormat → String
  | png => "png"
  | jpg => "jpg"
  | svg => "svg"
  | pdf => "pdf"

def all : List ImageFormat := [png, jpg, svg, pdf]

def ofWord? (w : String) : Option ImageFormat := all.find? (·.word == w)

end ImageFormat

structure ImageOptions where
  format : ImageFormat
  scale : Single
  deriving DecidableEq

namespace ImageOptions

def standard : ImageOptions := ⟨.png, 1⟩

end ImageOptions

end DesignComponents
