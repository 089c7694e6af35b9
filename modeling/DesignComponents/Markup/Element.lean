import DesignComponents.Markup.Fragment

/-!
# Elements

What a component shows, before it is written for a framework: a tree of images, texts, inputs,
tables and containers, with references to other components at its leaves.
-/

namespace DesignComponents

inductive Element where
  | image (address : String) (classes : ClassList)
  | imageContainer (address : String) (classes : ClassList)
  | text (content : String) (classes : ClassList)
  | label (content : String) (classes : ClassList)
  | input (placeholder : String) (classes : ClassList)
  | table (heads cells : List Element)
  | headingCell (content : List Element) (classes : ClassList)
  | dataCell (content : List Element) (classes : ClassList)
  | container (content : List Element) (classes : ClassList)
  | reference (name : String)

namespace Element

mutual

def markup (f : Framework) : Element → String
  | image address c => Markup.image f address c
  | imageContainer address c => Markup.imageContainer f address c
  | text content c => Markup.text f content c
  | label content c => Markup.label f content c
  | input placeholder c => Markup.input f placeholder c
  | table heads cells =>
    Markup.table f (Markup.tableHead f (markupOf f heads)) (Markup.tableBody f (markupOf f cells))
  | headingCell content c => Markup.headingCell f (markupOf f content) c
  | dataCell content c => Markup.dataCell f (markupOf f content) c
  | container content c => Markup.container f (markupOf f content) c
  | reference name => Markup.reference name

def markupOf (f : Framework) : List Element → String
  | [] => ""
  | e :: rest => markup f e ++ markupOf f rest

end

mutual

/-- The names of the components that the element refers to, in reading order. -/
def references : Element → List String
  | table heads cells => referencesOf heads ++ referencesOf cells
  | headingCell content _ => referencesOf content
  | dataCell content _ => referencesOf content
  | container content _ => referencesOf content
  | reference name => [name]
  | _ => []

def referencesOf : List Element → List String
  | [] => []
  | e :: rest => references e ++ referencesOf rest

end

end Element

end DesignComponents
