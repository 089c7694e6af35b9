import DesignComponents.Markup.Escape
import DesignComponents.Style.ClassList

/-!
# Fragments

The markup of each element of a component, from texts, addresses and classes, and from the
fragments inside it. Texts, labels, placeholders and addresses are escaped here; fragments come
in as they are.
-/

namespace DesignComponents.Markup

def attributeText (name value : String) : String := " " ++ name ++ "=\"" ++ value ++ "\""

def classes (f : Framework) (c : ClassList) : String := attributeText f.classAttribute c.text

def enclose (tag attributes content : String) : String :=
  "<" ++ tag ++ attributes ++ ">" ++ content ++ "</" ++ tag ++ ">"

def single (tag attributes : String) : String := "<" ++ tag ++ attributes ++ " />"

def image (f : Framework) (address : String) (c : ClassList) : String :=
  single "img" (attributeText "src" (escape address) ++ classes f c)

def imageContainer (f : Framework) (address : String) (c : ClassList) : String :=
  enclose "div" (classes f c) (single "img" (attributeText "src" (escape address)))

def text (f : Framework) (content : String) (c : ClassList) : String :=
  enclose "p" (classes f c) (escapeText f content)

def label (f : Framework) (content : String) (c : ClassList) : String :=
  enclose "label" (classes f c) (escapeText f content)

/-- The class of every input, which keeps the outline off it. -/
def inputClass : String := "focus:outline-none"

def input (f : Framework) (placeholder : String) (c : ClassList) : String :=
  single "input" (attributeText "type" "text" ++ attributeText "placeholder" (escape placeholder) ++
    classes f (ClassList.empty.push inputClass ++ c))

def row (f : Framework) (cells : String) : String :=
  enclose "tr" (attributeText f.classAttribute "flex") cells

def tableHead (f : Framework) (cells : String) : String := enclose "thead" "" (row f cells)

def tableBody (f : Framework) (cells : String) : String := enclose "tbody" "" (row f cells)

def table (f : Framework) (head body : String) : String :=
  enclose "div" (attributeText f.classAttribute "overflow-x-scroll") (enclose "table" "" (head ++ body))

def headingCell (f : Framework) (content : String) (c : ClassList) : String :=
  enclose "th" (classes f c) content

def dataCell (f : Framework) (content : String) (c : ClassList) : String :=
  enclose "td" (classes f c) content

def container (f : Framework) (content : String) (c : ClassList) : String :=
  enclose "div" (classes f c) content

def reference (name : String) : String := single name ""

end DesignComponents.Markup
