import DesignComponents.Design.NodeId
import DesignComponents.Failure
import DesignComponents.Url.Query
import DesignComponents.Url.Read

/-!
# Links to designs

A link names a file by the segment of its path behind the kind of the file, and a node by a
value of its query.
-/

namespace DesignComponents

structure Link where
  fileKey : String
  nodeId : String
  deriving DecidableEq, Repr

inductive LinkError where
  | badUrl (text : String) (cause : UrlError)
  | otherSite (text : String)
  | noFileKey (text : String)
  | noNodeId (text : String)
  deriving DecidableEq, Repr

namespace LinkError

def message : LinkError → String
  | badUrl text cause =>
    "Invalid URL '" ++ text ++ "': " ++ cause.message ++
      ". Hint: include https:// and ensure the URL is well-formed."
  | otherSite text => "'" ++ text ++ "' is not a figma.com link"
  | noFileKey text =>
    "Figma URL missing file key in '" ++ text ++
      "'. Hint: use https://www.figma.com/design/<FILE_KEY>/..."
  | noNodeId text =>
    "Figma URL missing node-id in '" ++ text ++
      "'. Hint: select the frame and copy its link so it includes ?node-id=..."

def failure (e : LinkError) : Failure := .invalidLink e.message

end LinkError

namespace Link

def site : String := "figma.com"

def isSite : Url.Host → Bool
  | .name text => text == site || ('.' :: site.toList).isSuffixOf text.toList
  | _ => false

def fileKinds : List String := ["file", "design", "proto", "board"]

def fileKey? (segments : List String) : Option String :=
  ((segments.dropWhile (!fileKinds.contains ·))[1]?).filter (· ≠ "")

def nodeIdName : String := "node-id"

/-- The first value of the name, unless it is blank. -/
def nodeId? (query : Option String) : Option String :=
  let pairs := (query.map Url.queryPairs).getD []
  ((pairs.find? (·.1 == nodeIdName)).map fun (_, value) => DesignComponents.nodeId value).filter
    (· ≠ "")

/-- Reads a link; of several faults the first in the order of the text counts. -/
def read (text : String) : Except LinkError Link :=
  match Url.read (trimmed text) with
  | .error cause => .error (.badUrl text cause)
  | .ok url =>
    if isSite url.host then
      match fileKey? url.pathNames with
      | none => .error (.noFileKey text)
      | some fileKey =>
        match nodeId? url.query with
        | none => .error (.noNodeId text)
        | some nodeId => .ok ⟨fileKey, nodeId⟩
    else .error (.otherSite text)

end Link

end DesignComponents
