import DesignComponents.Api.Exchange
import DesignComponents.Command.Invocation
import DesignComponents.Json.Writer
import DesignComponents.Project.Programs
import DesignComponents.Report.Text

/-!
# The surroundings of a command

What a command finds when it is run, and what it leaves: its status, what it printed, the files
as they are then, and the requests that reached the design service.
-/

namespace DesignComponents

structure Surroundings where
  workingPlace : Place
  home : Option String
  personalToken : Option String
  bearerToken : Option String
  web : Web
  programs : Programs
  onTerminal : Bool

structure CommandEnd where
  status : Nat
  output : String
  notes : String
  files : FileTree
  requests : List Request

namespace CommandEnd

def failureStatus : Nat := 2

/-- A report as it is printed. On a terminal the pretty form is for reading. -/
def printed (s : Surroundings) (format : OutputFormat) (encoded : Json) (text : String) : String :=
  match format with
  | .json => encoded.compact ++ "\n"
  | .pretty => (if s.onTerminal then text else encoded.indented) ++ "\n"

def ofReport (s : Surroundings) (format : OutputFormat) (result : Except Failure Outcome)
    (notes : String) (files : FileTree) (requests : List Request) : CommandEnd :=
  match result with
  | .ok o => ⟨0, printed s format o.toJson (o.text true), notes, files, requests⟩
  | .error e =>
    let c := Complaint.ofFailure e
    ⟨failureStatus, printed s format c.toJson (c.text true), notes, files, requests⟩

end CommandEnd

end DesignComponents
