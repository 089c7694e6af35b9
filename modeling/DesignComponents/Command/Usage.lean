import DesignComponents.Command.Invocation
import DesignComponents.Report.Outcome

/-!
# Usage

What is printed when a command line is not run.
-/

namespace DesignComponents

def programName : String := "figcomp"

namespace CommandOption

def line (o : CommandOption) : String :=
  "  --" ++ o.name ++
    match o.kind with
    | .switch => ""
    | .text => " <TEXT>"
    | .path => " <PATH>"
    | .choice words => " <" ++ "|".intercalate words ++ ">"

end CommandOption

namespace UsageStop

def commandLines (command : String) (options : List CommandOption) : List String :=
  ["", "Options of " ++ command ++ ":"] ++ options.map (·.line)

def helpText : String :=
  "\n".intercalate
    (["Generate Tailwind-styled components from Figma frames", "",
        "Usage: " ++ programName ++ " [OPTIONS] <COMMAND>"] ++
      commandLines Invocation.createWord Invocation.createOptions ++
      commandLines Invocation.detectWord Invocation.detectOptions) ++ "\n"

def text : UsageStop → String
  | help => helpText
  | version => programName ++ " " ++ reportVersion ++ "\n"
  | error => helpText

def status : UsageStop → Nat
  | help => 0
  | version => 0
  | error => 2

end UsageStop

end DesignComponents
