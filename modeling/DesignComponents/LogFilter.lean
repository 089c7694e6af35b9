/-!
# Log filters

How much of its work a run logs: the directives for the program and for its library.
-/

namespace DesignComponents

inductive LogLevel where
  | warn | debug
  deriving DecidableEq, Repr

def LogLevel.word : LogLevel → String
  | warn => "warn"
  | debug => "debug"

def LogLevel.ofVerbose (verbose : Bool) : LogLevel := if verbose then .debug else .warn

def logTargets : List String := ["figcomp", "figcomp_lib"]

/-- One directive for each part, all of one level. -/
def logFilter (verbose : Bool) : String :=
  ",".intercalate (logTargets.map fun target =>
    target ++ "=" ++ (LogLevel.ofVerbose verbose).word)

end DesignComponents
