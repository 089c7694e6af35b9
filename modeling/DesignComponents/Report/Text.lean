import DesignComponents.Report.Outcome

/-!
# Reports for reading

The text that a terminal shows of a report, with colors or without.
-/

namespace DesignComponents

namespace Terminal

def red : String := "31"

def green : String := "32"

def yellow : String := "33"

def cyan : String := "36"

def colored (wanted : Bool) (color text : String) : String :=
  if wanted then "\x1b[" ++ color ++ "m" ++ text ++ "\x1b[0m" else text

def lineOf (label : String) : Option String → String
  | some text => label ++ text ++ "\n"
  | none => ""

end Terminal

open Terminal

def yesNo (b : Bool) : String := if b then "true" else "false"

def Creation.importsText (c : Creation) : String :=
  if c.imports.isEmpty then ""
  else "Reused components:\n" ++ String.join (c.imports.map fun name => "- " ++ name ++ "\n")

def Creation.text (c : Creation) (colors : Bool) : String :=
  let heading :=
    if c.dryRun then colored colors yellow "[DRY RUN]" else colored colors green "[CREATED]"
  heading ++ " " ++ c.componentName ++ " (" ++ c.framework.word ++ ", ." ++ c.extension ++ ")\n" ++
    "Design: file " ++ c.design.fileKey ++ " node " ++ c.design.nodeId ++ "\n" ++
    lineOf "Path: " c.outputPath ++ lineOf "Scaffold: " c.scaffold ++ c.importsText ++
    (match c.code with
    | some code => "\n" ++ code
    | none => "")

def Detection.text (d : Detection) (colors : Bool) : String :=
  let found :=
    match d.framework, d.extension with
    | some f, some extension => f.word ++ " (." ++ extension ++ ")"
    | _, _ => colored colors yellow "no supported framework found"
  colored colors cyan "[DETECT]" ++ " " ++ found ++ "\n" ++
    "Project: " ++ d.projectDir ++ "\n" ++
    "TypeScript: " ++ yesNo d.typescript ++ "\n"

def Outcome.text (o : Outcome) (colors : Bool) : String :=
  match o with
  | .create c => c.text colors
  | .detect d => d.text colors

def Complaint.text (c : Complaint) (colors : Bool) : String :=
  colored colors red "[ERROR]" ++ " " ++ c.message ++ "\n" ++ lineOf "Hint: " c.remedy

end DesignComponents
