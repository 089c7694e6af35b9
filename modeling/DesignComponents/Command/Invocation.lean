import DesignComponents.Command.Options

/-!
# Invocations

What a command line asks for: a component to be created or a project to be looked at, each with
its options. Some options may stand before or behind the name of the command; behind it they
count.
-/

namespace DesignComponents

inductive OutputFormat where
  | json | pretty
  deriving DecidableEq, Repr

namespace OutputFormat

def word : OutputFormat → String
  | json => "json"
  | pretty => "pretty"

def all : List OutputFormat := [json, pretty]

def ofWord? (w : String) : Option OutputFormat := all.find? (·.word == w)

end OutputFormat

structure CreateRequest where
  figmaLink : String
  name : Option String
  framework : Option String
  typescript : Bool
  projectDir : String
  noReuse : Bool
  token : Option String
  format : OutputFormat
  dryRun : Bool
  deriving DecidableEq, Repr

structure DetectRequest where
  projectDir : String
  format : OutputFormat
  deriving DecidableEq, Repr

inductive Action where
  | create (request : CreateRequest)
  | detect (request : DetectRequest)
  deriving DecidableEq, Repr

structure Invocation where
  verbose : Bool
  config : Option String
  action : Action
  deriving DecidableEq, Repr

namespace Invocation

def createWord : String := "create"

def detectWord : String := "detect"

def helpWord : String := "help"

def commandWords : List String := [createWord, detectWord, helpWord]

/-- The options of every command, which may also stand before it. -/
def commonOptions : List CommandOption := [⟨"verbose", .switch⟩, ⟨"config", .path⟩]

def projectOptions : List CommandOption :=
  [⟨"project-dir", .path⟩, ⟨"format", .choice (OutputFormat.all.map (·.word))⟩]

def createOptions : List CommandOption :=
  [⟨"figma-link", .text⟩, ⟨"name", .text⟩, ⟨"framework", .text⟩, ⟨"typescript", .switch⟩,
    ⟨"no-reuse", .switch⟩, ⟨"token", .text⟩, ⟨"dry-run", .switch⟩] ++ projectOptions ++
  commonOptions

def detectOptions : List CommandOption := projectOptions ++ commonOptions

def projectDirOf (g : GivenOptions) : String := (g.value? "project-dir").getD "."

def formatOf (g : GivenOptions) : OutputFormat :=
  ((g.value? "format").bind OutputFormat.ofWord?).getD .json

def createRequest (g : GivenOptions) : Except UsageStop CreateRequest :=
  match g.value? "figma-link" with
  | none => .error .error
  | some figmaLink =>
    .ok
      { figmaLink
        name := g.value? "name"
        framework := g.value? "framework"
        typescript := g.isGiven "typescript"
        projectDir := projectDirOf g
        noReuse := g.isGiven "no-reuse"
        token := g.value? "token"
        format := formatOf g
        dryRun := g.isGiven "dry-run" }

def detectRequest (g : GivenOptions) : DetectRequest := ⟨projectDirOf g, formatOf g⟩

def readOptions (options : List CommandOption) (words : List String) :
    Except UsageStop GivenOptions := do
  let (g, _) ← GivenOptions.read options [] .empty words
  g.settle

def readAction (command : String) (words : List String) :
    Except UsageStop (Action × GivenOptions) := do
  if command = createWord then
    let g ← readOptions createOptions words
    .ok (.create (← createRequest g), g)
  else
    let g ← readOptions detectOptions words
    .ok (.detect (detectRequest g), g)

def helpStop : List String → UsageStop
  | [] => .help
  | [command] => if commandWords.contains command then .help else .error
  | _ => .error

/-- Reads the words behind the name of the program. The options before the command are looked at
last. -/
def read (words : List String) : Except UsageStop Invocation := do
  match ← GivenOptions.read commonOptions commandWords .empty words with
  | (_, none) => .error .error
  | (before, some (command, rest)) =>
    if command = helpWord then .error (helpStop rest)
    else
      let (action, behind) ← readAction command rest
      let before ← before.settle
      .ok
        { verbose := before.isGiven "verbose" || behind.isGiven "verbose"
          config := (behind.value? "config").or (before.value? "config")
          action }

end Invocation

end DesignComponents
