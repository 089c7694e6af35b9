/-!
# Options of a command line

The words of a command line are read from left to right. An option takes its value from the same
word, behind an equals sign, or from the next word, which then may not look like an option.
Nothing may be given twice. A value that stands in a word of its own is looked at only when the
next option comes or the words end.
-/

namespace DesignComponents

inductive UsageStop where
  | help | version | error
  deriving DecidableEq, Repr

/-- What an option takes: nothing, any text, a path, which is not empty, or one of some words. -/
inductive OptionKind where
  | switch
  | text
  | path
  | choice (words : List String)
  deriving DecidableEq, Repr

structure CommandOption where
  name : String
  kind : OptionKind
  deriving DecidableEq, Repr

namespace OptionKind

def takesValue : OptionKind → Bool
  | switch => false
  | _ => true

def admits : OptionKind → String → Bool
  | switch, _ => true
  | text, _ => true
  | path, value => !value.isEmpty
  | choice words, value => words.contains value

end OptionKind

inductive Word where
  | separator
  | long (name : String) (value : Option String)
  | short (letters : List Char)
  | plain (text : String)
  deriving DecidableEq, Repr

namespace Word

def ofLong (cs : List Char) : Word :=
  match cs.dropWhile (· ≠ '=') with
  | [] => long (String.ofList cs) none
  | _ :: value => long (String.ofList (cs.takeWhile (· ≠ '='))) (some (String.ofList value))

def ofText (text : String) : Word :=
  match text.toList with
  | ['-', '-'] => separator
  | '-' :: '-' :: cs => ofLong cs
  | ['-'] => plain text
  | '-' :: cs => short cs
  | _ => plain text

end Word

structure GivenOptions where
  values : List (String × String)
  begun : Option (CommandOption × Option String)
  deriving DecidableEq, Repr

namespace GivenOptions

def empty : GivenOptions := ⟨[], none⟩

def value? (g : GivenOptions) (name : String) : Option String := g.values.lookup name

def isGiven (g : GivenOptions) (name : String) : Bool := (g.value? name).isSome

def add (g : GivenOptions) (option : CommandOption) (value : String) :
    Except UsageStop GivenOptions :=
  if g.isGiven option.name || !option.kind.admits value then .error .error
  else .ok ⟨g.values ++ [(option.name, value)], none⟩

def settle (g : GivenOptions) : Except UsageStop GivenOptions :=
  match g.begun with
  | none => .ok g
  | some (option, some value) => add ⟨g.values, none⟩ option value
  | some (_, none) => .error .error

def stopAt (g : GivenOptions) (stop : UsageStop) : Except UsageStop GivenOptions := do
  let _ ← g.settle
  .error stop

def takeLong (options : List CommandOption) (g : GivenOptions) (name : String)
    (value : Option String) : Except UsageStop GivenOptions :=
  match options.find? (·.name == name), value with
  | some option, none =>
    if option.kind.takesValue then do
      let g ← g.settle
      .ok { g with begun := some (option, none) }
    else do (← g.settle).add option ""
  | some option, some value =>
    if option.kind.takesValue then do (← g.settle).add option value else .error .error
  | none, some _ => .error .error
  | none, none =>
    if name = "help" then g.stopAt .help
    else if name = "version" then g.stopAt .version
    else .error .error

/-- Takes short options, the first of which decides. -/
def takeShort (g : GivenOptions) : List Char → Except UsageStop GivenOptions
  | 'h' :: _ => g.stopAt .help
  | 'V' :: _ => g.stopAt .version
  | _ => .error .error

/-- Reads words up to one that names a command, which is returned with those behind it. Behind a
separator nothing may follow. -/
def read (options : List CommandOption) (commands : List String) :
    (g : GivenOptions) → List String →
      Except UsageStop (GivenOptions × Option (String × List String))
  | g, [] => .ok (g, none)
  | g, text :: rest =>
    match Word.ofText text with
    | .separator => if rest.isEmpty then .ok (g, none) else .error .error
    | .long name value => do read options commands (← g.takeLong options name value) rest
    | .short letters => do read options commands (← g.takeShort letters) rest
    | .plain text =>
      match g.begun with
      | some (option, none) => read options commands { g with begun := some (option, some text) } rest
      | _ => if commands.contains text then .ok (g, some (text, rest)) else .error .error

end GivenOptions

end DesignComponents
