import DesignComponents.Command.Run
import DesignComponents.Command.Usage

/-!
# The command line

Reads from the machine what a command looks at, runs the command, and writes the files that it
left different. It has no transport for requests and starts no programs: no address is reached,
and no command that lays the ground for a file is found.
-/

namespace DesignComponents.CommandLine

def pathOf (place : Place) : String := "/" ++ "/".intercalate place

def addEntry (t : FileTree) (place : Place) (entry : FileEntry) : FileTree :=
  let t := ((List.range place.length).drop 1).foldl (fun t n => t.put (place.take n) .directory) t
  t.put place entry

def addPath (here : Place) (t : FileTree) (path : String) : IO FileTree := do
  try
    let found ← IO.FS.realPath (Path.join (pathOf here) path)
    let place := Path.parts found.toString
    if ← found.isDir then pure (addEntry t place .directory)
    else pure (addEntry t place (.file (← IO.FS.readFile found)))
  catch _ => pure t

def addDirectory (here : Place) (t : FileTree) (path : String) : IO FileTree := do
  try
    let found ← IO.FS.realPath (Path.join (pathOf here) path)
    let below ← found.walkDir
    (found :: below.toList).foldlM (fun t p => addPath here t p.toString) t
  catch _ => pure t

def projectDir (i : Invocation) : String :=
  match i.action with
  | .create request => request.projectDir
  | .detect request => request.projectDir

def loadFiles (i : Invocation) (here : Place) (home : Option String) : IO FileTree := do
  let directory := projectDir i
  let paths := [".", directory, Path.join directory Project.manifestName,
    Path.join directory Project.compilerSettingsName] ++ i.config.toList ++
      (Config.centralPath? home).toList
  let t ← paths.foldlM (addPath here) FileTree.empty
  match Config.load t here home i.config with
  | .error _ => pure t
  | .ok c => (Framework.all.map (c.componentRoot directory)).foldlM (addDirectory here) t

/-- Writes the entries that differ from those before. -/
def saveFiles (before after : FileTree) : IO Unit :=
  after.entries.forM fun (place, entry) => do
    if before.entry? place ≠ some entry then
      match entry with
      | .directory => IO.FS.createDirAll (pathOf place)
      | .file contents =>
        IO.FS.createDirAll (pathOf place.dropLast)
        IO.FS.writeFile (pathOf place) contents

def surroundings : IO Surroundings := do
  pure
    { workingPlace := Path.parts (← IO.currentDir).toString
      home := ← IO.getEnv "HOME"
      personalToken := ← IO.getEnv "FIGMA_TOKEN"
      bearerToken := ← IO.getEnv "FIGMA_OAUTH_TOKEN"
      web := fun _ => none
      programs := Programs.none
      onTerminal := ← (← IO.getStdout).isTty }

def run (words : List String) : IO UInt32 := do
  match Invocation.read words with
  | .error stop =>
    if stop = .error then IO.eprint stop.text else IO.print stop.text
    pure (UInt32.ofNat stop.status)
  | .ok invocation =>
    let s ← surroundings
    let files ← loadFiles invocation s.workingPlace s.home
    let ending := invocation.run s files
    saveFiles files ending.files
    IO.eprint ending.notes
    IO.print ending.output
    pure (UInt32.ofNat ending.status)

end DesignComponents.CommandLine

def main (words : List String) : IO UInt32 := DesignComponents.CommandLine.run words
