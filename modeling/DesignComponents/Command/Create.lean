import DesignComponents.Api.Client
import DesignComponents.Command.Surroundings
import DesignComponents.Link
import DesignComponents.Project.Configuration
import DesignComponents.Project.Manifest
import DesignComponents.Project.Store
import DesignComponents.Settings

/-!
# Creating a component

First everything is settled that needs no request: the configuration, the link, the framework and
the token, in this order. Then the design is fetched and converted, and unless it is a dry run
the component is written.
-/

namespace DesignComponents

structure CreatePlan where
  config : Config
  link : Link
  settings : Settings
  deriving DecidableEq

namespace CreateRequest

/-- The target of the project, which is looked at only if no framework is asked for. -/
def target (r : CreateRequest) (s : Surroundings) (t : FileTree) : Target :=
  if r.framework.isSome then .unknown else Project.target t s.workingPlace r.projectDir

def flags (r : CreateRequest) : Flags := ⟨r.framework, r.typescript, r.noReuse⟩

def plan (r : CreateRequest) (s : Surroundings) (configPath : Option String) (t : FileTree) :
    Except Failure CreatePlan := do
  let config ← Config.load t s.workingPlace s.home configPath
  let link ← (Link.read r.figmaLink).mapError LinkError.failure
  let typescript := Project.isTypescript t s.workingPlace r.projectDir
  let settings ← Settings.resolve r.flags (r.target s t) typescript config
  .ok ⟨config, link, settings⟩

/-- The token of the request, or else one of the surroundings, the personal one first. An empty
token is none. -/
def credential? (r : CreateRequest) (s : Surroundings) : Option Credential :=
  let given (token : Option String) : Option String := token.filter (· ≠ "")
  ((given r.token).or (given s.personalToken)).map Credential.personal |>.or
    ((given s.bearerToken).map Credential.bearer)

def client (r : CreateRequest) (s : Surroundings) (config : Config) : Except Failure Client :=
  match r.credential? s with
  | none =>
    .error
      (.configuration "FIGMA_TOKEN environment variable is required (or pass --token)")
  | some credential =>
    (Client.make credential config.apiBaseUrl config.image).mapError ApiError.failure

def options (r : CreateRequest) (p : CreatePlan) : Options :=
  { framework := p.settings.framework
    extension := p.settings.extension
    reuse := p.settings.reuse
    nameOverride := r.name }

def project (r : CreateRequest) (s : Surroundings) (p : CreatePlan) : Project :=
  { workingPlace := s.workingPlace
    directory := r.projectDir
    root := p.config.componentRoot r.projectDir p.settings.framework
    programs := s.programs }

def creation (r : CreateRequest) (link : Link) (c : Component) (path : Option String) : Creation :=
  { version := reportVersion
    design := ⟨link.fileKey, link.nodeId⟩
    framework := c.framework
    extension := c.extension
    componentName := c.file.name
    outputPath := path
    imports := c.imports
    scaffold := c.file.scaffold.map (·.line)
    dryRun := r.dryRun
    code := if r.dryRun then some c.file.contents else none }

def make (r : CreateRequest) (s : Surroundings) (p : CreatePlan) (client : Client) (t : FileTree) :
    Except Failure Creation × List Call × FileTree :=
  let store := (r.project s p).store
  let source := client.source s.web
  let o := r.options p
  if r.dryRun then
    let (result, calls) :=
      Component.render source o (store.catalogue t o) p.link.fileKey p.link.nodeId
    (result.map (r.creation p.link · none), calls, t)
  else
    let (result, calls, t) := store.create source o p.link.fileKey p.link.nodeId t
    (result.map fun (component, path) => r.creation p.link component (some path), calls, t)

def note (verbose : Bool) (configPath : Option String) (p : CreatePlan) : String :=
  if verbose then p.settings.line p.config configPath ++ "\n" else ""

def run (r : CreateRequest) (s : Surroundings) (verbose : Bool) (configPath : Option String)
    (t : FileTree) : CommandEnd :=
  match r.plan s configPath t with
  | .error e => .ofReport s r.format (.error e) "" t []
  | .ok p =>
    let notes := note verbose configPath p
    match r.client s p.config with
    | .error e => .ofReport s r.format (.error e) notes t []
    | .ok client =>
      let (result, calls, t) := r.make s p client t
      .ofReport s r.format (result.map Outcome.create) notes t
        (calls.flatMap (client.requestsOf s.web))

end CreateRequest

end DesignComponents
