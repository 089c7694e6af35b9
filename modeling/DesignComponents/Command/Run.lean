import DesignComponents.Command.Create
import DesignComponents.Command.Detect

/-!
# Running a command
-/

namespace DesignComponents.Invocation

def run (i : Invocation) (s : Surroundings) (t : FileTree) : CommandEnd :=
  match i.action with
  | .create request => request.run s i.verbose i.config t
  | .detect request => request.run s t

end DesignComponents.Invocation
