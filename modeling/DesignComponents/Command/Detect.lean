import DesignComponents.Command.Surroundings
import DesignComponents.Project.Manifest

/-!
# Looking at a project

Reports the target of a project. A project without one is reported, too.
-/

namespace DesignComponents

namespace DetectRequest

def detection (r : DetectRequest) (s : Surroundings) (t : FileTree) : Detection :=
  let target := Project.target t s.workingPlace r.projectDir
  { version := reportVersion
    projectDir := r.projectDir
    framework := target.framework
    extension := target.extension
    typescript := Project.isTypescript t s.workingPlace r.projectDir }

def run (r : DetectRequest) (s : Surroundings) (t : FileTree) : CommandEnd :=
  .ofReport s r.format (.ok (.detect (r.detection s t))) "" t []

end DetectRequest

end DesignComponents
