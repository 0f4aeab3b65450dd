import CompileWatch.Module.SearchPath
import CompileWatch.Options.Basic
import CompileWatch.Storage.Basic
import CompileWatch.Text.LowerCase

/-!
# Hosts and their surroundings

Every host is made for one project: options, root and fallback directories. Its
environment holds what does not come from the project.
-/

namespace CompileWatch

/-- The project that a host is made for. -/
structure HostConfig where
  options : CompilerOptions
  projectRoot : Path
  fallback : SearchPath := {}
deriving DecidableEq, Repr

/-- What a host knows of the place it runs in. -/
structure HostEnvironment where
  currentDir : Path
  newLine : NewLine
  caseSensitive : Bool
deriving DecidableEq, Repr

namespace HostEnvironment

/-- The environment of a build in `currentDir`: options may choose the line terminator, and letter
case counts if it does in the storage. -/
def detect (currentDir : Path) (storage : Storage σ) (store : σ) (options : CompilerOptions) :
    HostEnvironment :=
  ⟨currentDir, options.newLine.getD .standard, storage.caseSensitive store⟩

/-- The name that stands for a file when names are compared. -/
def canonicalFileName (env : HostEnvironment) (file : Path) : Path :=
  if env.caseSensitive then file else ⟨Text.lowerCase file.text⟩

end HostEnvironment

end CompileWatch
