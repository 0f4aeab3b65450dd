import CompileWatch.Build.Entries
import CompileWatch.Config.Load
import CompileWatch.Host.Config

/-!
# Build requests

What a build is asked to do: with which options, in which project, and from
which entry files.
-/

namespace CompileWatch

structure BuildRequest where
  options : CompilerOptions
  projectRoot : Path
  entryFiles : List Path
  fallback : SearchPath := {}
deriving DecidableEq, Repr

namespace BuildRequest

variable {σ : Type}

/-- The request that the configuration of a project amounts to. -/
def ofProject (storage : Storage σ) (root : Path) : Exec σ (Except HostError BuildRequest) := do
  match ← Config.load storage root with
  | .error e => return .error e
  | .ok loaded =>
    match ← Exec.onStore (Entries.discover storage root loaded.files) with
    | .error e => return .error e
    | .ok entryFiles => return .ok { options := loaded.options, projectRoot := root, entryFiles }

def withFallback (r : BuildRequest) (fallback : SearchPath) : BuildRequest := { r with fallback }

def hostConfig (r : BuildRequest) : HostConfig := ⟨r.options, r.projectRoot, r.fallback⟩

/-- A request without entry files cannot be carried out. -/
def requireEntries (r : BuildRequest) : Except HostError Unit :=
  if r.entryFiles.isEmpty then
    .error (.configuration s!"no usable entry file for {r.projectRoot.text}")
  else .ok ()

end BuildRequest

end CompileWatch
