import CompileWatch.Config.File
import CompileWatch.Journal
import CompileWatch.Storage.Basic

/-!
# Loading a configuration

Reads the configuration file of a project through a file system, and reports
each warning.
-/

namespace CompileWatch.Config

variable {σ : Type}

/-- The name of the configuration file in the root of a project. -/
def fileName : String := "tsconfig.json"

def missingFile (root : Path) : HostError :=
  .configuration s!"no {fileName} found in {root.text}"

/-- Reports warnings in their order. -/
def reportWarnings : List ConfigWarning → Exec σ Unit
  | [] => pure ()
  | warning :: rest => do
    match warning.value with
    | some _ => Exec.warn "ignoring unsupported config value"
    | none => Exec.warn "ignoring unsupported config key"
    reportWarnings rest

/-- The configuration that a text means, with its warnings reported. -/
def parse (content : String) (file root : Path) : Exec σ (Except HostError LoadedConfig) := do
  match ofText content file root with
  | .ok loaded =>
    reportWarnings loaded.warnings
    return .ok loaded
  | .error e => return .error e

/-- The configuration of the project at `root`. -/
def load (storage : Storage σ) (root : Path) : Exec σ (Except HostError LoadedConfig) := do
  let file := root.join ⟨fileName⟩
  if ← Exec.onStore (storage.contains file) then
    match ← Exec.onStore (storage.read file) with
    | .ok content => parse content file root
    | .error e => return .error (.fs e)
  else return .error (missingFile root)

end CompileWatch.Config
