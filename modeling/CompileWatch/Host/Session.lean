import CompileWatch.FrontEnd.Interface
import CompileWatch.Host.Config
import CompileWatch.Watch.Versions

/-!
# The host of a session

Serves the language service of a watch session. Versions come from the table of
the session; texts are read when they are asked for.
-/

namespace CompileWatch

/-- A host for a session, with the versions that it has at this moment. -/
structure SessionHost (σ κ : Type) where
  config : HostConfig
  env : HostEnvironment
  storage : Storage σ
  frontEnd : FrontEnd σ κ
  versions : VersionTable

namespace SessionHost

variable {σ κ : Type}

def resolver (host : SessionHost σ κ) : ModuleResolver σ :=
  ⟨host.frontEnd.resolveModule, host.storage, host.config.options, host.config.fallback⟩

def readText (host : SessionHost σ κ) (file : Path) : Exec σ (Option String) := do
  return (← Exec.onStore (host.storage.read file)).toOption

def fileExists (host : SessionHost σ κ) (file : Path) : Exec σ Bool :=
  Exec.onStore (host.storage.contains file)

def resolveImports (host : SessionHost σ κ) (specifiers : List String) (importer : Path) :
    Exec σ (List (Option ResolvedModule)) :=
  Exec.onStore (host.resolver.resolveAll importer specifiers)

/-- The host as the language service sees it. -/
def view (host : SessionHost σ κ) : AnalysisHost σ where
  options := host.config.options
  scriptFileNames := host.versions.files
  scriptVersion := host.versions.version?
  scriptSnapshot := host.readText
  currentDirectory := host.env.currentDir
  defaultLib := host.frontEnd.defaultLib
  fileExists := host.fileExists
  readText := host.readText
  resolveImports := host.resolveImports

end SessionHost

end CompileWatch
