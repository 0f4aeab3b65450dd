import CompileWatch.FrontEnd.Interface
import CompileWatch.Host.Config

/-!
# The host of a program

Serves a front end during one build: reads sources, finds modules and writes
outputs through a file system. It keeps nothing, so every request sees the files
as they are at that moment.
-/

namespace CompileWatch

/-- A host for one build. -/
structure ProjectHost (σ κ : Type) where
  config : HostConfig
  env : HostEnvironment
  storage : Storage σ
  frontEnd : FrontEnd σ κ

namespace ProjectHost

variable {σ κ : Type}

def resolver (host : ProjectHost σ κ) : ModuleResolver σ :=
  ⟨host.frontEnd.resolveModule, host.storage, host.config.options, host.config.fallback⟩

def fileExists (host : ProjectHost σ κ) (file : Path) : Exec σ Bool :=
  Exec.onStore (host.storage.contains file)

def readText (host : ProjectHost σ κ) (file : Path) : Exec σ (Option String) := do
  return (← Exec.onStore (host.storage.read file)).toOption

/-- Those of some paths that are directories. -/
def keepDirectories (host : ProjectHost σ κ) : List Path → Exec σ (List Path)
  | [] => pure []
  | entry :: rest => do
    let isDir ← Exec.onStore (host.storage.isDir entry)
    let others ← host.keepDirectories rest
    return if isDir then entry :: others else others

/-- The directories in a directory; none if it cannot be listed. -/
def directories (host : ProjectHost σ κ) (dir : Path) : Exec σ (List Path) := do
  match ← Exec.onStore (host.storage.list dir) with
  | .ok entries => host.keepDirectories entries
  | .error _ => return []

/-- The unit of a source that exists. A source that is gone by the time it is read counts as one
that was never there. -/
def parse (host : ProjectHost σ κ) (file : Path) (target : ScriptTarget) :
    Exec σ (Except FsError (Option SourceUnit)) := do
  if ← host.fileExists file then
    match ← Exec.onStore (host.storage.read file) with
    | .ok text => return .ok (some (host.frontEnd.parse file text target))
    | .error e => return if e.isNotFound then .ok none else .error e
  else return .ok none

/-- The unit of a source. A failure to read is reported, and there is no unit. -/
def readSource (host : ProjectHost σ κ) (file : Path) (target : ScriptTarget) :
    Exec σ (Option SourceUnit) := do
  match ← host.parse file target with
  | .ok unit? => return unit?
  | .error _ =>
    Exec.warn "failed to read source"
    return none

/-- The unit of a source named relative to the project root; a missing one is a failure. -/
def readSourceRelative (host : ProjectHost σ κ) (name : Path) (target : ScriptTarget) :
    Exec σ (Except HostError SourceUnit) := do
  let path := host.config.projectRoot.join name
  match ← host.parse path target with
  | .ok (some unit) => return .ok unit
  | .ok none => return .error (.notFound path)
  | .error e => return .error (.fs e)

def writeOutput (host : ProjectHost σ κ) (file : Path) (content : String) :
    Exec σ (Except HostError Unit) := do
  return (← Exec.onStore (host.storage.write file content)).mapError (.write file)

def resolveImports (host : ProjectHost σ κ) (specifiers : List String) (importer : Path) :
    Exec σ (List (Option ResolvedModule)) :=
  Exec.onStore (host.resolver.resolveAll importer specifiers)

/-- The host as the front end sees it. -/
def view (host : ProjectHost σ κ) : ProgramHost σ where
  defaultLib := host.frontEnd.defaultLib
  currentDirectory := host.env.currentDir
  canonicalFileName := host.env.canonicalFileName
  newLine := host.env.newLine
  caseSensitive := host.env.caseSensitive
  fileExists := host.fileExists
  readText := host.readText
  directories := host.directories
  readSource := host.readSource
  readSourceRelative := host.readSourceRelative
  writeOutput := host.writeOutput
  resolveImports := host.resolveImports

end ProjectHost

end CompileWatch
