import CompileWatch.Journal
import CompileWatch.Module.Resolution
import CompileWatch.Output

/-!
# Front ends

The parser, checker and emitter are a service from outside. This module states
what a front end offers and what it may ask for in return: a program is compiled
against a `ProgramHost`, and a session keeps a language service that asks an
`AnalysisHost` for versions and texts.
-/

namespace CompileWatch

/-- What a front end may ask for while it compiles a program. -/
structure ProgramHost (σ : Type) where
  defaultLib : Path
  currentDirectory : Path
  /-- The name that decides whether two names mean one file. -/
  canonicalFileName : Path → Path
  newLine : NewLine
  caseSensitive : Bool
  fileExists : Path → Exec σ Bool
  readText : Path → Exec σ (Option String)
  /-- The directories in a directory. -/
  directories : Path → Exec σ (List Path)
  /-- A source, or nothing when it does not exist or cannot be read. -/
  readSource : Path → ScriptTarget → Exec σ (Option SourceUnit)
  /-- A source by its name relative to the project. -/
  readSourceRelative : Path → ScriptTarget → Exec σ (Except HostError SourceUnit)
  writeOutput : Path → String → Exec σ (Except HostError Unit)
  /-- The modules that a file imports, each specifier in its place. -/
  resolveImports : List String → Path → Exec σ (List (Option ResolvedModule))

/-- What a language service may ask for during a session. -/
structure AnalysisHost (σ : Type) where
  options : CompilerOptions
  /-- The files that belong to the session. -/
  scriptFileNames : List Path
  /-- The number that changes whenever a file does. -/
  scriptVersion : Path → Option Nat
  /-- The text of a file at this moment. -/
  scriptSnapshot : Path → Exec σ (Option String)
  currentDirectory : Path
  defaultLib : Path
  fileExists : Path → Exec σ Bool
  readText : Path → Exec σ (Option String)
  resolveImports : List String → Path → Exec σ (List (Option ResolvedModule))

/-- A compiler that works over states of type `σ`, with a language service whose knowledge is of
type `κ`. -/
structure FrontEnd (σ κ : Type) where
  defaultLib : Path
  parse : Path → String → ScriptTarget → SourceUnit
  resolveModule : NativeResolution σ
  /-- Checks and emits the program of some roots. Output goes through the host, and a failure to
  write ends the emit. -/
  emitProgram : List Path → CompilerOptions → ProgramHost σ → Exec σ (Except HostError BuildResult)
  /-- What a new language service knows. -/
  initialKnowledge : κ
  /-- The output of one file. -/
  emitOutput : AnalysisHost σ → Path → StateT κ (Exec σ) EmitOutput
  /-- What there is to say about one file. -/
  diagnostics : AnalysisHost σ → Path → StateT κ (Exec σ) (List Diagnostic)

end CompileWatch
