import CompileWatch.Diagnostic
import CompileWatch.Options.Basic

/-!
# Sources and outputs

What a front end is given and what it gives back: source units, artifacts ready
to be written, and the outcome of emitting one file or a whole program.
-/

namespace CompileWatch

/-- A source as handed to the front end: its text at one moment, and the level it is read at. -/
structure SourceUnit where
  file : Path
  text : String
  target : ScriptTarget
deriving DecidableEq, Repr

/-- A compiled file that is ready to be written. -/
structure Artifact where
  path : Path
  content : String
deriving DecidableEq, Repr

/-- The output for one file. It is skipped only when the front end refuses to emit, not merely
because there are diagnostics. -/
structure EmitOutput where
  artifacts : List Artifact
  emitSkipped : Bool
deriving DecidableEq, Repr

def EmitOutput.skipped : EmitOutput := ⟨[], true⟩

/-- The outcome of a whole program: what was said, whether it was refused, what was written. -/
structure BuildResult where
  diagnostics : List Diagnostic := []
  emitSkipped : Bool := false
  emitted : List Path := []
deriving DecidableEq, Repr

namespace BuildResult

def isSuccess (r : BuildResult) : Bool := !r.emitSkipped && !r.diagnostics.any Diagnostic.isError

def errorCount (r : BuildResult) : Nat := r.diagnostics.countP Diagnostic.isError

end BuildResult

end CompileWatch
