/-!
# The journal and the world

Builds and sessions act on a *world*: a file system in some state, and a journal
of what was reported to the people running them. The journal keeps levels and
messages, in the order of reporting.
-/

namespace CompileWatch

/-- How much a journal entry matters. -/
inductive LogLevel where
  | info | warn | error
deriving DecidableEq, Repr

def LogLevel.name : LogLevel → String
  | info => "INFO"
  | warn => "WARN"
  | error => "ERROR"

/-- One report. -/
structure LogEntry where
  level : LogLevel
  message : String
deriving DecidableEq, Repr

def LogEntry.line (entry : LogEntry) : String := s!"{entry.level.name} {entry.message}"

/-- A file system in the state `store`, and what has been reported. -/
structure World (σ : Type) where
  store : σ
  journal : List LogEntry := []

/-- An action on a world. -/
abbrev Exec (σ : Type) := StateM (World σ)

namespace Exec

variable {σ : Type}

/-- An action on the file system alone. -/
def onStore (action : StateM σ α) : Exec σ α := fun world =>
  let (answer, store) := action.run world.store
  (answer, { world with store })

def report (level : LogLevel) (message : String) : Exec σ Unit :=
  modify fun world => { world with journal := world.journal ++ [⟨level, message⟩] }

def info (message : String) : Exec σ Unit := report .info message

def warn (message : String) : Exec σ Unit := report .warn message

def error (message : String) : Exec σ Unit := report .error message

end Exec

end CompileWatch
