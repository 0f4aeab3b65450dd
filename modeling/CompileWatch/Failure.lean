import CompileWatch.Document.Shape
import CompileWatch.Path.Basic

/-!
# Failures

What can go wrong in a file system, and what can go wrong in a build or a watch
session. A message of the compiler about a program is never one of these.
-/

namespace CompileWatch

/-- Why a file system refused an operation. -/
inductive FsError where
  | notFound (path : Path)
  | permissionDenied (path : Path)
  /-- A failure of the operating system, in its words. -/
  | io (message : String)
  /-- A failure of the storage itself, in its words. -/
  | other (message : String)
deriving DecidableEq, Repr

namespace FsError

def message : FsError → String
  | notFound path => s!"file not found: {path.text}"
  | permissionDenied path => s!"permission denied: {path.text}"
  | io text => s!"I/O error: {text}"
  | other text => text

def isNotFound : FsError → Bool
  | notFound _ => true
  | _ => false

end FsError

/-- The kinds of failure that an operating system tells apart. -/
inductive IoKind where
  | notFound | permissionDenied | alreadyExists | invalidData | other
deriving DecidableEq, Repr

/-- A failure of the operating system: its kind and its words. -/
structure IoError where
  kind : IoKind
  message : String
deriving DecidableEq, Repr

/-- A failure of the operating system during an operation on a path. The two kinds that are about
the path keep it, all others keep their words. -/
def FsError.ofIo (error : IoError) (path : Path) : FsError :=
  match error.kind with
  | .notFound => .notFound path
  | .permissionDenied => .permissionDenied path
  | _ => .io error.message

/-- The path that stands for "no path in particular". -/
def FsError.unknownPath : Path := ⟨""⟩

/-- Why a build or a session could not do what it was asked. -/
inductive HostError where
  /-- A source that was asked for relative to the project is not there. -/
  | notFound (path : Path)
  /-- An artifact could not be written. -/
  | write (path : Path) (cause : FsError)
  /-- The project has no usable configuration, root or entry file. -/
  | configuration (text : String)
  /-- The watcher of change notifications could not be installed. -/
  | watch (text : String)
  | fs (cause : FsError)
  | io (text : String)
  | json (cause : ShapeError)

namespace HostError

def message : HostError → String
  | notFound path => s!"source file not found: {path.text}"
  | write path cause => s!"failed to write {path.text}: {cause.message}"
  | configuration text => s!"configuration error: {text}"
  | watch text => s!"watch error: {text}"
  | fs cause => cause.message
  | io text => s!"IO error: {text}"
  | json cause => s!"JSON parsing error: {cause.message}"

end HostError

end CompileWatch
