import CompileWatch.Journal
import CompileWatch.Path.Order
import CompileWatch.Storage.Basic
import CompileWatch.Text.Lines

/-!
# Staging

Files that need no compiler are copied as they are: every file below a source
goes to the same place below a destination. Linked directories are not entered.
-/

namespace CompileWatch

/-- What a staging run has written. -/
structure StageResult where
  destination : Path
  written : List Path
deriving DecidableEq, Repr

/-- Why a staging run gave up. -/
inductive StageError where
  | missingSource (source : Path)
  /-- The source is no directory, and its path ends in no name. -/
  | namelessSource (source : Path)
  | cannotList (dir : Path) (cause : FsError)
  /-- An entry that does not lie below the source. -/
  | escapes (entry source : Path)
  | cannotRead (file : Path) (cause : FsError)
  | cannotWrite (file : Path) (cause : FsError)
  /-- More directories than the run was to visit. -/
  | tooManyDirectories
deriving DecidableEq, Repr

namespace StageError

/-- What failed, and then why, as far as there is more to say. -/
def chain : StageError → List String
  | missingSource source => [s!"staging source {source.text} does not exist"]
  | namelessSource source => [s!"staging source {source.text} has no file name"]
  | cannotList dir cause => [s!"failed to list {dir.text}", cause.message]
  | escapes entry source => [s!"{entry.text} escapes {source.text}", "prefix not found"]
  | cannotRead file cause => [s!"failed to read {file.text}", cause.message]
  | cannotWrite file cause => [s!"failed to write {file.text}", cause.message]
  | tooManyDirectories => ["too many directories to stage"]

/-- The outermost message. -/
def top (e : StageError) : String := e.chain.headD ""

def message (e : StageError) : String := ": ".intercalate e.chain

end StageError

namespace Staging

variable {σ : Type}

/-- Copies one file. -/
def copyFile (storage : Storage σ) (source target : Path) :
    StateM σ (Except StageError Unit) := do
  match ← storage.read source with
  | .error e => return .error (.cannotRead source e)
  | .ok content =>
    return (← storage.write target content).mapError (.cannotWrite target)

/-- Copies the files among the entries of a directory below `source`. Gives the directories to
enter, and the files written after those given. -/
def copyEntries (storage : Storage σ) (source destination : Path) :
    List Path → List Path → List Path → StateM σ (Except StageError (List Path × List Path))
  | [], dirs, written => pure (.ok (dirs, written))
  | entry :: rest, dirs, written => do
    if ← storage.isDir entry then
      let linked ← storage.isSymlink entry
      copyEntries storage source destination rest
        (if linked then dirs else entry :: dirs) written
    else
      match entry.stripPrefix? source with
      | none => return .error (.escapes entry source)
      | some relative =>
        let target := destination.join relative
        match ← copyFile storage entry target with
        | .error e => return .error e
        | .ok () => copyEntries storage source destination rest dirs (written ++ [target])

/-- Copies what is in the pending directories, the latest first. The fuel bounds the number of
directories. -/
def copyTree (storage : Storage σ) (source destination : Path) :
    Nat → List Path → List Path → StateM σ (Except StageError (List Path))
  | _, [], written => pure (.ok written)
  | 0, _, _ => pure (.error .tooManyDirectories)
  | fuel + 1, dir :: pending, written => do
    match ← storage.list dir with
    | .error e => return .error (.cannotList dir e)
    | .ok entries =>
      match ← copyEntries storage source destination entries pending written with
      | .error e => return .error e
      | .ok (pending, written) => copyTree storage source destination fuel pending written

/-- Copies a file, or all files below a directory, into the folder `dest` of `root`. A run visits
at most `limit` directories. -/
def stage (limit : Nat) (storage : Storage σ) (source root dest : Path) :
    Exec σ (Except StageError StageResult) := do
  let destination := root.join dest
  if !(← Exec.onStore (storage.contains source)) then
    return .error (.missingSource source)
  else if !(← Exec.onStore (storage.isDir source)) then
    match source.fileName? with
    | none => return .error (.namelessSource source)
    | some name =>
      let target := destination.join ⟨name⟩
      match ← Exec.onStore (copyFile storage source target) with
      | .error e => return .error e
      | .ok () => return .ok ⟨destination, [target]⟩
  else
    match ← Exec.onStore (copyTree storage source destination limit [source] []) with
    | .error e => return .error e
    | .ok written =>
      Exec.info "staged files"
      return .ok ⟨destination, Path.sort written⟩

end Staging

end CompileWatch
