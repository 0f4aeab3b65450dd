import CompileWatch.Path.Table
import CompileWatch.Storage.Basic

/-!
# Versions of tracked files

A session counts the changes of each file it tracks. A version starts at zero
and goes up by one whenever a reading of the file's time is later than every
earlier one; it never goes back, not even when the file is gone for a while.
-/

namespace CompileWatch

/-- The changes of a file so far, and the latest of its times if one was ever read. -/
structure VersionEntry where
  version : Nat
  modified : Option Timestamp
deriving DecidableEq, Repr

/-- Whether a reading is later than all before it. -/
def VersionEntry.isNewer (entry : VersionEntry) (time : Timestamp) : Bool :=
  match entry.modified with
  | some seen => seen < time
  | none => true

/-- The versions of all tracked files. -/
structure VersionTable where
  entries : Path.Table VersionEntry := .empty

namespace VersionTable

instance : Inhabited VersionTable := ⟨{}⟩

/-- Starts to track a file. A file that is tracked already stays as it is. -/
def track (t : VersionTable) (path : Path) (modified : Option Timestamp) : VersionTable :=
  ⟨t.entries.setNew path ⟨0, modified⟩⟩

/-- Takes a reading of a file's time, and gives the new version if it is a change. -/
def observe (t : VersionTable) (path : Path) (time : Timestamp) : Option Nat × VersionTable :=
  match t.entries.find? path with
  | some entry =>
    if entry.isNewer time then
      (some (entry.version + 1), ⟨t.entries.set path ⟨entry.version + 1, some time⟩⟩)
    else (none, t)
  | none => (none, t)

def version? (t : VersionTable) (path : Path) : Option Nat :=
  (t.entries.find? path).map (·.version)

def contains (t : VersionTable) (path : Path) : Bool := t.entries.contains path

/-- The tracked files in path order. -/
def files (t : VersionTable) : List Path := t.entries.keys

def size (t : VersionTable) : Nat := t.entries.size

def isEmpty (t : VersionTable) : Bool := t.entries.isEmpty

end VersionTable

end CompileWatch
