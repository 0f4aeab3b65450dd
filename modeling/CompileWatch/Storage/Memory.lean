import CompileWatch.Path.Table
import CompileWatch.Storage.Basic
import CompileWatch.Text.LowerCase

/-!
# Files in memory

A store holds files only: a directory is there as long as some file lies below
it. Each file is kept under a key, the plainest spelling of its path, and every
change takes a new second of the store's clock, so a later change always has a
later time.

The store itself does not know whether letter case counts. That is a matter of
the handle through which it is used, and two handles of one store may differ.
-/

namespace CompileWatch

namespace Memory

/-- A file in memory. -/
structure File where
  content : String
  modified : Timestamp
deriving DecidableEq, Repr

/-- All files by key, and the time of the latest change. No file is dated after it. -/
structure Store where
  files : Path.Table File
  clock : Nat
  modified_le : ∀ key file, files.find? key = some file → file.modified ≤ clock

namespace Store

def empty : Store := ⟨.empty, 0, fun _ _ h => by cases h⟩

instance : Inhabited Store := ⟨empty⟩

/-- Lets a second pass. -/
def advance (s : Store) : Store :=
  ⟨s.files, s.clock + 1, fun key file h =>
    Int.le_trans (s.modified_le key file h) (Int.ofNat_le.2 (Nat.le_succ _))⟩

/-- Makes or replaces the file under a key, dated with the next second. -/
def put (s : Store) (key : Path) (content : String) : Store :=
  ⟨s.files.set key ⟨content, s.clock + 1⟩, s.clock + 1, by
    intro k file h
    rw [Path.Table.find?_set] at h
    split at h
    · cases h
      simp
    · exact Int.le_trans (s.modified_le k file h) (Int.ofNat_le.2 (Nat.le_succ _))⟩

def erase (s : Store) (key : Path) : Store :=
  ⟨s.files.erase key, s.clock, by
    intro k file h
    rw [Path.Table.find?_erase] at h
    split at h
    · cases h
    · exact s.modified_le k file h⟩

end Store

/-- A way to use a store. -/
structure Handle where
  caseSensitive : Bool
deriving DecidableEq, Repr

/-- A path without dots, repeated separators and separators at its end. -/
def plain (path : Path) : Path := .ofComponents (path.components.filter (· ≠ .current))

/-- The key of the file that a path names. -/
def Handle.key (h : Handle) (path : Path) : Path :=
  if h.caseSensitive then plain path else ⟨Text.lowerCase (plain path).text⟩

namespace Store

/-- The component after those of `dir` among those of a file, if the file lies strictly below. -/
def stepToward? : List Component → List Component → Option Component
  | [], next :: _ => some next
  | c :: dir, d :: file => if c = d then stepToward? dir file else none
  | _, [] => none

/-- Whether some file lies strictly below a key. -/
def hasBelow (s : Store) (dir : Path) : Bool :=
  let above := dir.components
  s.files.rows.any fun (file, _) => (stepToward? above file.components).isSome

/-- The names of the entries of a directory. The files below one entry are neighbours. -/
def childNames (s : Store) (dir : Path) : List Component :=
  let above := dir.components
  (s.files.rows.filterMap fun (file, _) => stepToward? above file.components).eraseReps

/-- The entries of a directory, by key. -/
def children (s : Store) (dir : Path) : List Path :=
  (s.childNames dir).map fun name => dir.join ⟨name.text⟩

/-- How many components the longest key has. -/
def depth (s : Store) : Nat :=
  s.files.rows.foldl (fun n (file, _) => max n file.components.length) 0

end Store

namespace Handle

variable (h : Handle)

/-- Makes or replaces a file, whatever else is at its path. -/
def insert (path : Path) (content : String) : StateM Store Unit :=
  modify fun s => s.put (h.key path) content

/-- Gives a file a new time. The clock moves even when there is no such file. -/
def touch (path : Path) : StateM Store (Except FsError Unit) := fun s =>
  match s.files.find? (h.key path) with
  | some file => (.ok (), s.put (h.key path) file.content)
  | none => (.error (.notFound path), s.advance)

def remove (path : Path) : StateM Store (Except FsError Unit) := fun s =>
  if s.files.contains (h.key path) then (.ok (), s.erase (h.key path))
  else (.error (.notFound path), s)

def isDir (path : Path) (s : Store) : Bool := s.hasBelow (h.key path)

def contains (path : Path) (s : Store) : Bool := s.files.contains (h.key path) || h.isDir path s

def read (path : Path) (s : Store) : Except FsError String :=
  match s.files.find? (h.key path) with
  | some file => .ok file.content
  | none => .error (.notFound path)

/-- Makes or replaces a file, but not in the place of a directory. -/
def write (path : Path) (content : String) : StateM Store (Except FsError Unit) := fun s =>
  if h.isDir path s then
    (.error (.other s!"cannot write {path.text}: is a directory"), s)
  else (.ok (), (h.insert path content s).2)

/-- The entries of a directory. A directory without entries is not there. -/
def list (path : Path) (s : Store) : Except FsError (List Path) :=
  match s.children (h.key path) with
  | [] => .error (.notFound path)
  | entries => .ok entries

def modified (path : Path) (s : Store) : Except FsError Timestamp :=
  match s.files.find? (h.key path) with
  | some file => .ok file.modified
  | none => .error (.notFound path)

/-- A question put to the store leaves it as it is. -/
def asking (answer : Store → α) : StateM Store α := fun s => (answer s, s)

/-- The store as a file system. It has no links. Entries that the handle does not tell apart lead to
the same files, so a descent may come through one directory more than once. -/
def storage : Storage Store where
  contains path := asking (h.contains path)
  isDir path := asking (h.isDir path)
  isSymlink _ := pure false
  read path := asking (h.read path)
  write := h.write
  list path := asking (h.list path)
  modified path := asking (h.modified path)
  caseSensitive _ := h.caseSensitive
  extent s := Nat.pow (s.files.size + 1) (s.depth + 1)

end Handle

/-- Letter case counts. -/
def exact : Handle := ⟨true⟩

/-- Letter case does not count. -/
def folding : Handle := ⟨false⟩

/-- A store that holds the given files, inserted in order. -/
def Handle.withFiles (h : Handle) (files : List (Path × String)) : Store :=
  files.foldl (fun s (path, content) => (h.insert path content s).2) .empty

end Memory

end CompileWatch
