import CompileWatch.Failure

/-!
# File systems

The operations that builds and sessions need of the place where files live. A
storage works on states of its own type, so the same build runs over memory, a
directory tree or a remote machine, and also over a storage that fails or is
edited by others between two operations.
-/

namespace CompileWatch

/-- A moment at which a file was modified, in seconds. -/
abbrev Timestamp := Int

/-- The operations of a file system whose states are of type `σ`. -/
structure Storage (σ : Type) where
  /-- Whether there is a file or a directory at a path. -/
  contains : Path → StateM σ Bool
  isDir : Path → StateM σ Bool
  /-- Whether the path itself is a symbolic link. -/
  isSymlink : Path → StateM σ Bool
  read : Path → StateM σ (Except FsError String)
  /-- Replaces the content of a file, or makes it, together with the directories it needs. -/
  write : Path → String → StateM σ (Except FsError Unit)
  /-- The entries of a directory in path order. -/
  list : Path → StateM σ (Except FsError (List Path))
  modified : Path → StateM σ (Except FsError Timestamp)
  /-- Whether names that differ in letter case are different files. -/
  caseSensitive : σ → Bool
  /-- At least the number of directories that can be met on a walk through a state. -/
  extent : σ → Nat

end CompileWatch
