import CompileWatch.Journal
import CompileWatch.Path.Order
import CompileWatch.Storage.Basic

/-!
# The sources of a project

The files with a given extension below a root. Folders of dependencies and of
version control are left out, and so are the output folder, so that outputs do
not become sources, and linked directories, so that each file is met under one
path.
-/

namespace CompileWatch.Sources

variable {σ : Type}

/-- Directories that are never searched. -/
def skippedNames : List String := ["node_modules", ".git"]

/-- What a search looks for. -/
structure Query where
  extension : String
  /-- The output folder as seen from the root. -/
  outDir : Option Path

/-- Whether the search goes into a directory that is no link. -/
def Query.enters (query : Query) (dir : Path) : Bool :=
  !(query.outDir.map dir.same).getD false && !(dir.fileName?.map skippedNames.contains).getD false

def Query.wants (query : Query) (file : Path) : Bool := file.extension? = some query.extension

/-- The directories to search and the sources among the entries of a directory. -/
def classify (storage : Storage σ) (query : Query) :
    List Path → StateM σ (List Path × List Path)
  | [] => pure ([], [])
  | entry :: rest => do
    if ← storage.isDir entry then
      let linked ← storage.isSymlink entry
      let (dirs, files) ← classify storage query rest
      return if !linked && query.enters entry then (entry :: dirs, files) else (dirs, files)
    else
      let (dirs, files) ← classify storage query rest
      return if query.wants entry then (dirs, entry :: files) else (dirs, files)

/-- Searches the pending directories, the latest first. A directory that cannot be listed is
reported and loses only what is below it. The fuel bounds the number of directories. -/
def search (storage : Storage σ) (query : Query) :
    Nat → List Path → List Path → Exec σ (List Path)
  | 0, _, found => pure found
  | _, [], found => pure found
  | fuel + 1, dir :: pending, found => do
    match ← Exec.onStore (storage.list dir) with
    | .error _ =>
      Exec.warn "cannot list directory"
      search storage query fuel pending found
    | .ok entries =>
      let (dirs, files) ← Exec.onStore (classify storage query entries)
      search storage query fuel (dirs.reverse ++ pending) (found ++ files)

/-- The sources below a root, in path order. -/
def collect (storage : Storage σ) (root : Path) (extension : String) (outDir : Option Path) :
    Exec σ (List Path) := do
  let fuel := storage.extent (← get).store
  let found ← search storage ⟨extension, outDir.map root.join⟩ fuel [root] []
  return Path.sort found

end CompileWatch.Sources
