import CompileWatch.Storage.Basic
import CompileWatch.Text.Lines

/-!
# Entry files

The files that a build starts from: those that the configuration names, as far
as they exist, or else the first conventional one.
-/

namespace CompileWatch.Entries

variable {σ : Type}

/-- The names under which an entry file is looked for, in order. -/
def conventional : List String := ["src/index.ts", "index.ts", "src/main.ts", "main.ts"]

/-- Those of some paths that exist. -/
def existing (storage : Storage σ) : List Path → StateM σ (List Path)
  | [] => pure []
  | path :: rest => do
    let here ← storage.contains path
    let others ← existing storage rest
    return if here then path :: others else others

/-- The first of some names that is a file below the root. -/
def firstFile (storage : Storage σ) (root : Path) : List String → StateM σ (Option Path)
  | [] => pure none
  | name :: rest => do
    let path := root.join ⟨name⟩
    if ← storage.contains path then
      if ← storage.isDir path then firstFile storage root rest else return some path
    else firstFile storage root rest

/-- A project in which no entry file was found. -/
def missing (root : Path) : HostError :=
  let tried := ", ".intercalate conventional
  .configuration s!"no usable entry file in {root.text} (tried {tried})"

/-- The entry files of a project. -/
def discover (storage : Storage σ) (root : Path) (configured : List Path) :
    StateM σ (Except HostError (List Path)) := do
  match ← existing storage configured with
  | [] => match ← firstFile storage root conventional with
    | some path => return .ok [path]
    | none => return .error (missing root)
  | found => return .ok found

end CompileWatch.Entries
