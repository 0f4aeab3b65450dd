import CompileWatch.Config.EditDistance

/-!
# Suggestions for misspelt keys

A key that is not known is answered with the first of the nearest known keys, if
it is at most two edits of single bytes away.
-/

namespace CompileWatch.Config

/-- The keys that a configuration file may have at either level, in the order in which they are
considered. -/
def suggestedKeys : List String :=
  ["compilerOptions", "files", "target", "module", "outDir", "rootDir", "strict",
   "noImplicitAny", "declaration", "sourceMap", "noEmitOnError", "newLine"]

/-- The edits between two keys, counted in bytes. -/
def keyDistance (a b : String) : Nat :=
  editDistance a.toUTF8.data.toList b.toUTF8.data.toList

/-- The first of the nearest candidates, with its distance. -/
def nearest (key : String) : List String → Option (String × Nat)
  | [] => none
  | candidate :: rest =>
    let distance := keyDistance key candidate
    match nearest key rest with
    | some (other, least) => if least < distance then some (other, least)
      else some (candidate, distance)
    | none => some (candidate, distance)

/-- The known key that an unknown one was probably meant to be. -/
def suggest (key : String) : Option String :=
  match nearest key suggestedKeys with
  | some (candidate, distance) => if 0 < distance && distance ≤ 2 then some candidate else none
  | none => none

end CompileWatch.Config
