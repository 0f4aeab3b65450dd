import CompileWatch.Path.Basic

/-!
# Fallback directories

The directories that are searched for declarations of modules which the front
end cannot find, in the order of the search.
-/

namespace CompileWatch

structure SearchPath where
  dirs : List Path := []
deriving DecidableEq, Repr

namespace SearchPath

/-- The two files of a directory that may declare a module, the better one first. -/
def candidates (dir : Path) (specifier : String) : List Path :=
  [(dir.join ⟨specifier⟩).join ⟨"index.d.ts"⟩, dir.join ⟨specifier ++ ".d.ts"⟩]

/-- All files that may declare a module, in the order in which they are tried. -/
def allCandidates (search : SearchPath) (specifier : String) : List Path :=
  search.dirs.flatMap (candidates · specifier)

end SearchPath

end CompileWatch
