import CompileWatch.Path.Table

/-!
# Pending notices

The paths that notices of change have named since the last check, each once and
in path order.
-/

namespace CompileWatch

structure PendingChanges where
  paths : Path.Table Unit := .empty

namespace PendingChanges

def add (p : PendingChanges) (path : Path) : PendingChanges := ⟨p.paths.setNew path ()⟩

/-- Takes all paths. -/
def take (p : PendingChanges) : List Path × PendingChanges := (p.paths.keys, {})

def hasPending (p : PendingChanges) : Bool := !p.paths.isEmpty

end PendingChanges

end CompileWatch
