import CompileWatch.Storage.Basic

/-!
# Rehearsed failures

A storage around another one, in which calls fail as planned, some more paths
count as links, and every question whether a path exists is remembered. A
planned fault is met before the call reaches the storage inside, so a call that
fails changes nothing there.
-/

namespace CompileWatch

/-- The calls that can be planned to fail. -/
inductive FaultyCall where
  | read | write | list | modified
deriving DecidableEq, Repr

/-- The failure that a faulty call gives. -/
inductive FaultKind where
  | notFound | permissionDenied | io | other
deriving DecidableEq, Repr

/-- A planned failure. -/
structure Fault where
  call : FaultyCall
  /-- The path that the call must be about; any path when missing. -/
  path : Option Path
  kind : FaultKind
  message : String
  /-- How many more calls fail; all of them when missing. -/
  uses : Option Nat
deriving DecidableEq, Repr

namespace Fault

def failure (fault : Fault) (path : Path) : FsError :=
  match fault.kind with
  | .notFound => .notFound path
  | .permissionDenied => .permissionDenied path
  | .io => .io fault.message
  | .other => .other fault.message

def isDue (fault : Fault) (call : FaultyCall) (path : Path) : Bool :=
  fault.call = call && (fault.path.map path.same).getD true && fault.uses ≠ some 0

/-- The failure of a call, if one is planned, and the plan after the call. The first fault that
applies is used. -/
def meet (call : FaultyCall) (path : Path) : List Fault → Option FsError × List Fault
  | [] => (none, [])
  | fault :: rest =>
    if fault.isDue call path then
      (some (fault.failure path), { fault with uses := fault.uses.map (· - 1) } :: rest)
    else
      let (met, rest) := meet call path rest
      (met, fault :: rest)

end Fault

/-- A state with the faults planned for it, the paths that count as links whatever they are, and
the existence questions asked of it. -/
structure Rehearsed (σ : Type) where
  inner : σ
  faults : List Fault := []
  links : List Path := []
  probes : List Path := []

namespace Rehearsed

variable {σ : Type}

/-- An action on the state inside. -/
def onInner (action : StateM σ α) : StateM (Rehearsed σ) α := fun r =>
  let (answer, inner) := action.run r.inner
  (answer, { r with inner })

/-- A call that fails when a fault is planned for it. -/
def guarded (call : FaultyCall) (path : Path) (action : StateM σ (Except FsError α)) :
    StateM (Rehearsed σ) (Except FsError α) := fun r =>
  match Fault.meet call path r.faults with
  | (some failure, faults) => (.error failure, { r with faults })
  | (none, _) => onInner action r

/-- The storage with its planned failures. -/
def storage (inside : Storage σ) : Storage (Rehearsed σ) where
  contains path := do
    modify fun r => { r with probes := r.probes ++ [path] }
    onInner (inside.contains path)
  isDir path := onInner (inside.isDir path)
  isSymlink path := do
    if (← get).links.any path.same then return true
    onInner (inside.isSymlink path)
  read path := guarded .read path (inside.read path)
  write path content := guarded .write path (inside.write path content)
  list path := guarded .list path (inside.list path)
  modified path := guarded .modified path (inside.modified path)
  caseSensitive r := inside.caseSensitive r.inner
  extent r := inside.extent r.inner

/-- The probes since they were last taken. -/
def takeProbes : StateM (Rehearsed σ) (List Path) :=
  modifyGet fun r => (r.probes, { r with probes := [] })

end Rehearsed

end CompileWatch
