import CompileWatch.Platform
import CompileWatch.Watch.Event
import CompileWatch.Watch.Pending
import CompileWatch.Watch.Schedule
import CompileWatch.Watch.Sources

/-!
# Watch sessions

A session tracks the sources of a project from its start to its end. At the
start every file is emitted once. After that each tick looks at the times of
the files whose timers are due; a file with a later time gets a new version and
is emitted again, and nothing else is. A file is checked and emitted before its
timer is armed again, so no check of a file can overlap another.

A failure to emit one file is told as an event and does not stop the session.
-/

namespace CompileWatch

/-- How a session watches. -/
structure WatchOptions where
  /-- Milliseconds between two looks at a file. -/
  interval : Nat := 250
  /-- Whether notices of the operating system bring looks forward. -/
  nativeEvents : Bool := false
  /-- The extension of tracked files, without the dot. -/
  extension : String := "ts"
deriving DecidableEq, Repr

/-- What one emission did. -/
structure FileEmit where
  written : List Path
  emitSkipped : Bool
  diagnostics : List Diagnostic
deriving DecidableEq, Repr

/-- A session in a world. -/
structure Session (σ κ : Type) where
  config : HostConfig
  options : WatchOptions
  world : World σ
  versions : VersionTable
  schedule : PollSchedule
  pending : PendingChanges
  /-- What the language service knows. -/
  knowledge : κ
  stopped : Bool
  /-- The events so far. -/
  events : List WatchEvent

/-- An action of a session. -/
abbrev Session.Action (σ κ : Type) := StateM (Session σ κ)

namespace Session

variable {σ κ : Type}

/-- An action on the world of a session. -/
def onWorld (action : Exec σ α) : Action σ κ α := fun s =>
  let (answer, world) := action.run s.world
  (answer, { s with world })

/-- An action on the file system of a session. -/
def onStore (action : StateM σ α) : Action σ κ α := onWorld (Exec.onStore action)

/-- Tells an event. -/
def notify (event : WatchEvent) : Action σ κ Unit :=
  modify fun s => { s with events := s.events ++ [event] }

/-- Asks the language service, which sees the versions and files of this moment. -/
def askService (p : Platform σ κ) (question : AnalysisHost σ → StateT κ (Exec σ) α) :
    Action σ κ α := fun s =>
  let host := p.sessionHost s.world.store s.config s.versions
  let ((answer, knowledge), world) := ((question host.view).run s.knowledge).run s.world
  (answer, { s with knowledge, world })

/-- The output of one file. -/
def askOutput (p : Platform σ κ) (path : Path) : Action σ κ EmitOutput :=
  askService p fun host => p.frontEnd.emitOutput host path

/-- What there is to say about one file. -/
def askDiagnostics (p : Platform σ κ) (path : Path) : Action σ κ (List Diagnostic) :=
  askService p fun host => p.frontEnd.diagnostics host path

/-- Reports diagnostics and tells them as events. -/
def surface : List Diagnostic → Action σ κ Unit
  | [] => pure ()
  | d :: rest => do
    onWorld (Diagnostic.reportAll [d])
    notify (.ofDiagnostic d)
    surface rest

/-- Writes artifacts in order until one fails. -/
def writeArtifacts (storage : Storage σ) :
    List Artifact → Action σ κ (Except HostError (List Path))
  | [] => pure (.ok [])
  | artifact :: rest => do
    match ← onStore (storage.write artifact.path artifact.content) with
    | .error e => return .error (.write artifact.path e)
    | .ok () => return (← writeArtifacts storage rest).map (artifact.path :: ·)

/-- Writes an output. A skipped one is only reported. -/
def deliver (p : Platform σ κ) (output : EmitOutput) : Action σ κ (Except HostError (List Path)) :=
  if output.emitSkipped then do
    onWorld (Exec.warn "emit skipped")
    return .ok []
  else writeArtifacts p.storage output.artifacts

/-- Emits one file: its diagnostics are told first, then its output is written. A failed write ends
the emission of this file. -/
def emitFile (p : Platform σ κ) (path : Path) : Action σ κ (Except HostError FileEmit) := do
  let output ← askOutput p path
  let diagnostics ← askDiagnostics p path
  surface diagnostics
  match ← deliver p output with
  | .error e => return .error e
  | .ok written =>
    notify (.emitted path.text (written.map (·.text)) output.emitSkipped)
    return .ok ⟨written, output.emitSkipped, diagnostics⟩

/-- Emits one file, and tells of a failure. -/
def emitLogged (p : Platform σ κ) (path : Path) : Action σ κ Unit := do
  match ← emitFile p path with
  | .ok _ => pure ()
  | .error e =>
    onWorld (Exec.error "emission failed")
    notify (.error s!"{path.text}: {e.message}")

/-- Takes a reading of a file's time. -/
def observe (path : Path) (time : Timestamp) : Action σ κ (Option Nat) := fun s =>
  let (version?, versions) := s.versions.observe path time
  (version?, { s with versions })

/-- Looks at a file, and emits it again if it has changed. A file whose time cannot be read keeps
its version. -/
def check (p : Platform σ κ) (path : Path) : Action σ κ Bool := do
  match ← onStore (p.storage.modified path) with
  | .error _ => return false
  | .ok time =>
    match ← observe path time with
    | none => return false
    | some version =>
      onWorld (Exec.info "file changed")
      notify (.fileChanged path.text version)
      emitLogged p path
      return true

def arm (path : Path) (now : Moment) : Action σ κ Unit :=
  modify fun s => { s with schedule := s.schedule.arm path now }

/-- Checks files one after the other, each before its timer is armed again, and counts those that
were emitted. -/
def checkAll (p : Platform σ κ) (now : Moment) : List Path → Action σ κ Nat
  | [] => pure 0
  | path :: rest => do
    let changed ← check p path
    arm path now
    let others ← checkAll p now rest
    return if changed then others + 1 else others

/-- Makes the timers of the pending paths due. -/
def wakePending (now : Moment) : Action σ κ Unit := modify fun s =>
  let (paths, pending) := s.pending.take
  { s with
    pending
    schedule := paths.foldl (fun schedule path => schedule.wake path now) s.schedule }

def takeDue (now : Moment) : Action σ κ (List Path) := fun s =>
  let (due, schedule) := s.schedule.takeDue now
  (due, { s with schedule })

/-- Checks the files whose timers are due, and tells how many were emitted again. -/
def tick (p : Platform σ κ) (now : Moment) : Action σ κ Nat := do
  if (← get).stopped then return 0
  else
    wakePending now
    checkAll p now (← takeDue now)

/-- Has a file looked at in the next tick. -/
def wake (path : Path) : Action σ κ Unit :=
  modify fun s => { s with pending := s.pending.add path }

/-- Ends the session; it has no timers from then on. -/
def shutdown : Action σ κ Unit := do
  if (← get).stopped then return ()
  else
    modify fun s => { s with schedule := s.schedule.clear, stopped := true }
    onWorld (Exec.info "watch session stopped")
    notify .shutdown

/-! ## Starting -/

/-- The versions of newly tracked files, with the times that can be read. -/
def trackAll (storage : Storage σ) : VersionTable → List Path → StateM σ VersionTable
  | table, [] => pure table
  | table, path :: rest => do
    let modified ← storage.modified path
    trackAll storage (table.track path modified.toOption) rest

def emitAll (p : Platform σ κ) : List Path → Action σ κ Unit
  | [] => pure ()
  | path :: rest => do
    emitLogged p path
    emitAll p rest

def armAll (now : Moment) : List Path → Action σ κ Unit
  | [] => pure ()
  | path :: rest => do
    arm path now
    armAll now rest

/-- A session that tracks files but has done nothing yet. -/
def fresh (p : Platform σ κ) (config : HostConfig) (options : WatchOptions)
    (versions : VersionTable) (world : World σ) : Session σ κ where
  config := config
  options := options
  world := world
  versions := versions
  schedule := ⟨options.interval, .empty⟩
  pending := {}
  knowledge := p.frontEnd.initialKnowledge
  stopped := false
  events := []

/-- The first things a session does: it tells that it started, emits every file, and arms all
timers. -/
def begin (p : Platform σ κ) (files : List Path) : Action σ κ Unit := do
  let root := (← get).config.projectRoot
  notify (.watchStarted root.text files.length)
  emitAll p files
  armAll 0 files

def notDirectory (root : Path) : HostError :=
  .configuration s!"project root {root.text} is not a directory"

/-- Looks for the files of a project, and tracks them. -/
def setUp (storage : Storage σ) (config : HostConfig) (options : WatchOptions) :
    Exec σ (List Path × VersionTable) := do
  let files ← Sources.collect storage config.projectRoot options.extension config.options.outDir
  let versions ← Exec.onStore (trackAll storage {} files)
  Exec.info "watch session started"
  return (files, versions)

/-- Starts a session over a world. When it cannot start, the world is given back. -/
def start (p : Platform σ κ) (config : HostConfig) (options : WatchOptions) (world : World σ) :
    Except HostError (Session σ κ) × World σ :=
  let (isDir, world) := (Exec.onStore (p.storage.isDir config.projectRoot)).run world
  if !isDir then (.error (notDirectory config.projectRoot), world)
  else
    let ((files, versions), world) := (setUp p.storage config options).run world
    let session := ((begin p files).run (fresh p config options versions world)).2
    (.ok session, session.world)

end Session

end CompileWatch
