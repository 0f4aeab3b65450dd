import CompileWatch.Build.Request
import CompileWatch.Watch.Session

/-!
# Background sessions

A session can run on its own: a loop ticks, waits for notices of change, takes
in those that came, and starts over, until a flag tells it to stop. The flag is
looked at only between two rounds, so whatever a tick has begun is finished, and
the session shuts down after the last round.

The loop is given step by step, so that what others do between two steps can be
said: they may edit files, and the holder of the loop may lower the flag.
-/

namespace CompileWatch

/-- What the loop does next. -/
inductive LoopPhase where
  /-- Look at the flag. -/
  | testing
  | ticking
  /-- Wait for a notice, or until the next timer is due. -/
  | waiting
  /-- Take in the notices that came with the first. -/
  | draining
  | ended
deriving DecidableEq, Repr

/-- A session with the loop that runs it. -/
structure WatchLoop (σ κ : Type) where
  session : Session σ κ
  /-- Lowered by the holder to stop the loop. -/
  running : Bool := true
  phase : LoopPhase := .testing

namespace WatchLoop

variable {σ κ : Type}

/-- Milliseconds that the loop waits at most before it looks at the flag again. -/
def maxIdle : Nat := 50

/-- How long the loop waits for a notice. -/
def idleWait (loop : WatchLoop σ κ) (now : Moment) : Nat :=
  min ((loop.session.schedule.nextDue?.map (· - now)).getD maxIdle) maxIdle

/-- Lets the session of a loop act. -/
def act (action : Session.Action σ κ α) : StateM (WatchLoop σ κ) α := fun loop =>
  let (answer, session) := action.run loop.session
  (answer, { loop with session })

def goto (phase : LoopPhase) : StateM (WatchLoop σ κ) Unit :=
  modify fun loop => { loop with phase }

def wakeAll : List Path → Session.Action σ κ Unit
  | [] => pure ()
  | path :: rest => do
    Session.wake path
    wakeAll rest

/-- One step of the loop at a moment, with the notices that have come in. Gives how many files were
emitted again. -/
def step (p : Platform σ κ) (now : Moment) (notices : List Path) :
    StateM (WatchLoop σ κ) Nat := do
  let loop ← get
  match loop.phase with
  | .testing =>
    if loop.running then goto .ticking
    else
      act Session.shutdown
      goto .ended
    return 0
  | .ticking =>
    let emitted ← act (Session.tick p now)
    goto .waiting
    return emitted
  | .waiting =>
    match notices with
    | first :: _ =>
      act (Session.wake first)
      goto .draining
    | [] => goto .testing
    return 0
  | .draining =>
    act (wakeAll notices)
    goto .testing
    return 0
  | .ended => return 0

/-- Lowers the flag. -/
def requestStop : StateM (WatchLoop σ κ) Unit :=
  modify fun loop => { loop with running := false }

/-- Runs the loop to the end of its round, without notices. -/
def finishRound (p : Platform σ κ) (now : Moment) : Nat → StateM (WatchLoop σ κ) Nat
  | 0 => pure 0
  | fuel + 1 => do
    let emitted ← step p now []
    match (← get).phase with
    | .testing | .ended => return emitted
    | _ => return emitted + (← finishRound p now fuel)

/-- One round: test, tick and wait. -/
def round (p : Platform σ κ) (now : Moment) : StateM (WatchLoop σ κ) Nat := finishRound p now 3

/-- Runs rounds, each when all timers are due, until one emits nothing. Gives the moment reached.
The fuel bounds the number of rounds. -/
def settle (p : Platform σ κ) : Nat → Moment → StateM (WatchLoop σ κ) Moment
  | 0, now => pure now
  | fuel + 1, now => do
    let next := now + (← get).session.options.interval
    let emitted ← round p next
    if emitted = 0 then return next else settle p fuel next

/-- Stops the loop and waits for its end. -/
def stop (p : Platform σ κ) (now : Moment) : StateM (WatchLoop σ κ) Unit := do
  requestStop
  let _ ← finishRound p now 3
  let _ ← finishRound p now 3

/-- The watcher of the operating system cannot be set up for a path that it does not have. -/
def noSuchPath : HostError := .watch "No path was found."

/-- Moves a session to a loop of its own. With native events the project root must be a path of the
operating system. -/
def spawn (p : Platform σ κ) (session : Session σ κ) : Except HostError (WatchLoop σ κ) :=
  if session.options.nativeEvents &&
      !p.canObserve session.world.store session.config.projectRoot then
    .error noSuchPath
  else .ok { session }

/-- Starts a session for a build request and moves it to a loop of its own. -/
def ofRequest (p : Platform σ κ) (request : BuildRequest) (options : WatchOptions)
    (world : World σ) : Except HostError (WatchLoop σ κ) := do
  request.requireEntries
  let session ← (Session.start p request.hostConfig options world).1
  spawn p session

end WatchLoop

end CompileWatch
