import CompileWatch.Proofs.Watch.Steps

/-!
# Recorded sessions

A session does not keep what it has emitted: outputs go to the file system,
where others may overwrite them, and events only name them. What is said about
emissions is therefore said of a session whose front end records every output
that it is asked for.

The recording is only an instrument. A recorded session with its record
forgotten is, step by step, the session over the front end itself
(`forget_play`, `forget_start`), so whatever is proved of the other parts of a
recorded session holds of the session as it is.
-/

namespace CompileWatch

variable {σ κ α β : Type}

/-- The knowledge of a front end, and the outputs it has given, the latest first. -/
structure Recorded (κ : Type) where
  known : κ
  outputs : List (Path × EmitOutput) := []

/-- A front end that records its outputs. -/
def FrontEnd.recorded (fe : FrontEnd σ κ) : FrontEnd σ (Recorded κ) where
  defaultLib := fe.defaultLib
  parse := fe.parse
  resolveModule := fe.resolveModule
  emitProgram := fe.emitProgram
  initialKnowledge := ⟨fe.initialKnowledge, []⟩
  emitOutput host path := fun k => do
    let (output, known) ← (fe.emitOutput host path).run k.known
    return (output, ⟨known, (path, output) :: k.outputs⟩)
  diagnostics host path := fun k => do
    let (diagnostics, known) ← (fe.diagnostics host path).run k.known
    return (diagnostics, { k with known })

theorem FrontEnd.OnlyLooks.recorded {fe : FrontEnd σ κ} (h : fe.OnlyLooks) :
    fe.recorded.OnlyLooks where
  resolveModule := h.resolveModule
  emitOutput hl path k := Keeps.bind (h.emitOutput hl path k.known) fun _ => Keeps.pure _
  diagnostics hl path k := Keeps.bind (h.diagnostics hl path k.known) fun _ => Keeps.pure _

def Platform.recorded (p : Platform σ κ) : Platform σ (Recorded κ) :=
  ⟨p.storage, p.frontEnd.recorded, p.currentDir, p.canObserve⟩

namespace Session

variable {p : Platform σ κ}

/-- The session without its record. -/
def forget (s : Session σ (Recorded κ)) : Session σ κ where
  config := s.config
  options := s.options
  world := s.world
  versions := s.versions
  schedule := s.schedule
  pending := s.pending
  knowledge := s.knowledge.known
  stopped := s.stopped
  events := s.events

theorem projects_onWorld (x : Exec σ α) :
    Projects forget (onWorld x : Action σ (Recorded κ) α) (onWorld x) := fun _ => ⟨rfl, rfl⟩

theorem projects_onStore (x : StateM σ α) :
    Projects forget (onStore x : Action σ (Recorded κ) α) (onStore x) := fun _ => ⟨rfl, rfl⟩

theorem projects_notify (event : WatchEvent) :
    Projects forget (notify event : Action σ (Recorded κ) Unit) (notify event) :=
  fun _ => ⟨rfl, rfl⟩

/-! ## Emissions -/

theorem projects_askOutput (path : Path) :
    Projects forget (askOutput p.recorded path) (askOutput p path) := fun _ => ⟨rfl, rfl⟩

theorem projects_askDiagnostics (path : Path) :
    Projects forget (askDiagnostics p.recorded path) (askDiagnostics p path) := fun _ => ⟨rfl, rfl⟩

theorem projects_surface : ∀ diagnostics,
    Projects forget (surface diagnostics : Action σ (Recorded κ) Unit) (surface diagnostics)
  | [] => .pure ()
  | _ :: rest => (projects_onWorld _).bind fun _ => (projects_notify _).bind fun _ =>
      projects_surface rest

theorem projects_writeArtifacts (storage : Storage σ) : ∀ artifacts,
    Projects forget (writeArtifacts storage artifacts : Action σ (Recorded κ) _)
      (writeArtifacts storage artifacts)
  | [] => .pure _
  | a :: rest => by
      refine (projects_onStore _).bind fun written => ?_
      cases written with
      | error e => exact .pure _
      | ok _ => exact (projects_writeArtifacts storage rest).bind fun _ => .pure _

theorem projects_deliver (output : EmitOutput) :
    Projects forget (deliver p.recorded output) (deliver p output) := by
  unfold deliver
  split
  · exact (projects_onWorld _).bind fun _ => .pure _
  · exact projects_writeArtifacts p.storage _

theorem projects_emitFile (path : Path) :
    Projects forget (emitFile p.recorded path) (emitFile p path) := by
  refine (projects_askOutput path).bind fun output =>
    (projects_askDiagnostics path).bind fun diagnostics =>
      (projects_surface diagnostics).bind fun _ => (projects_deliver output).bind fun result => ?_
  cases result with
  | error e => exact .pure _
  | ok written => exact (projects_notify _).bind fun _ => .pure _

theorem projects_emitLogged (path : Path) :
    Projects forget (emitLogged p.recorded path) (emitLogged p path) := by
  refine (projects_emitFile path).bind fun result => ?_
  cases result with
  | ok _ => exact .pure _
  | error e => exact (projects_onWorld _).bind fun _ => projects_notify _

/-- The outputs of a recorded session, the latest first. -/
def outputs (s : Session σ (Recorded κ)) : List (Path × EmitOutput) := s.knowledge.outputs

/-- The latest output of a file. -/
def latest? (s : Session σ (Recorded κ)) (file : Path) : Option (Path × EmitOutput) :=
  s.outputs.find? fun output => output.1.same file

theorem outputs_emitLogged (path : Path) (s : Session σ (Recorded κ)) :
    (after (emitLogged p.recorded path) s).outputs =
      (path, answer (askOutput p.recorded path) s) :: s.outputs := by
  have rule : EmissionRule p.recorded path (· = s)
      (fun t => t.outputs = (path, answer (askOutput p.recorded path) s) :: s.outputs)
      fun _ => True :=
    { output := fun t ht => ht ▸ rfl
      artifacts := fun _ _ _ _ => trivial
      diagnostics := fun _ h => h
      write := fun _ _ _ h => h
      reports := fun _ _ _ h => h }
  exact rule.emitLogged rfl

theorem outputs_check (path : Path) (s : Session σ (Recorded κ)) :
    (after (check p.recorded path) s).outputs.map (·.1) =
      if (change? p.recorded path s).isSome then path :: s.outputs.map (·.1)
      else s.outputs.map (·.1) := by
  rw [after_check]
  cases change? p.recorded path s with
  | none => rfl
  | some found =>
      obtain ⟨entry, time⟩ := found
      show ((after (emitLogged _ _) _).outputs).map (·.1) = _
      rw [outputs_emitLogged]
      rfl

/-! ## Ticks -/

/-- Some checks ask for the outputs of those files that they find changed, one after the other. -/
theorem outputs_checkAll (now : Moment) : ∀ (paths : List Path) (s : Session σ (Recorded κ)),
    (after (checkAll p.recorded now paths) s).outputs.map (·.1) =
      (((polls p.recorded now paths s).filter
        fun poll => (change? p.recorded poll.1 poll.2).isSome).map (·.1)).reverse ++
          s.outputs.map (·.1)
  | [], _ => rfl
  | path :: rest, s => by
      have hp : (polled p.recorded now path s).outputs.map (·.1) =
          (after (check p.recorded path) s).outputs.map (·.1) := rfl
      rw [after_checkAll_cons, outputs_checkAll now rest, hp, outputs_check, polls,
        List.filter_cons]
      split
      · simp
      · rfl

/-- The checks that come after the check of a file keep what it has brought out. -/
theorem outputs_of_mem_polls {now : Moment} {f : Path} {mid : Session σ (Recorded κ)} :
    ∀ {paths : List Path} {s : Session σ (Recorded κ)}, (f, mid) ∈ polls p.recorded now paths s →
      ∃ more, (after (checkAll p.recorded now paths) s).outputs.map (·.1) =
        more ++ (after (check p.recorded f) mid).outputs.map (·.1)
  | [], _, hm => by cases hm
  | path :: rest, s, hm => by
      rcases List.mem_cons.1 hm with heq | hm
      · cases heq
        exact ⟨_, outputs_checkAll now rest (polled p.recorded now f mid)⟩
      · exact outputs_of_mem_polls (s := polled p.recorded now path s) hm

theorem projects_check (path : Path) : Projects forget (check p.recorded path) (check p path) := by
  refine (projects_onStore _).bind fun modified => ?_
  cases modified with
  | error e => exact .pure _
  | ok time =>
      have hobserve : Projects forget (observe path time : Action σ (Recorded κ) (Option Nat))
          (observe path time) := fun _ => ⟨rfl, rfl⟩
      refine hobserve.bind fun version? => ?_
      cases version? with
      | none => exact .pure _
      | some version =>
          exact (projects_onWorld _).bind fun _ => (projects_notify _).bind fun _ =>
            (projects_emitLogged path).bind fun _ => .pure _

theorem projects_arm (path : Path) (now : Moment) :
    Projects forget (arm path now : Action σ (Recorded κ) Unit) (arm path now) :=
  fun _ => ⟨rfl, rfl⟩

theorem projects_checkAll (now : Moment) : ∀ paths,
    Projects forget (checkAll p.recorded now paths) (checkAll p now paths)
  | [] => .pure _
  | path :: rest => (projects_check path).bind fun _ => (projects_arm path now).bind fun _ =>
      (projects_checkAll now rest).bind fun _ => .pure _

theorem projects_tick (now : Moment) : Projects forget (tick p.recorded now) (tick p now) := by
  intro s
  cases hs : s.stopped with
  | true =>
      have hf : s.forget.stopped = true := hs
      rw [answer_tick_of_stopped hs, answer_tick_of_stopped hf, after_tick_of_stopped hs,
        after_tick_of_stopped hf]
      exact ⟨rfl, rfl⟩
  | false =>
      have hf : s.forget.stopped = false := hs
      rw [answer_tick_of_running hs, answer_tick_of_running hf, after_tick_of_running hs,
        after_tick_of_running hf]
      exact projects_checkAll now (dueFiles now s) (opened now s)

theorem projects_shutdown : Projects forget (shutdown : Action σ (Recorded κ) Unit) shutdown := by
  intro s
  refine ⟨rfl, ?_⟩
  rw [after_shutdown, after_shutdown]
  have hf : s.forget.stopped = s.stopped := rfl
  rw [hf]
  split
  · rfl
  · rfl

theorem projects_act (step : Step σ) : Projects forget (step.act p.recorded) (step.act p) := by
  cases step with
  | tick now => exact (projects_tick now).map _
  | wake path => exact fun _ => ⟨rfl, rfl⟩
  | emit path => exact (projects_emitFile path).map _
  | shutdown => exact projects_shutdown
  | outside change => exact projects_onStore _

/-- A recorded run, with its record forgotten, is the run itself. -/
theorem forget_play : ∀ (steps : List (Step σ)) (s : Session σ (Recorded κ)),
    (play p.recorded steps s).forget = play p steps s.forget
  | [], _ => rfl
  | step :: rest, s => by
      have h := forget_play rest (after (step.act p.recorded) s)
      rw [(projects_act step s).2] at h
      exact h

/-! ## Starts -/

theorem projects_emitAll : ∀ files, Projects forget (emitAll p.recorded files) (emitAll p files)
  | [] => .pure _
  | path :: rest => (projects_emitLogged path).bind fun _ => projects_emitAll rest

theorem projects_armAll (now : Moment) : ∀ files,
    Projects forget (armAll now files : Action σ (Recorded κ) Unit) (armAll now files)
  | [] => .pure _
  | path :: rest => (projects_arm path now).bind fun _ => projects_armAll now rest

theorem projects_begin (files : List Path) :
    Projects forget (begin p.recorded files) (begin p files) := by
  intro s
  have h := ((projects_notify (.watchStarted s.config.projectRoot.text files.length)).bind fun _ =>
    (projects_emitAll (p := p) files).bind fun _ => projects_armAll 0 files) s
  exact h

/-- A recorded session that starts is, with its record forgotten, the session that starts. -/
theorem forget_start {config : HostConfig} {options : WatchOptions} {world : World σ}
    {session : Session σ (Recorded κ)}
    (h : (start p.recorded config options world).1 = .ok session) :
    (start p config options world).1 = .ok session.forget := by
  rw [start_eq] at h ⊢
  split at h
  · next hd =>
    injection h with h
    have hd : answer (p.storage.isDir config.projectRoot) world.store = true := hd
    let found := answer (setUp p.storage config options) (atRoot p config world)
    have hb := projects_begin (p := p) found.1 (fresh p.recorded config options found.2
      (after (setUp p.storage config options) (atRoot p config world)))
    rw [if_pos hd, ← h]
    exact congrArg Except.ok hb.2.symm
  · cases h

end Session

end CompileWatch
