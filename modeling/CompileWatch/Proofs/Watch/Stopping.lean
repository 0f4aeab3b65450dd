import CompileWatch.Proofs.Watch.Emissions
import CompileWatch.Proofs.Watch.Timers
import CompileWatch.Watch.Background
import Mathlib.Logic.Relation

/-!
# Stopping

A session ends once, by a shutdown, and from then on it checks nothing and tells
nothing by itself (`play_of_stopped`). A file can still be emitted on request, and
an emission between a shutdown and the start of the loop is told after the end
(`emitted_after_shutdown`). A background session ends when its holder wants it to:
the flag is lowered at any moment, the loop looks at it between two rounds, and
the holder waits until the loop is over.

What the holder does can fall anywhere into what the loop does, so the moves of
the two are those of a transition system (`Move`), in which a step of the loop is
begun, carried out in parts, and finished. Where it is taken apart is left open:
its rest can be any action that comes after any first part. What is known all the
while is how a step that was begun will have ended (`Runs`), and a step is always
finished before the loop can be over.
-/

namespace CompileWatch

namespace Session

variable {σ κ : Type} {p : Platform σ κ}

/-! ## Sessions and their end -/

/-- What a session says of its end is said once, and it has no timers then. -/
structure EndsOnce (s : Session σ κ) : Prop where
  told : s.events.count .shutdown = if s.stopped then 1 else 0
  timers : s.stopped = true → s.schedule.due = .empty

theorem count_said (file : Path) (s : Session σ κ) :
    ((said p file s).map WatchEvent.ofDiagnostic).count .shutdown = 0 :=
  List.count_eq_zero.2 fun hmem => by
    obtain ⟨d, _, hd⟩ := List.mem_map.1 hmem
    cases hd

theorem count_emission (file : Path) (s : Session σ κ) {told : List WatchEvent}
    (htold : told.count .shutdown = 0) (journal : List LogEntry) :
    (emission p file s ((said p file s).map .ofDiagnostic ++ told) journal).events.count .shutdown =
      s.events.count .shutdown := by
  show (s.events ++ ((said p file s).map WatchEvent.ofDiagnostic ++ told)).count _ = _
  rw [List.count_append, List.count_append, count_said, htold]
  rfl

theorem count_emitFile (file : Path) (s : Session σ κ) :
    (after (emitFile p file) s).events.count .shutdown = s.events.count .shutdown := by
  obtain ⟨journal, hafter⟩ := exists_emitFile p file s
  rw [hafter]
  exact count_emission file s (by cases written p file s <;> rfl) journal

theorem count_emitLogged (file : Path) (s : Session σ κ) :
    (after (emitLogged p file) s).events.count .shutdown = s.events.count .shutdown := by
  obtain ⟨journal, hafter⟩ := exists_emitLogged p file s
  rw [hafter]
  exact count_emission file s (by cases written p file s <;> rfl) journal

theorem count_emitAll : ∀ (files : List Path) (s : Session σ κ),
    (after (emitAll p files) s).events.count .shutdown = s.events.count .shutdown
  | [], _ => rfl
  | file :: rest, s => (count_emitAll rest _).trans (count_emitLogged file s)

theorem count_check (file : Path) (s : Session σ κ) :
    (after (check p file) s).events.count .shutdown = s.events.count .shutdown := by
  rw [after_check]
  cases change? p file s with
  | none => rfl
  | some found =>
      rw [count_emitLogged]
      exact List.count_append

theorem count_tick (now : Moment) (s : Session σ κ) :
    (after (tick p now) s).events.count .shutdown = s.events.count .shutdown :=
  keeps_tick (Q := fun t => t.events.count .shutdown = s.events.count .shutdown)
    (fun _ _ _ _ h => h) now (fun file t ht => (count_check file t).trans ht) s rfl

theorem stopped_tick (now : Moment) (s : Session σ κ) :
    (after (tick p now) s).stopped = s.stopped := by
  cases hs : s.stopped with
  | true => rw [after_tick_of_stopped hs, hs]
  | false =>
      rw [after_tick_of_running hs, (books_checkAll now _ _).2.2.2]
      exact hs

theorem stopped_act {step : Step σ} (hstep : step ≠ .shutdown) (s : Session σ κ) :
    (after (step.act p) s).stopped = s.stopped := by
  cases step with
  | tick now => exact stopped_tick now s
  | wake path => rfl
  | emit path => exact (sameBooks_emitFile p path s).stopped
  | shutdown => exact absurd rfl hstep
  | outside change => rfl

theorem EndsOnce.act {s : Session σ κ} (h : EndsOnce s) (step : Step σ) :
    EndsOnce (after (step.act p) s) := by
  cases step with
  | tick now =>
      show EndsOnce (after (tick p now) s)
      cases hs : s.stopped with
      | true => rwa [after_tick_of_stopped hs]
      | false =>
          have hstopped := (stopped_tick (p := p) now s).trans hs
          refine ⟨?_, fun hended => ?_⟩
          · rw [count_tick, h.told, hstopped, hs]
          · rw [hstopped] at hended
            cases hended
  | wake path => exact ⟨h.told, h.timers⟩
  | emit path =>
      have hbooks := sameBooks_emitFile p path s
      refine ⟨?_, fun hended => ?_⟩
      · show (after (emitFile p path) s).events.count .shutdown =
          if (after (emitFile p path) s).stopped then 1 else 0
        rw [count_emitFile, h.told, hbooks.stopped]
      · exact (congrArg (·.due) hbooks.schedule).trans (h.timers (hbooks.stopped.symm.trans hended))
  | shutdown =>
      show EndsOnce (after shutdown s)
      rw [after_shutdown]
      cases hs : s.stopped with
      | true => exact h
      | false =>
          refine ⟨?_, fun _ => rfl⟩
          have htold := h.told
          rw [hs] at htold
          show (s.events ++ [WatchEvent.shutdown]).count .shutdown = 1
          rw [List.count_append, htold]
          rfl
  | outside change => exact ⟨h.told, h.timers⟩

theorem EndsOnce.play : ∀ (steps : List (Step σ)) {s : Session σ κ}, EndsOnce s →
    EndsOnce (Session.play p steps s)
  | [], _, h => h
  | step :: rest, _, h => play rest (h.act step)

section Start

variable {config : HostConfig} {options : WatchOptions} {world : World σ} {started : Session σ κ}
  (hstart : (start p config options world).1 = .ok started)

include hstart

theorem endsOnce_start : EndsOnce started := by
  have hrunning : started.stopped = false := (Timed.start hstart).running
  refine ⟨?_, fun hended => ?_⟩
  · obtain ⟨files, found, journal, -, heq⟩ := start_ok hstart
    rw [hrunning, heq, after_begin, after_armAll]
    exact count_emitAll files _
  · rw [hrunning] at hended
    cases hended

end Start

/-! ## Steps after the end -/

/-- Steps of which the rounds of a loop consist. -/
def Step.IsRound : Step σ → Prop
  | tick _ | wake _ => True
  | _ => False

theorem events_play_of_stopped : ∀ (steps : List (Step σ)) {s : Session σ κ}, s.stopped = true →
    (∀ path, .emit path ∉ steps) → (play p steps s).events = s.events
  | [], _, _, _ => rfl
  | step :: rest, s, hs, hemit => by
      have hstopped : (after (step.act p) s).stopped = true := keeps_act_stopped step s hs
      have hevents : (after (step.act p) s).events = s.events := by
        cases step with
        | tick now => exact congrArg (·.events) (after_tick_of_stopped hs)
        | wake path => rfl
        | emit path => exact absurd List.mem_cons_self (hemit path)
        | shutdown => exact congrArg (·.events) ((after_shutdown s).trans (if_pos hs))
        | outside change => rfl
      exact (events_play_of_stopped rest hstopped fun path hp =>
        hemit path (List.mem_cons_of_mem _ hp)).trans hevents

/-- Whether no emission is asked for once a session was ended. -/
def NoneEmittedLate : List (Step σ) → Prop
  | [] => True
  | .shutdown :: rest => ∀ path, .emit path ∉ rest
  | _ :: rest => NoneEmittedLate rest

theorem exists_last : ∀ (steps : List (Step σ)) {s : Session σ κ}, s.stopped = false →
    NoneEmittedLate steps → (play p steps s).stopped = true →
      ∃ told, (play p steps s).events = told ++ [.shutdown]
  | [], s, hs, _, hended => by
      rw [show play p [] s = s from rfl, hs] at hended
      cases hended
  | step :: rest, s, hs, hlate, hended => by
      by_cases hstep : step = .shutdown
      · subst hstep
        have hshutdown : after (Step.act p .shutdown) s = s.ended := by
          refine (after_shutdown s).trans ?_
          rw [hs]
          rfl
        refine ⟨s.events, ?_⟩
        show (play p rest (after (Step.act p .shutdown) s)).events = _
        rw [hshutdown, events_play_of_stopped rest rfl hlate]
        rfl
      · have hrest : NoneEmittedLate rest := by
          cases step with
          | shutdown => exact absurd rfl hstep
          | _ => exact hlate
        exact exists_last rest ((stopped_act hstep s).trans hs) hrest hended

end Session

namespace WatchLoop

open Session (Step Action play start)

variable {σ κ : Type} {p : Platform σ κ}

/-! ## The loop and its holder -/

/-- What a step of a loop has its session do, and where the loop goes after it. -/
def plan (now : Moment) (notices : List Path) (loop : WatchLoop σ κ) : List (Step σ) × LoopPhase :=
  match loop.phase with
  | .testing => if loop.running then ([], .ticking) else ([.shutdown], .ended)
  | .ticking => ([.tick now], .waiting)
  | .waiting =>
    match notices with
    | first :: _ => ([.wake first], .draining)
    | [] => ([], .testing)
  | .draining => (notices.map .wake, .testing)
  | .ended => ([], .ended)

/-- Steps of a session as one action. -/
def acts (p : Platform σ κ) : List (Step σ) → Action σ κ Unit
  | [] => pure ()
  | step :: rest => do
    step.act p
    acts p rest

theorem after_acts : ∀ (steps : List (Step σ)) (s : Session σ κ),
    after (acts p steps) s = play p steps s
  | [], _ => rfl
  | _ :: rest, _ => after_acts rest _

theorem after_wakeAll : ∀ (paths : List Path) (s : Session σ κ),
    after (wakeAll paths) s = play p (paths.map .wake) s
  | [], _ => rfl
  | _ :: rest, _ => after_wakeAll rest _

/-- A step of the loop carries out its plan. -/
theorem after_step (now : Moment) (notices : List Path) (loop : WatchLoop σ κ) :
    after (step p now notices) loop =
      { loop with
        session := play p (loop.plan now notices).1 loop.session
        phase := (loop.plan now notices).2 } := by
  obtain ⟨session, running, phase⟩ := loop
  cases phase with
  | testing => cases running <;> rfl
  | ticking => rfl
  | waiting => cases notices <;> rfl
  | draining =>
      have hwakes := after_wakeAll (p := p) notices session
      show (WatchLoop.mk (after (wakeAll notices) session) running .testing) = _
      rw [hwakes]
      rfl
  | ended => rfl

theorem plan_cases (now : Moment) (notices : List Path) {loop : WatchLoop σ κ}
    (h : loop.phase ≠ .ended) :
    loop.plan now notices = ([.shutdown], .ended) ∨
      (loop.plan now notices).2 ≠ .ended ∧ ∀ step ∈ (loop.plan now notices).1, step.IsRound := by
  obtain ⟨session, running, phase⟩ := loop
  cases phase with
  | testing =>
      cases running with
      | true => exact .inr ⟨by simp [plan], fun step hm => by cases hm⟩
      | false => exact .inl rfl
  | ticking =>
      refine .inr ⟨by simp [plan], fun step hm => ?_⟩
      cases List.mem_singleton.1 hm
      trivial
  | waiting =>
      cases notices with
      | nil => exact .inr ⟨by simp [plan], fun step hm => by cases hm⟩
      | cons first rest =>
          refine .inr ⟨by simp [plan], fun step hm => ?_⟩
          cases List.mem_singleton.1 hm
          trivial
  | draining =>
      refine .inr ⟨by simp [plan], fun step hm => ?_⟩
      obtain ⟨path, _, rfl⟩ := List.mem_map.1 hm
      trivial
  | ended => exact absurd rfl h

/-- A loop in the middle of what it does, and the holder who stops it. -/
structure Held (σ κ : Type) where
  loop : WatchLoop σ κ
  /-- What is left of a step that was begun, and where the loop goes after it. -/
  rest : Option (Action σ κ Unit × LoopPhase) := none
  /-- The steps of the session that were begun. -/
  begun : List (Step σ) := []
  /-- Whether the holder has seen the end of the loop. -/
  returned : Bool := false

/-- What the loop and its holder do, in any order. The flag is read when a test is begun, and is
lowered as often as the holder likes: to drop a handle that was stopped lowers it again. -/
inductive Move (p : Platform σ κ) : Held σ κ → Held σ κ → Prop
  | begin (t : Held σ κ) (now : Moment) (notices : List Path) :
    t.rest = none → t.loop.phase ≠ .ended →
    Move p t { t with
      rest := some (acts p (t.loop.plan now notices).1, (t.loop.plan now notices).2)
      begun := t.begun ++ (t.loop.plan now notices).1 }
  | part (t : Held σ κ) {α : Type} (first : Action σ κ α) (later : α → Action σ κ Unit)
    (phase : LoopPhase) : t.rest = some (first >>= later, phase) →
    Move p t { t with
      loop := { t.loop with session := after first t.loop.session }
      rest := some (later (answer first t.loop.session), phase) }
  | finish (t : Held σ κ) (action : Action σ κ Unit) (phase : LoopPhase) :
    t.rest = some (action, phase) →
    Move p t { t with
      loop := { t.loop with session := after action t.loop.session, phase }
      rest := none }
  | lower (t : Held σ κ) : Move p t { t with loop := { t.loop with running := false } }
  | join (t : Held σ κ) : t.loop.running = false → t.rest = none → t.loop.phase = .ended →
    Move p t { t with returned := true }

/-- Any number of moves. -/
def Moves (p : Platform σ κ) : Held σ κ → Held σ κ → Prop := Relation.ReflTransGen (Move p)

namespace Held

/-- The session as it will be when the step that was begun is finished. -/
def outcome (t : Held σ κ) : Session σ κ :=
  match t.rest with
  | none => t.loop.session
  | some (action, _) => after action t.loop.session

/-- Where the loop goes when the step that was begun is finished. -/
def heading (t : Held σ κ) : LoopPhase :=
  match t.rest with
  | none => t.loop.phase
  | some (_, phase) => phase

end Held

/-- What is known of a held loop at any time: its session will have taken all steps that were begun,
and these are rounds, with a shutdown after them if the loop is about to be over. -/
structure Runs (p : Platform σ κ) (session : Session σ κ) (t : Held σ κ) : Prop where
  outcome : t.outcome = play p t.begun session
  rounds : t.heading ≠ .ended → ∀ step ∈ t.begun, step.IsRound
  finished : t.heading = .ended →
    ∃ steps, t.begun = steps ++ [.shutdown] ∧ ∀ step ∈ steps, step.IsRound
  joined : t.returned = true → t.rest = none ∧ t.loop.phase = .ended

namespace Runs

variable {session : Session σ κ} {t u : Held σ κ}

/-- To carry out a part of a step, or all that is left of it, changes nothing of what is known. -/
theorem carried (h : Runs p session t) (hrest : t.rest ≠ none) (houtcome : u.outcome = t.outcome)
    (hheading : u.heading = t.heading) (hbegun : u.begun = t.begun)
    (hreturned : u.returned = t.returned) : Runs p session u where
  outcome := by rw [houtcome, hbegun, h.outcome]
  rounds hopen := by
    rw [hbegun]
    exact h.rounds (hheading ▸ hopen)
  finished hover := by
    rw [hbegun]
    exact h.finished (hheading ▸ hover)
  joined hjoined := absurd (h.joined (hreturned ▸ hjoined)).1 hrest

theorem move (h : Runs p session t) (hm : Move p t u) : Runs p session u := by
  cases hm with
  | begin now notices hrest hphase =>
      have hheading : t.heading = t.loop.phase := by rw [Held.heading, hrest]
      have houtcome : t.outcome = t.loop.session := by rw [Held.outcome, hrest]
      have hrounds := h.rounds (hheading ▸ hphase)
      refine ⟨?_, fun hopen => ?_, fun hover => ?_, fun hreturned => ?_⟩
      · show after (acts p _) t.loop.session = _
        rw [after_acts, Session.play_append, ← h.outcome, houtcome]
      · rcases plan_cases now notices hphase with hplan | ⟨_, hplan⟩
        · exact absurd (congrArg (·.2) hplan) hopen
        · intro step hm
          exact (List.mem_append.1 hm).elim (hrounds step) (hplan step)
      · rcases plan_cases now notices hphase with hplan | ⟨hne, _⟩
        · exact ⟨t.begun, congrArg (t.begun ++ ·) (congrArg (·.1) hplan), hrounds⟩
        · exact absurd hover hne
      · exact absurd (h.joined hreturned).2 hphase
  | part first later phase hrest =>
      refine h.carried (by simp [hrest]) ?_ ?_ rfl rfl
      · rw [Held.outcome, Held.outcome, hrest]
        rfl
      · rw [Held.heading, Held.heading, hrest]
  | finish action phase hrest =>
      refine h.carried (by simp [hrest]) ?_ ?_ rfl rfl
      · rw [Held.outcome, Held.outcome, hrest]
      · rw [Held.heading, Held.heading, hrest]
  | lower => exact ⟨h.outcome, h.rounds, h.finished, h.joined⟩
  | join _ hrest hphase => exact ⟨h.outcome, h.rounds, h.finished, fun _ => ⟨hrest, hphase⟩⟩

theorem moves (h : Runs p session t) (hm : Moves p t u) : Runs p session u := by
  induction hm with
  | refl => exact h
  | tail _ hmove ih => exact ih.move hmove

end Runs

theorem runs_held (loop : WatchLoop σ κ) (h : loop.phase ≠ .ended) :
    Runs p loop.session { loop } where
  outcome := rfl
  rounds _ step hm := by cases hm
  finished hover := absurd hover h
  joined hreturned := by cases hreturned

/-! ## When the holder has returned -/

/-- Nothing but the flag moves when the loop is over. -/
theorem session_of_moves {t u : Held σ κ} (hrest : t.rest = none) (hphase : t.loop.phase = .ended)
    (hm : Moves p t u) :
    u.rest = none ∧ u.loop.phase = .ended ∧ u.loop.session = t.loop.session := by
  induction hm with
  | refl => exact ⟨hrest, hphase, rfl⟩
  | tail _ hmove ih =>
      obtain ⟨hrest, hphase, hsession⟩ := ih
      cases hmove with
      | begin now notices _ hne => exact absurd hphase hne
      | part first later phase hsome => rw [hrest] at hsome; cases hsome
      | finish action phase hsome => rw [hrest] at hsome; cases hsome
      | lower => exact ⟨hrest, hphase, hsession⟩
      | join => exact ⟨hrest, hphase, hsession⟩

/-! ## The holder returns -/

/-- A step of the loop is a run of moves. -/
theorem exists_step {t : Held σ κ} (hrest : t.rest = none) (now : Moment) (notices : List Path) :
    ∃ u, Moves p t u ∧ u.rest = none ∧ u.loop = after (step p now notices) t.loop := by
  by_cases hphase : t.loop.phase = .ended
  · refine ⟨t, .refl, hrest, ?_⟩
    obtain ⟨⟨session, running, phase⟩, rest, begun, returned⟩ := t
    cases hphase
    rfl
  · refine ⟨_, .tail (.single (.begin t now notices hrest hphase)) (.finish _ _ _ rfl), rfl, ?_⟩
    rw [after_step, after_acts]

theorem after_finishRound_succ (now : Moment) (fuel : Nat) (loop : WatchLoop σ κ) :
    after (finishRound p now (fuel + 1)) loop =
      let next := after (step p now []) loop
      if next.phase = .testing ∨ next.phase = .ended then next
      else after (finishRound p now fuel) next := by
  rw [finishRound, after_bind, after_bind, answer_get, after_get]
  dsimp only
  generalize after (step p now []) loop = next
  cases next.phase <;> rfl

theorem exists_finishRound (now : Moment) : ∀ (fuel : Nat) {t : Held σ κ}, t.rest = none →
    ∃ u, Moves p t u ∧ u.rest = none ∧ u.loop = after (finishRound p now fuel) t.loop
  | 0, t, hrest => ⟨t, .refl, hrest, rfl⟩
  | fuel + 1, t, hrest => by
      obtain ⟨u, hmoves, hnone, hloop⟩ := exists_step (p := p) hrest now []
      rw [after_finishRound_succ, ← hloop]
      dsimp only
      split
      · exact ⟨u, hmoves, hnone, rfl⟩
      · obtain ⟨v, hmore, hnone', hloop'⟩ := exists_finishRound now fuel hnone
        exact ⟨v, hmoves.trans hmore, hnone', hloop'⟩

/-- Wherever the loop is in its round, `stop` brings it to its end. -/
theorem phase_stop (now : Moment) (loop : WatchLoop σ κ) :
    (after (stop p now) loop).phase = .ended ∧ (after (stop p now) loop).running = false := by
  obtain ⟨session, running, phase⟩ := loop
  cases phase <;> exact ⟨rfl, rfl⟩

/-- A step that was begun can be finished, and then to stop the loop is a run of moves after which
the holder has returned. -/
theorem exists_stop (t : Held σ κ) (now : Moment) : ∃ u v, Moves p t u ∧ u.rest = none ∧
    Moves p u v ∧ v.returned = true ∧ v.loop = after (stop p now) u.loop := by
  obtain ⟨u, hfinished, hrest⟩ : ∃ u, Moves p t u ∧ u.rest = none := by
    cases hrest : t.rest with
    | none => exact ⟨t, .refl, hrest⟩
    | some later => exact ⟨_, .single (.finish t later.1 later.2 hrest), rfl⟩
  have hlowered : Moves p u { u with loop := { u.loop with running := false } } :=
    .single (.lower u)
  obtain ⟨v, hfirst, hnone, hloop⟩ := exists_finishRound (p := p) now 3
    (t := { u with loop := { u.loop with running := false } }) hrest
  obtain ⟨w, hsecond, hnone', hloop'⟩ := exists_finishRound (p := p) now 3 hnone
  have hstop : w.loop = after (stop p now) u.loop := by rw [hloop', hloop]; rfl
  obtain ⟨hphase, hrunning⟩ := phase_stop (p := p) now u.loop
  rw [← hstop] at hphase hrunning
  exact ⟨u, { w with returned := true }, hfinished, hrest,
    ((hlowered.trans hfirst).trans hsecond).tail (.join w hrunning hnone' hphase), rfl, hstop⟩

/-! ## Outcome -/

section Outcome

open Session (NoneEmittedLate)

/-- What a holder finds who has returned: the loop is over, with nothing left of any step; the
session has taken each step that was begun, and the shutdown after them; it has no timers, and has
told its end once and as the last thing. If the session was ended before it was spawned, the loop
has done nothing, so an emission asked for between the two stands after the end. Nothing that can
still happen changes the session. -/
structure Clean (p : Platform σ κ) (started : Session σ κ) (before : List (Step σ)) (t : Held σ κ) :
    Prop where
  finished : t.loop.phase = .ended ∧ t.rest = none
  begun : ∃ steps, t.begun = steps ++ [.shutdown] ∧ ∀ step ∈ steps, step.IsRound
  session : t.loop.session = play p (before ++ t.begun) started
  timers : t.loop.session.schedule.due = .empty
  once : t.loop.session.events.count .shutdown = 1
  last : NoneEmittedLate before → ∃ told, t.loop.session.events = told ++ [.shutdown]
  ended : (play p before started).stopped = true →
    ∃ pending, t.loop.session = { play p before started with pending }
  still : ∀ u, Moves p t u → u.loop.session = t.loop.session

theorem noneEmittedLate_append {rounds : List (Step σ)} (hrounds : ∀ path, .emit path ∉ rounds) :
    ∀ before : List (Step σ), NoneEmittedLate before → NoneEmittedLate (before ++ rounds)
  | [], _ => by
      induction rounds with
      | nil => trivial
      | cons step rest ih =>
          have hrest : ∀ path, .emit path ∉ rest := fun path hp =>
            hrounds path (List.mem_cons_of_mem _ hp)
          cases step with
          | shutdown => exact hrest
          | _ => exact ih hrest
  | step :: rest, h => by
      cases step with
      | shutdown =>
          intro path hp
          exact (List.mem_append.1 hp).elim (h path) (hrounds path)
      | _ => exact noneEmittedLate_append hrounds rest h

theorem clean_of_returned {config : HostConfig} {options : WatchOptions} {world : World σ}
    {started : Session σ κ} (hstart : (start p config options world).1 = .ok started)
    {before : List (Step σ)} {t : Held σ κ} (h : Runs p (play p before started) t)
    (hreturned : t.returned = true) : Clean p started before t := by
  obtain ⟨hrest, hphase⟩ := h.joined hreturned
  have hheading : t.heading = .ended := by rw [Held.heading, hrest]; exact hphase
  obtain ⟨steps, hbegun, hrounds⟩ := h.finished hheading
  have hsession : t.loop.session = play p (before ++ t.begun) started := by
    have houtcome := h.outcome
    rw [Held.outcome, hrest] at houtcome
    rw [Session.play_append]
    exact houtcome
  have hstopped : t.loop.session.stopped = true := by
    rw [hsession, hbegun, ← List.append_assoc, Session.play_append]
    exact Session.stopped_shutdown _
  have hroutine : ∀ step ∈ t.begun, step.IsRoutine := by
    intro step hm
    rw [hbegun] at hm
    rcases List.mem_append.1 hm with hm | hm
    · cases step with
      | tick _ | wake _ => trivial
      | _ => exact (hrounds _ hm).elim
    · cases List.mem_singleton.1 hm
      trivial
  have hemit : ∀ path, .emit path ∉ t.begun := fun path hm => hroutine _ hm
  have hends : t.loop.session.EndsOnce := by
    rw [hsession]
    exact (Session.endsOnce_start hstart).play _
  refine ⟨⟨hphase, hrest⟩, ⟨steps, hbegun, hrounds⟩, hsession, hends.timers hstopped, ?_,
    fun hlate => ?_, fun hended => ?_, fun u hm => (session_of_moves hrest hphase hm).2.2⟩
  · rw [hends.told, hstopped]
    rfl
  · rw [hsession] at hstopped ⊢
    exact Session.exists_last _ (Session.Timed.start hstart).running
      (noneEmittedLate_append hemit before hlate) hstopped
  · rw [hsession, Session.play_append]
    exact Session.play_of_stopped _ hended hroutine

/-- A step of the loop carries out its plan, and that is what the moves take apart. Whatever the
loop is in the middle of, it can be finished and the loop stopped, and whenever its holder has
returned, it was stopped cleanly. A session that is not in a loop does nothing after a shutdown: its
world, its events and its versions stay as they are, whatever is ticked and woken, and every tick
emits no file. -/
theorem stopping_is_clean (p : Platform σ κ) :
    (∀ (loop : WatchLoop σ κ) now notices, after (step p now notices) loop =
      { loop with
        session := play p (loop.plan now notices).1 loop.session
        phase := (loop.plan now notices).2 }) ∧
    (∀ config options world started, (start p config options world).1 = .ok started →
      ∀ before loop, spawn p (play p before started) = .ok loop →
        ∀ t, Moves p { loop } t →
          (∀ now, ∃ u v, Moves p t u ∧ u.rest = none ∧ Moves p u v ∧ v.returned = true ∧
            v.loop = after (stop p now) u.loop) ∧
          (t.returned = true → Clean p started before t)) ∧
    (∀ (s : Session σ κ) steps, (∀ step ∈ steps, step.IsRoutine) →
      (∃ pending, play p (.shutdown :: steps) s = { play p [.shutdown] s with pending }) ∧
      ∀ earlier now later, steps = earlier ++ .tick now :: later →
        answer (Session.tick p now) (play p (.shutdown :: earlier) s) = 0) := by
  refine ⟨fun loop now notices => after_step now notices loop,
    fun config options world started hstart before loop hspawn t hmoves => ?_,
    fun s steps hroutine => ⟨?_, fun earlier now later hsteps => ?_⟩⟩
  · have hloop : loop = { session := play p before started } := by
      unfold spawn at hspawn
      split at hspawn
      · cases hspawn
      · exact (Except.ok.inj hspawn).symm
    subst hloop
    have hruns : Runs p (play p before started) t :=
      (runs_held _ LoopPhase.noConfusion).moves hmoves
    exact ⟨exists_stop t, clean_of_returned hstart hruns⟩
  · exact Session.play_of_stopped steps (Session.stopped_shutdown s) hroutine
  · have hearlier : ∀ step ∈ earlier, step.IsRoutine := fun step hm =>
      hroutine step (hsteps ▸ List.mem_append_left _ hm)
    obtain ⟨pending, hplay⟩ :=
      Session.play_of_stopped (p := p) earlier (Session.stopped_shutdown s) hearlier
    refine Session.answer_tick_of_stopped ?_
    show (play p earlier (after Session.shutdown s)).stopped = true
    rw [hplay]
    exact Session.stopped_shutdown s

end Outcome

/-! ## A loop that is stopped in a tick -/

def plainChecker : Platform Memory.Store LineChecker.Knowledge :=
  LineChecker.platform Memory.exact.storage

/-- A source that is there from the start. -/
def oneFile : World Memory.Store := ⟨Memory.exact.withFiles [(⟨"/p/a.ts"⟩, "v1")], []⟩

/-- The flag is lowered when a tick has begun. The tick is finished before the loop is over. -/
theorem stopping_is_clean_ticking :
    ∃ started t, (start plainChecker (.plain "/p") {} oneFile).1 = .ok started ∧
      Moves plainChecker { loop := { session := started } } t ∧ t.returned = true ∧
      t.begun = [.tick 300, .shutdown] ∧ ∃ told, t.loop.session.events = told ++ [.shutdown] := by
  obtain ⟨started, h, hoptions⟩ := Session.exists_start
    (show (start plainChecker (.plain "/p") {} oneFile).1.toOption.any (fun started =>
      !started.options.nativeEvents) = true by decide +kernel)
  have hspawn : spawn plainChecker (play plainChecker [] started) = .ok { session := started } := by
    show spawn plainChecker started = _
    rw [spawn, show started.options.nativeEvents = false by simpa using hoptions]
    rfl
  have hticking : Moves plainChecker { loop := { session := started } } _ :=
    ((Relation.ReflTransGen.refl.tail (.begin _ 0 [] rfl LoopPhase.noConfusion)).tail
      (.finish _ _ _ rfl)).tail (.begin _ 300 [] rfl LoopPhase.noConfusion)
  have hfinished := ((hticking.tail (.lower _)).tail
    (.part _ (Step.act plainChecker (.tick 300)) (fun _ => acts plainChecker []) .waiting rfl)).tail
      (.finish _ _ _ rfl)
  have hended := (((hfinished.tail (.begin _ 300 [] rfl LoopPhase.noConfusion)).tail
    (.finish _ _ _ rfl)).tail (.begin _ 300 [] rfl LoopPhase.noConfusion)).tail (.finish _ _ _ rfl)
  have hreturned := hended.tail (.join _ rfl rfl rfl)
  have hclean := ((stopping_is_clean plainChecker).2.1 _ _ _ started h [] _ hspawn _ hreturned).2 rfl
  exact ⟨started, _, h, hreturned, rfl, rfl, hclean.last trivial⟩

/-- The session was ended before it was spawned, and a file emitted between the two. -/
def emittedLate : List (Step Memory.Store) := [.shutdown, .emit ⟨"/p/a.ts"⟩]

/-- An emission that is asked for when a session was ended is told after its end, and a loop that is
stopped then has nothing to add. -/
theorem emitted_after_shutdown :
    ∃ started loop t, (start plainChecker (.plain "/p") {} oneFile).1 = .ok started ∧
      spawn plainChecker (play plainChecker emittedLate started) = .ok loop ∧
      Moves plainChecker { loop } t ∧ t.returned = true ∧
      t.loop.session.events = [.watchStarted "/p" 1, .emitted "/p/a.ts" ["/p/a.js"] false,
        .shutdown, .emitted "/p/a.ts" ["/p/a.js"] false] := by
  obtain ⟨started, h, hrun⟩ := Session.exists_start
    (show (start plainChecker (.plain "/p") {} oneFile).1.toOption.any (fun started =>
      let late := play plainChecker emittedLate started
      !late.options.nativeEvents && late.stopped &&
        late.events == [.watchStarted "/p" 1, .emitted "/p/a.ts" ["/p/a.js"] false, .shutdown,
          .emitted "/p/a.ts" ["/p/a.js"] false]) = true by decide +kernel)
  dsimp only at hrun
  generalize hlate : play plainChecker emittedLate started = late at hrun
  simp only [Bool.and_eq_true, Bool.not_eq_true', beq_iff_eq] at hrun
  obtain ⟨⟨hoptions, hstopped⟩, hevents⟩ := hrun
  have hspawn : spawn plainChecker (play plainChecker emittedLate started) =
      .ok { session := late } := by
    rw [hlate, spawn, hoptions]
    rfl
  have hended : Moves plainChecker { loop := { session := late } } _ :=
    ((Relation.ReflTransGen.refl.tail (.lower _)).tail
      (.begin _ 0 [] rfl LoopPhase.noConfusion)).tail (.finish _ _ _ rfl)
  have hreturned := hended.tail (.join _ rfl rfl rfl)
  have hshutdown : after (acts plainChecker [.shutdown]) late = late := by
    rw [after_acts]
    exact (Session.after_shutdown late).trans (if_pos hstopped)
  refine ⟨started, _, _, h, hspawn, hreturned, rfl, ?_⟩
  exact (congrArg (·.events) hshutdown).trans hevents

end WatchLoop

end CompileWatch
