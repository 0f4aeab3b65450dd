import CompileWatch.Proofs.Watch.Steps
import CompileWatch.Storage.Memory
import CompileWatch.Storage.Rehearsed

/-!
# Every tracked file keeps its timer

Taking the due timers removes them, so for the time of a tick the files that are
being checked have none. That no file is lost there rests on one thing only:
whatever a check finds, and whatever becomes of its emission, it leaves the
timers alone (`SameBooks`) and is followed by `arm`. The timers after a tick are
therefore those before it with the checked ones armed anew, and nothing has to
be known of the storage or of the front end.

`tracked_files_stay_polled` is the outcome for runs. What a run still owes to
its users are the paths woken since its last tick; they are read off the steps
themselves (`woken`), so that the statement does not rest on the pending paths
of the session.
-/

namespace CompileWatch

open CompileWatch.Path

/-! ## Timers of several files -/

namespace PollSchedule

def armEach (s : PollSchedule) (now : Moment) (paths : List Path) : PollSchedule :=
  paths.foldl (fun s path => s.arm path now) s

def wakeEach (s : PollSchedule) (now : Moment) (paths : List Path) : PollSchedule :=
  paths.foldl (fun s path => s.wake path now) s

theorem interval_armEach (now : Moment) : ∀ (paths : List Path) (s : PollSchedule),
    (s.armEach now paths).interval = s.interval
  | [], _ => rfl
  | path :: rest, s => interval_armEach now rest (s.arm path now)

theorem find?_armEach (now : Moment) (q : Path) : ∀ (paths : List Path) (s : PollSchedule),
    (s.armEach now paths).due.find? q =
      if paths.any (·.same q) then some (now + s.interval) else s.due.find? q
  | [], _ => rfl
  | path :: rest, s => by
      have ih := find?_armEach now q rest (s.arm path now)
      simp only [arm, Table.find?_set] at ih
      rw [armEach, List.foldl_cons, ← armEach, arm, ih, List.any_cons]
      cases path.same q <;> cases rest.any (·.same q) <;> rfl

theorem mem_keys_armEach (now : Moment) {q : Path} : ∀ {paths : List Path} {s : PollSchedule},
    paths.Pairwise (compare · · = .lt) → (∀ path ∈ paths, s.due.contains path = false) →
      (q ∈ (s.armEach now paths).due.keys ↔ q ∈ paths ∨ q ∈ s.due.keys)
  | [], s, _, _ => by simp [armEach]
  | path :: rest, s, ho, hn => by
      rw [List.pairwise_cons] at ho
      have hrest : ∀ r ∈ rest, (s.arm path now).due.contains r = false := by
        intro r hr
        have hne : ¬ path.same r = true := by rw [same_iff_compare, ho.1 r hr]; decide
        simp only [arm, Table.contains, Table.find?_set, if_neg hne]
        exact hn r (List.mem_cons_of_mem _ hr)
      have ih := mem_keys_armEach now (q := q) ho.2 hrest
      rw [armEach, List.foldl_cons, ← armEach, ih, arm,
        Table.mem_keys_set _ (hn path List.mem_cons_self), List.mem_cons, or_assoc, or_left_comm]

theorem wake_interval (s : PollSchedule) (path : Path) (now : Moment) :
    (s.wake path now).interval = s.interval := by
  unfold wake
  split <;> rfl

theorem keys_wake (s : PollSchedule) (path : Path) (now : Moment) :
    (s.wake path now).due.keys = s.due.keys := by
  unfold wake
  split
  · next h => exact Table.keys_set_of_contains now h
  · rfl

theorem find?_wake (s : PollSchedule) (path q : Path) (now : Moment) :
    (s.wake path now).due.find? q =
      if path.same q then (s.due.find? q).map fun _ => now else s.due.find? q := by
  unfold wake
  cases hs : path.same q with
  | true =>
      rw [Table.contains, Table.find?_congr s.due hs]
      cases hf : s.due.find? q with
      | none => simp [hf]
      | some t => simp [Table.find?_set, hs]
  | false =>
      split
      · simp [Table.find?_set, hs]
      · rfl

theorem interval_wakeEach (now : Moment) : ∀ (paths : List Path) (s : PollSchedule),
    (s.wakeEach now paths).interval = s.interval
  | [], _ => rfl
  | path :: rest, s => (interval_wakeEach now rest (s.wake path now)).trans (s.wake_interval path now)

theorem keys_wakeEach (now : Moment) : ∀ (paths : List Path) (s : PollSchedule),
    (s.wakeEach now paths).due.keys = s.due.keys
  | [], _ => rfl
  | path :: rest, s => (keys_wakeEach now rest (s.wake path now)).trans (s.keys_wake path now)

theorem find?_wakeEach (now : Moment) (q : Path) : ∀ (paths : List Path) (s : PollSchedule),
    (s.wakeEach now paths).due.find? q =
      if paths.any (·.same q) then (s.due.find? q).map fun _ => now else s.due.find? q
  | [], _ => rfl
  | path :: rest, s => by
      have ih := find?_wakeEach now q rest (s.wake path now)
      rw [wakeEach, List.foldl_cons, ← wakeEach, ih, find?_wake, List.any_cons]
      cases path.same q <;> cases rest.any (·.same q) <;> simp [Function.comp_def]

/-! ## Taking timers -/

theorem dueAt_eq (s : PollSchedule) (now : Moment) :
    s.dueAt now = s.due.keys.filter fun f => (s.due.find? f).any (· ≤ now) := by
  have h : ∀ e ∈ s.due.rows, (s.due.find? e.1.path).any (· ≤ now) = decide (e.2 ≤ now) := by
    intro e he
    rw [Table.find?_of_mem he]
    rfl
  simp only [dueAt, Table.entries, Table.keys, List.filter_map, List.map_map]
  congr 1
  exact List.filter_congr fun e he => (h e he).symm

/-- Timers that are due are found by the names of their files. -/
theorem any_dueAt (s : PollSchedule) (now : Moment) (g : Path) :
    (s.dueAt now).any (·.same g) = (s.due.find? g).any (· ≤ now) := by
  rw [dueAt_eq, Bool.eq_iff_iff, List.any_eq_true]
  constructor
  · rintro ⟨f, hf, hfg⟩
    rw [← s.due.find?_congr hfg]
    exact (List.mem_filter.1 hf).2
  · intro hdue
    obtain ⟨t, ht, _⟩ := (Option.any_eq_true _ _).1 hdue
    have hcontains : s.due.contains g = true := by
      rw [Table.contains, ht]
      rfl
    obtain ⟨f, hf, hfg⟩ := (Table.contains_iff _ _).1 hcontains
    exact ⟨f, List.mem_filter.2 ⟨hf, by rwa [s.due.find?_congr hfg]⟩, hfg⟩

theorem find?_takeDue (s : PollSchedule) (now : Moment) (q : Path) :
    (s.takeDue now).2.due.find? q = (s.due.find? q).filter fun t => !(t ≤ now) :=
  s.due.find?_filter (fun t => !(t ≤ now)) q

theorem mem_keys_takeDue (s : PollSchedule) (now : Moment) {q : Path} :
    q ∈ s.dueAt now ∨ q ∈ (s.takeDue now).2.due.keys ↔ q ∈ s.due.keys := by
  simp only [dueAt, takeDue, Table.entries, Table.keys, Table.filter, List.mem_map, List.mem_filter]
  constructor
  · rintro (⟨_, ⟨⟨e, he, rfl⟩, _⟩, rfl⟩ | ⟨e, ⟨he, _⟩, rfl⟩)
    · exact ⟨e, he, rfl⟩
    · exact ⟨e, he, rfl⟩
  · rintro ⟨e, he, rfl⟩
    by_cases hn : e.2 ≤ now
    · exact .inl ⟨_, ⟨⟨e, he, rfl⟩, by simpa using hn⟩, rfl⟩
    · exact .inr ⟨e, ⟨he, by simpa using hn⟩, rfl⟩

/-- The due timers, taken and armed again: no file has lost its timer or got a new one. -/
theorem keys_rearm (s : PollSchedule) (now : Moment) :
    ((s.takeDue now).2.armEach now (s.dueAt now)).due.keys = s.due.keys := by
  have ho : (s.dueAt now).Pairwise (compare · · = .lt) := by
    rw [dueAt_eq]
    exact s.due.pairwise_keys.filter _
  have hn : ∀ f ∈ s.dueAt now, (s.takeDue now).2.due.contains f = false := by
    intro f hf
    rw [dueAt_eq, List.mem_filter] at hf
    obtain ⟨t, ht, hle⟩ := (Option.any_eq_true _ _).1 hf.2
    rw [Table.contains, find?_takeDue, ht]
    simp [of_decide_eq_true hle]
  refine Table.eq_of_mem_iff (Table.pairwise_keys _) s.due.pairwise_keys fun q => ?_
  rw [mem_keys_armEach now ho hn]
  exact s.mem_keys_takeDue now

end PollSchedule

theorem keys_trackAll {σ : Type} (storage : Storage σ) (now : Moment) :
    ∀ (files : List Path) (table : VersionTable) (schedule : PollSchedule) (store : σ),
      schedule.due.keys = table.files →
        (schedule.armEach now files).due.keys =
          (answer (Session.trackAll storage table files) store).files
  | [], _, _, _, h => h
  | path :: rest, table, schedule, store, h => by
      have hset : ∀ modified, (schedule.arm path now).due.keys = (table.track path modified).files := by
        intro modified
        rw [VersionTable.track, VersionTable.files, Table.keys_setNew]
        exact Table.keys_set_congr h path _ _
      exact keys_trackAll storage now rest _ _ _ (hset _)

namespace Session

variable {σ κ : Type} {p : Platform σ κ}

/-! ## The timers of a session -/

/-- A check of a file, whatever becomes of it, changes at most the entry of a tracked file. -/
theorem books_check (path : Path) (s : Session σ κ) :
    (after (check p path) s).versions.files = s.versions.files ∧
      (after (check p path) s).schedule = s.schedule ∧
      (after (check p path) s).pending = s.pending ∧
      (after (check p path) s).stopped = s.stopped := by
  rw [after_check]
  cases hc : change? p path s with
  | none => exact ⟨rfl, rfl, rfl, rfl⟩
  | some found =>
      obtain ⟨entry, time⟩ := found
      have h := sameBooks_emitLogged p path (enter path entry time (timed p path s))
      refine ⟨?_, h.schedule, h.pending, h.stopped⟩
      obtain ⟨_, hfound, _⟩ := change?_eq_some hc
      have hcontains : s.versions.entries.contains path = true := by
        rw [Table.contains, hfound]
        rfl
      rw [h.versions]
      exact Table.keys_set_of_contains _ hcontains

theorem books_checkAll (now : Moment) : ∀ (paths : List Path) (s : Session σ κ),
    (after (checkAll p now paths) s).versions.files = s.versions.files ∧
      (after (checkAll p now paths) s).schedule = s.schedule.armEach now paths ∧
      (after (checkAll p now paths) s).pending = s.pending ∧
      (after (checkAll p now paths) s).stopped = s.stopped
  | [], _ => ⟨rfl, rfl, rfl, rfl⟩
  | path :: rest, s => by
      obtain ⟨hf, hs, hp, ht⟩ := books_checkAll now rest (polled p now path s)
      obtain ⟨hf', hs', hp', ht'⟩ := books_check (p := p) path s
      rw [after_checkAll_cons]
      refine ⟨hf.trans hf', ?_, hp.trans hp', ht.trans ht'⟩
      rw [hs, polled, after_arm, hs']
      rfl

theorem pairwise_dueFiles (now : Moment) (s : Session σ κ) :
    (dueFiles now s).Pairwise (·.same · = false) := by
  have hd : dueFiles now s = (s.schedule.wakeEach now s.pending.paths.keys).dueAt now := rfl
  rw [hd, PollSchedule.dueAt_eq]
  refine ((Table.pairwise_keys _).filter _).imp fun {f g} hlt => ?_
  rw [Bool.eq_false_iff, ne_eq, same_iff_compare, hlt]
  decide

/-- Whether a tick looks at a file: its timer is due, or it was woken. -/
def isDue (now : Moment) (woken : List Path) (s : Session σ κ) (file : Path) : Bool :=
  (s.schedule.due.find? file).any (· ≤ now) || woken.any (·.same file)

/-- The paths that wait for the next tick, after a step. -/
def Step.waiting : Step σ → List Path → List Path
  | tick _, _ => []
  | wake path, paths => path :: paths
  | _, paths => paths

/-- The paths woken since the last tick of a run. -/
def woken (steps : List (Step σ)) : List Path :=
  steps.foldl (fun paths step => step.waiting paths) []

/-- A session in which the tracked files are those with timers, and the pending paths are known. -/
structure Timed (files : List Path) (interval : Nat) (waiting : List Path) (s : Session σ κ) :
    Prop where
  running : s.stopped = false
  tracked : s.versions.files = files
  timers : s.schedule.due.keys = files
  interval_eq : s.schedule.interval = interval
  pending : ∀ path, s.pending.paths.contains path = waiting.any (·.same path)

namespace Timed

variable {files waiting : List Path} {interval : Nat} {s : Session σ κ}

theorem of_sameBooks (h : Timed files interval waiting s) {t : Session σ κ} (hb : SameBooks s t) :
    Timed files interval waiting t where
  running := hb.stopped.trans h.running
  tracked := hb.versions ▸ h.tracked
  timers := hb.schedule ▸ h.timers
  interval_eq := hb.schedule ▸ h.interval_eq
  pending := hb.pending ▸ h.pending

section Tick

variable (h : Timed files interval waiting s) (now : Moment)

include h

theorem any_pending (path : Path) :
    s.pending.paths.keys.any (·.same path) = waiting.any (·.same path) := by
  rw [← h.pending, Bool.eq_iff_iff, Table.contains_iff, List.any_eq_true]

theorem dueFiles_eq : dueFiles now s = files.filter (s.isDue now waiting) := by
  have hd : dueFiles now s = (s.schedule.wakeEach now s.pending.paths.keys).dueAt now := rfl
  rw [hd, PollSchedule.dueAt_eq, PollSchedule.keys_wakeEach, h.timers]
  refine List.filter_congr fun f hf => ?_
  rw [PollSchedule.find?_wakeEach, h.any_pending, isDue]
  have hfound : s.schedule.due.contains f = true :=
    Table.contains_of_mem_keys (h.timers.symm ▸ hf)
  obtain ⟨t, ht⟩ := Option.isSome_iff_exists.1 hfound
  rw [ht]
  cases waiting.any (·.same f) <;> simp

theorem schedule_tick :
    (after (tick p now) s).schedule =
      (opened now s).schedule.armEach now (files.filter (s.isDue now waiting)) := by
  rw [after_tick_of_running h.running, (books_checkAll now _ _).2.1, h.dueFiles_eq]

theorem tick : Timed files interval [] (after (tick p now) s) := by
  obtain ⟨hf, hs, hp, ht⟩ := books_checkAll (p := p) now (dueFiles now s) (opened now s)
  rw [← after_tick_of_running h.running] at hf hs hp ht
  refine ⟨ht.trans h.running, hf.trans h.tracked, ?_, ?_, fun path => ?_⟩
  · rw [hs]
    have hk := PollSchedule.keys_rearm (s.schedule.wakeEach now s.pending.paths.keys) now
    exact hk.trans ((PollSchedule.keys_wakeEach now _ _).trans h.timers)
  · rw [hs, PollSchedule.interval_armEach]
    exact (PollSchedule.interval_wakeEach now _ _).trans h.interval_eq
  · rw [hp]
    rfl

/-- Every file that a tick looks at is due one interval later; the timer of any other file stays
as it was. -/
theorem find?_schedule_tick {f : Path} (hf : f ∈ files) :
    (after (Session.tick p now) s).schedule.due.find? f =
      if s.isDue now waiting f then some (now + interval) else s.schedule.due.find? f := by
  have hi : (opened now s).schedule.interval = interval :=
    (PollSchedule.interval_wakeEach now _ _).trans h.interval_eq
  have ho : (opened now s).schedule =
      ((s.schedule.wakeEach now s.pending.paths.keys).takeDue now).2 := rfl
  have hany : (files.filter (s.isDue now waiting)).any (·.same f) = s.isDue now waiting f := by
    rw [Bool.eq_iff_iff, List.any_eq_true]
    constructor
    · rintro ⟨g, hg, hgf⟩
      rw [List.mem_filter, ← h.timers] at hg
      rw [← h.timers] at hf
      rw [← Table.eq_of_mem_keys hg.1 hf hgf]
      exact hg.2
    · exact fun hd => ⟨f, List.mem_filter.2 ⟨hf, hd⟩, same_self _⟩
  rw [h.schedule_tick, PollSchedule.find?_armEach, hany, hi, ho, PollSchedule.find?_takeDue,
    PollSchedule.find?_wakeEach, h.any_pending]
  split
  · rfl
  · next hd =>
    simp only [isDue, Bool.or_eq_true, not_or, Bool.not_eq_true] at hd
    rw [hd.2, if_neg (by decide)]
    cases ht : s.schedule.due.find? f with
    | none => rfl
    | some t =>
        have hlate : ¬ t ≤ now := by simpa [ht] using hd.1
        simp [hlate]

end Tick

theorem act (h : Timed files interval waiting s) {step : Step σ} (hstep : step ≠ .shutdown) :
    Timed files interval (step.waiting waiting) (after (step.act p) s) := by
  cases step with
  | tick now => exact h.tick now
  | wake path =>
      refine ⟨h.running, h.tracked, h.timers, h.interval_eq, fun q => ?_⟩
      show (s.pending.paths.setNew path ()).contains q = (path :: waiting).any (·.same q)
      rw [Table.contains, Table.find?_setNew, List.any_cons, ← h.pending q, Table.contains]
      cases path.same q <;> rfl
  | emit path => exact h.of_sameBooks (sameBooks_emitFile p path s)
  | shutdown => exact absurd rfl hstep
  | outside change => exact ⟨h.running, h.tracked, h.timers, h.interval_eq, h.pending⟩

theorem play : ∀ (steps : List (Step σ)) {waiting : List Path} {s : Session σ κ},
    Timed files interval waiting s → .shutdown ∉ steps →
      Timed files interval (steps.foldl (fun paths step => step.waiting paths) waiting)
        (Session.play p steps s)
  | [], _, _, h, _ => h
  | step :: rest, _, _, h, hn => by
      rw [List.mem_cons, not_or] at hn
      exact play rest (h.act fun heq => hn.1 heq.symm) hn.2

theorem start {config : HostConfig} {options : WatchOptions} {world : World σ}
    {session : Session σ κ} (h : (Session.start p config options world).1 = .ok session) :
    Timed session.versions.files options.interval [] session := by
  obtain ⟨files, found, journal, -, rfl⟩ := start_ok h
  have hb := fun s => sameBooks_emitAll p files (announced files s)
  rw [after_begin, after_armAll]
  refine ⟨?_, rfl, ?_, ?_, fun path => ?_⟩
  · rw [(hb _).stopped]
    rfl
  · rw [(hb _).schedule, (hb _).versions]
    exact keys_trackAll p.storage 0 files {} _ found rfl
  · rw [(hb _).schedule]
    exact PollSchedule.interval_armEach 0 files _
  · rw [(hb _).pending]
    rfl

end Timed

/-! ## Ends -/

theorem stopped_shutdown (s : Session σ κ) :
    (after (shutdown : Action σ κ Unit) s).stopped = true := by
  rw [after_shutdown]
  split
  · next hstopped => exact hstopped
  · rfl

theorem keeps_act_stopped (step : Step σ) :
    Keeps (fun s : Session σ κ => s.stopped = true) (step.act p) := by
  intro s hs
  cases step with
  | tick now =>
      show (after (tick p now) s).stopped = true
      rw [after_tick_of_stopped hs]
      exact hs
  | wake path => exact hs
  | emit path => exact (sameBooks_emitFile p path s).stopped.trans hs
  | shutdown => exact stopped_shutdown s
  | outside change => exact hs

/-- Steps that ask for no emission and come from no one else. -/
def Step.IsRoutine : Step σ → Prop
  | tick _ | wake _ | shutdown => True
  | _ => False

@[simp]
theorem Step.isRoutine_tick (now : Moment) : (tick now : Step σ).IsRoutine := trivial

@[simp]
theorem Step.isRoutine_wake (path : Path) : (wake path : Step σ).IsRoutine := trivial

/-- A session that was ended takes in the paths that are woken, and does nothing else. -/
theorem play_of_stopped : ∀ (steps : List (Step σ)) {s : Session σ κ}, s.stopped = true →
    (∀ step ∈ steps, step.IsRoutine) → ∃ pending, play p steps s = { s with pending }
  | [], s, _, _ => ⟨s.pending, rfl⟩
  | step :: rest, s, hs, hroutine => by
      have hstep : ∃ pending, after (step.act p) s = { s with pending } := by
        have hone := hroutine step List.mem_cons_self
        cases step with
        | tick now => exact ⟨s.pending, after_tick_of_stopped hs⟩
        | wake path => exact ⟨_, rfl⟩
        | emit path => exact hone.elim
        | shutdown => exact ⟨s.pending, (after_shutdown s).trans (if_pos hs)⟩
        | outside change => exact hone.elim
      obtain ⟨pending, hpending⟩ := hstep
      obtain ⟨pending', hrest⟩ := play_of_stopped rest (s := { s with pending }) hs
        fun later hl => hroutine later (List.mem_cons_of_mem _ hl)
      refine ⟨pending', ?_⟩
      show play p rest (after (step.act p) s) = _
      rw [hpending, hrest]

/-- A session that has started goes on with all its timers, until it is ended for good. -/
theorem timed_or_stopped {config : HostConfig} {options : WatchOptions} {world : World σ}
    {session : Session σ κ} (hstart : (start p config options world).1 = .ok session)
    (steps : List (Step σ)) :
    (∃ waiting,
        Timed session.versions.files options.interval waiting (play p steps session)) ∨
      (play p steps session).stopped = true := by
  by_cases hopen : .shutdown ∈ steps
  · obtain ⟨before, later, rfl⟩ := List.append_of_mem hopen
    refine .inr ?_
    rw [play_append]
    show (play p later (after shutdown (play p before session))).stopped = true
    exact keeps_play (fun step _ => keeps_act_stopped step) _ (stopped_shutdown _)
  · exact .inl ⟨_, (Timed.start hstart).play steps hopen⟩

/-! ## Outcome -/

/-- In every session that was not ended, the armed timers are those of the files that were tracked
at the start. A tick checks, in path order and each once, the files whose timers are due and those
that were woken since the last tick. After it these are due one interval later, and every other
timer is as it was. -/
theorem tracked_files_stay_polled {config : HostConfig} {options : WatchOptions} {world : World σ}
    {session : Session σ κ} (hstart : (start p config options world).1 = .ok session)
    {steps : List (Step σ)} (hopen : .shutdown ∉ steps) :
    let files := session.versions.files
    let s := play p steps session
    s.versions.files = files ∧ s.schedule.due.keys = files ∧
      ∀ now,
        let checked := files.filter (s.isDue now (woken steps))
        let t := after (tick p now) s
        checked.Pairwise (compare · · = .lt) ∧
          t = after (checkAll p now checked) (opened now s) ∧
          answer (tick p now) s = answer (checkAll p now checked) (opened now s) ∧
          t.schedule.due.keys = files ∧ t.pending = {} ∧
          ∀ f ∈ files, t.schedule.due.find? f =
            if f ∈ checked then some (now + options.interval) else s.schedule.due.find? f := by
  intro files s
  have h : Timed files options.interval (woken steps) s := (Timed.start hstart).play steps hopen
  refine ⟨h.tracked, h.timers, fun now => ?_⟩
  intro checked t
  have hdue : dueFiles now s = checked := h.dueFiles_eq now
  have ht : Timed files options.interval [] t := h.tick now
  refine ⟨?_, ?_, ?_, ht.timers, ?_, fun f hf => ?_⟩
  · exact session.versions.entries.pairwise_keys.filter _
  · rw [← hdue]
    exact after_tick_of_running h.running
  · rw [← hdue]
    exact answer_tick_of_running h.running
  · exact (congrArg (·.pending) (after_tick_of_running h.running)).trans
      (books_checkAll now _ (opened now s)).2.2.1
  · have hmem : f ∈ checked ↔ s.isDue now (woken steps) f = true := by
      simp [checked, List.mem_filter, hf]
    rw [h.find?_schedule_tick now hf]
    simp only [hmem]

/-- A disk with two sources, to which nothing can be written. -/
def fullDisk : Rehearsed Memory.Store where
  inner := Memory.exact.withFiles [(⟨"/p/a.ts"⟩, "let a"), (⟨"/p/b.ts"⟩, "let b")]
  faults := [⟨.write, none, .io, "disk full", none⟩]

/-- Steps in which the clock goes back and a path is woken that no session tracks. -/
def strangeSteps : List (Step σ) := [.tick 5, .wake ⟨"/p/c.ts"⟩, .tick 3, .emit ⟨"/p/a.ts"⟩]

theorem tracked_files_stay_polled_fullDisk :
    ∃ session, (start (LineChecker.platform (Rehearsed.storage Memory.exact.storage))
        (.plain "/p") { interval := 0 } ⟨fullDisk, []⟩).1 = .ok session ∧
      (play (LineChecker.platform (Rehearsed.storage Memory.exact.storage)) strangeSteps
        session).schedule.due.keys = session.versions.files := by
  obtain ⟨session, h, _⟩ := exists_start (P := fun _ => true)
    (show (start (LineChecker.platform (Rehearsed.storage Memory.exact.storage)) (.plain "/p")
      { interval := 0 } ⟨fullDisk, []⟩).1.toOption.any (fun _ => true) = true by decide +kernel)
  exact ⟨session, h, (tracked_files_stay_polled h (by simp [strangeSteps])).2.1⟩

end Session

end CompileWatch
