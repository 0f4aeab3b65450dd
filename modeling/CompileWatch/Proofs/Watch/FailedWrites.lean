import CompileWatch.Proofs.Watch.Emissions
import CompileWatch.Proofs.Watch.Failures
import CompileWatch.Proofs.Watch.Stream

/-!
# A failed write hurts one file

An emission writes its artifacts in order and ends at the first write that is
refused (`FailsAt`). What has been written by then stays, the rest is not tried,
and the session goes on as if the emission had not been one of its files' but for
one event that tells of the error.

The loops around emissions do not look at how these end. So that the others are
still emitted, checked and armed is proved of any emission, failed or not, and
what a failed one adds is where it stands among them. Which files a tick has
checked is read off the times that it has asked for: nothing else asks for times.
-/

namespace CompileWatch

open CompileWatch.Path

/-! ## Writes until one is refused -/

/-- The state in which some artifacts have been written in order, if no write was refused. -/
def Storage.lay {σ : Type} (storage : Storage σ) : List Artifact → σ → Option σ
  | [], s => some s
  | a :: rest, s =>
    if (answer (storage.write a.path a.content) s).isOk then
      storage.lay rest (after (storage.write a.path a.content) s)
    else none

theorem writeEach_of_refused {σ : Type} {storage : Storage σ} {a : Artifact} {rest : List Artifact}
    {e : FsError} : ∀ {made : List Artifact} {s t : σ}, storage.lay made s = some t →
      answer (storage.write a.path a.content) t = .error e →
      answer (writeEach storage (made ++ a :: rest)) s = .error (.write a.path e) ∧
        after (writeEach storage (made ++ a :: rest)) s = after (storage.write a.path a.content) t
  | [], s, t, hlay, hrefused => by
      cases hlay
      rw [List.nil_append, writeEach, answer_bind, after_bind, hrefused]
      exact ⟨rfl, rfl⟩
  | b :: made, s, t, hlay, hrefused => by
      rw [Storage.lay] at hlay
      split at hlay
      · next hok =>
        obtain ⟨hanswer, hafter⟩ := writeEach_of_refused hlay hrefused
        rw [List.cons_append, writeEach, answer_bind, after_bind]
        cases hb : answer (storage.write b.path b.content) s with
        | error e => rw [hb] at hok; cases hok
        | ok done =>
            refine ⟨?_, hafter⟩
            show Except.map _ (answer (writeEach storage (made ++ a :: rest)) _) = _
            rw [hanswer]
            rfl
      · cases hlay

/-! ## What a trace shows -/

/-- The path of a write, and whether it was made. -/
def Call.write? : Call → Option (Path × Bool)
  | write path made => some (path, made)
  | _ => none

/-- The path of a reading of a time. -/
def Call.reading? : Call → Option Path
  | modified path => some path
  | _ => none

namespace Traced

variable {σ : Type} {inside : Storage σ}

theorem calls_lay : ∀ {artifacts : List Artifact} {s t : Traced σ},
    (storage inside).lay artifacts s = some t →
      t.calls = s.calls ++ artifacts.map fun a => .write a.path true
  | [], s, t, hlay => by
      cases hlay
      exact (List.append_nil _).symm
  | a :: rest, s, t, hlay => by
      rw [Storage.lay] at hlay
      split at hlay
      · next hok =>
        have hone : (after ((storage inside).write a.path a.content) s).calls =
            s.calls ++
              [.write a.path (answer ((storage inside).write a.path a.content) s).isOk] := rfl
        rw [calls_lay hlay, hone, hok, List.map_cons, List.append_assoc]
        rfl
      · cases hlay

/-- Looks leave alone what is picked out of the calls, if no look is picked. -/
theorem looks_filterMap {β : Type} {f : Call → Option β}
    (hf : ∀ path, f (.contains path) = none ∧ f (.isDir path) = none ∧
      f (.isSymlink path) = none ∧ f (.read path) = none ∧ f (.list path) = none)
    (picked : List β) : (storage inside).Looks fun t => t.calls.filterMap f = picked := by
  have hlook : ∀ {α : Type} (call : Call) (action : StateM σ α), f call = none →
      Keeps (fun t : Traced σ => t.calls.filterMap f = picked) (traced (fun _ => call) action) := by
    intro α call action hnone t ht
    rw [after_traced, List.filterMap_append, ht]
    simp [hnone]
  exact ⟨fun path => hlook _ _ (hf path).1, fun path => hlook _ _ (hf path).2.1,
    fun path => hlook _ _ (hf path).2.2.1, fun path => hlook _ _ (hf path).2.2.2.1,
    fun path => hlook _ _ (hf path).2.2.2.2⟩

theorem looks_writes (picked : List (Path × Bool)) :
    (storage inside).Looks fun t => t.calls.filterMap Call.write? = picked :=
  looks_filterMap (fun _ => ⟨rfl, rfl, rfl, rfl, rfl⟩) picked

theorem looks_readings (picked : List Path) :
    (storage inside).Looks fun t => t.calls.filterMap Call.reading? = picked :=
  looks_filterMap (fun _ => ⟨rfl, rfl, rfl, rfl, rfl⟩) picked

end Traced

namespace Session

/-! ## Emissions whose write is refused -/

section Refused

variable {σ κ : Type} {p : Platform σ κ}

/-- Whether an emission of a file writes some artifacts and then has the write of another refused,
in the state that these have left. -/
structure FailsAt (p : Platform σ κ) (file : Path) (s : Session σ κ) (made : List Artifact)
    (a : Artifact) (e : FsError) (store : σ) : Prop where
  emits : (answer (askOutput p file) s).emitSkipped = false
  artifacts : made ++ [a] <+: (answer (askOutput p file) s).artifacts
  laid : p.storage.lay made (asked p file s).world.store = some store
  refused : answer (p.storage.write a.path a.content) store = .error e

/-- What is told of an emission whose write was refused. -/
def toldOfFailure (p : Platform σ κ) (file : Path) (s : Session σ κ) (a : Artifact) (e : FsError) :
    List WatchEvent :=
  (said p file s).map .ofDiagnostic ++
    [.error s!"{file.text}: {(HostError.write a.path e).message}"]

variable {file : Path} {s : Session σ κ} {made : List Artifact} {a : Artifact} {e : FsError}
  {store : σ} (h : FailsAt p file s made a e store)

include h

theorem FailsAt.written : written p file s = .error (.write a.path e) ∧
    after (writing p (answer (askOutput p file) s)) (asked p file s).world.store =
      after (p.storage.write a.path a.content) store := by
  obtain ⟨rest, hartifacts⟩ := h.artifacts
  rw [← List.append_cons] at hartifacts
  have hwriting : writing p (answer (askOutput p file) s) =
      writeEach p.storage (made ++ a :: rest) := by
    rw [writing, h.emits, ← hartifacts]
    rfl
  rw [Session.written, hwriting]
  exact writeEach_of_refused h.laid h.refused

theorem FailsAt.answer_emitFile :
    answer (emitFile p file) s = .error (.write a.path e) := by
  rw [Session.answer_emitFile, (exists_delivered p file s).1, h.written.1]
  rfl

theorem FailsAt.after_emitFile : ∃ journal, after (emitFile p file) s =
    { asked p file s with
      world := ⟨after (p.storage.write a.path a.content) store, journal⟩
      events := s.events ++ (said p file s).map .ofDiagnostic } := by
  obtain ⟨journal, hafter⟩ := exists_emitFile p file s
  refine ⟨journal, hafter.trans ?_⟩
  have hnone : success p file s (.error (.write a.path e)) = [] := rfl
  rw [emission, h.written.2, h.written.1, hnone, List.append_nil]

theorem FailsAt.after_emitLogged : ∃ journal, after (emitLogged p file) s =
    { asked p file s with
      world := ⟨after (p.storage.write a.path a.content) store, journal⟩
      events := s.events ++ toldOfFailure p file s a e } := by
  obtain ⟨journal, hafter⟩ := exists_emitLogged p file s
  refine ⟨journal, hafter.trans ?_⟩
  rw [emission, h.written.2, h.written.1]
  rfl

end Refused

/-! ## Traced emissions -/

section Trace

variable {σ κ : Type} {inside : Storage σ} {p : Platform (Traced σ) κ}
  (hp : p.storage = Traced.storage inside) (hfe : p.frontEnd.OnlyLooks)

include hp hfe

theorem writes_asked (file : Path) (s : Session (Traced σ) κ) :
    (asked p file s).world.store.calls.filterMap Call.write? =
      s.world.store.calls.filterMap Call.write? := by
  have hlooks : p.storage.Looks fun t => t.calls.filterMap Call.write? =
      s.world.store.calls.filterMap Call.write? := by
    rw [hp]
    exact Traced.looks_writes _
  exact keeps_askDiagnostics hlooks hfe file _ (keeps_askOutput hlooks hfe file s rfl)

/-- An emission that fails has tried the writes up to the refused one, and no other. -/
theorem FailsAt.writes_eq {file : Path} {s : Session (Traced σ) κ} {made : List Artifact}
    {a : Artifact} {e : FsError} {store : Traced σ} (h : FailsAt p file s made a e store) :
    (after (p.storage.write a.path a.content) store).calls.filterMap Call.write? =
      s.world.store.calls.filterMap Call.write? ++ made.map (·.path, true) ++
        [(a.path, false)] := by
  have hlaid := h.laid
  have hrefused := h.refused
  rw [hp] at hlaid hrefused ⊢
  have hlast : (after ((Traced.storage inside).write a.path a.content) store).calls =
      store.calls ++ [.write a.path (answer ((Traced.storage inside).write a.path a.content)
        store).isOk] := rfl
  have hmade : (made.map fun b => Call.write b.path true).filterMap Call.write? =
      made.map (·.path, true) := by
    rw [List.filterMap_map]
    exact congrFun List.filterMap_eq_map made
  rw [hlast, hrefused, Traced.calls_lay hlaid, List.filterMap_append, List.filterMap_append,
    writes_asked hp hfe, hmade]
  rfl

theorem readings_emitLogged (file : Path) (s : Session (Traced σ) κ) :
    (after (emitLogged p file) s).world.store.calls.filterMap Call.reading? =
      s.world.store.calls.filterMap Call.reading? := by
  have rule := emissionRule_onFiles (p := p) (R := fun _ t => t.calls.filterMap Call.reading? =
    s.world.store.calls.filterMap Call.reading?) hfe ?_ ?_ file
  · exact rule.emitLogged (s := s) rfl
  · rw [hp]
    exact fun _ => Traced.looks_readings _
  · intro _ path content t ht
    rw [hp]
    show (t.calls ++ [_]).filterMap Call.reading? = _
    rw [List.filterMap_append, ht]
    exact List.append_nil _

/-- A check asks for one time, whatever it finds and whatever becomes of the emission. -/
theorem readings_check (file : Path) (s : Session (Traced σ) κ) :
    (after (check p file) s).world.store.calls.filterMap Call.reading? =
      s.world.store.calls.filterMap Call.reading? ++ [file] := by
  have htimed : (timed p file s).world.store.calls.filterMap Call.reading? =
      s.world.store.calls.filterMap Call.reading? ++ [file] := by
    show (after (p.storage.modified file) s.world.store).calls.filterMap _ = _
    rw [hp]
    exact List.filterMap_append
  rw [after_check]
  cases change? p file s with
  | none => exact htimed
  | some found => exact (readings_emitLogged hp hfe file _).trans htimed

theorem readings_checkAll (now : Moment) : ∀ (files : List Path) (s : Session (Traced σ) κ),
    (after (checkAll p now files) s).world.store.calls.filterMap Call.reading? =
      s.world.store.calls.filterMap Call.reading? ++ files
  | [], s => (List.append_nil _).symm
  | file :: rest, s => by
      have hone := readings_check hp hfe file s
      have hrest := readings_checkAll now rest (polled p now file s)
      rw [after_checkAll_cons, hrest, List.append_cons]
      exact congrArg (· ++ rest) hone

end Trace

/-! ## The loops around emissions -/

section Loops

variable {σ κ : Type} {p : Platform σ κ}

/-- Whether an event tells how the emission of a file has ended. -/
def Concludes (file : Path) (event : WatchEvent) : Prop :=
  (∃ artifacts skipped, event = .emitted file.text artifacts skipped) ∨
    ∃ message : String, event = .error s!"{file.text}: {message}"

theorem exists_told (file : Path) (s : Session σ κ) : ∃ told outcome,
    (after (emitLogged p file) s).events = s.events ++ told ∧
      told.filter (·.isOutcome) = [outcome] ∧ Concludes file outcome := by
  obtain ⟨journal, hafter⟩ := exists_emitLogged p file s
  have hdiagnostics : ((said p file s).map WatchEvent.ofDiagnostic).filter (·.isOutcome) = [] := by
    simp [WatchEvent.ofDiagnostic, WatchEvent.isOutcome]
  refine ⟨_, closing p file s (written p file s), congrArg (·.events) hafter, ?_, ?_⟩
  · rw [List.filter_append, hdiagnostics, List.nil_append]
    cases written p file s <;> rfl
  · cases written p file s with
    | error e => exact .inr ⟨e.message, rfl⟩
    | ok paths => exact .inl ⟨_, _, rfl⟩

theorem exists_told_emitAll : ∀ (files : List Path) (s : Session σ κ), ∃ told,
    (after (emitAll p files) s).events = s.events ++ told ∧
      List.Forall₂ Concludes files (told.filter (·.isOutcome))
  | [], s => ⟨[], (List.append_nil _).symm, .nil⟩
  | file :: rest, s => by
      obtain ⟨told, outcome, hone, hfilter, hconcludes⟩ := exists_told (p := p) file s
      obtain ⟨later, hrest, hall⟩ := exists_told_emitAll rest (after (emitLogged p file) s)
      refine ⟨told ++ later, ?_, ?_⟩
      · rw [after_emitAll_cons, hrest, hone, List.append_assoc]
      · rw [List.filter_append, hfilter]
        exact .cons hconcludes hall

theorem after_emitAll_split {file : Path} {mid : Session σ κ}
    {remaining : List (Path × Session σ κ)} :
    ∀ (files : List Path) (s : Session σ κ) {earlier : List (Path × Session σ κ)},
      emissions p files s = earlier ++ (file, mid) :: remaining →
      after (emitAll p files) s =
        after (emitAll p (remaining.map (·.1))) (after (emitLogged p file) mid)
  | [], _, _, h => absurd h.symm (by simp [emissions])
  | path :: rest, s, [], h => by
      obtain ⟨hfirst, hrest⟩ := List.cons.inj h
      cases hfirst
      rw [after_emitAll_cons, ← hrest, map_fst_emissions]
  | path :: rest, s, _ :: _, h => after_emitAll_split rest _ (List.cons.inj h).2

theorem after_checkAll_split {now : Moment} {file : Path} {mid : Session σ κ}
    {remaining : List (Path × Session σ κ)} :
    ∀ (files : List Path) (s : Session σ κ) {earlier : List (Path × Session σ κ)},
      polls p now files s = earlier ++ (file, mid) :: remaining →
      after (checkAll p now files) s =
        after (checkAll p now (remaining.map (·.1))) (polled p now file mid)
  | [], _, _, h => absurd h.symm (by simp [polls])
  | path :: rest, s, [], h => by
      obtain ⟨hfirst, hrest⟩ := List.cons.inj h
      cases hfirst
      rw [after_checkAll_cons, ← hrest, map_fst_polls]
  | path :: rest, s, _ :: _, h => after_checkAll_split rest _ (List.cons.inj h).2

theorem events_checkAll (now : Moment) : ∀ (files : List Path) (s : Session σ κ),
    s.events <+: (after (checkAll p now files) s).events
  | [], _ => List.prefix_refl _
  | file :: rest, s => by
      have hone : s.events <+: (after (check p file) s).events := by
        rw [after_check]
        cases change? p file s with
        | none => exact List.prefix_refl _
        | some found =>
            obtain ⟨told, _, htold, _⟩ :=
              exists_told (p := p) file (enter file found.1 found.2 (timed p file s))
            exact ⟨_, (htold.trans (List.append_assoc _ _ _)).symm⟩
      exact hone.trans (events_checkAll now rest (polled p now file s))

/-! ## Starts -/

/-- The files of a session that starts, and the session that is about to emit them. -/
def launched (p : Platform σ κ) (config : HostConfig) (options : WatchOptions) (world : World σ) :
    List Path × Session σ κ :=
  let found := answer (setUp p.storage config options) (atRoot p config world)
  (found.1, announced found.1 (fresh p config options found.2
    (after (setUp p.storage config options) (atRoot p config world))))

variable {config : HostConfig} {options : WatchOptions} {world : World σ} {session : Session σ κ}

theorem start_launched (h : (start p config options world).1 = .ok session) :
    let launch := launched p config options world
    session = after (armAll 0 launch.1) (after (emitAll p launch.1) launch.2) := by
  rw [start_eq] at h
  split at h
  · injection h with h
    exact h.symm
  · cases h

theorem armed_of_start (h : (start p config options world).1 = .ok session) {g : Path}
    (hg : g ∈ (launched p config options world).1) :
    session.schedule.due.find? g = some options.interval := by
  have hbooks := sameBooks_emitAll p (launched p config options world).1
    (launched p config options world).2
  have hinterval : (launched p config options world).2.schedule.interval = options.interval := rfl
  have hany : (launched p config options world).1.any (·.same g) = true :=
    List.any_eq_true.2 ⟨g, hg, same_self g⟩
  rw [start_launched h, after_armAll, ← PollSchedule.armEach, hbooks.schedule,
    PollSchedule.find?_armEach, if_pos hany, hinterval, Nat.zero_add]

end Loops

end Session

/-! ## Ticks -/

namespace Session

section Ticks

variable {σ κ : Type} {p : Platform σ κ} {s : Session σ κ}

theorem find?_opened {now : Moment} {g : Path} (hg : (dueFiles now s).any (·.same g) = false) :
    (opened now s).schedule.due.find? g = s.schedule.due.find? g := by
  have hdue : dueFiles now s = (s.schedule.wakeEach now s.pending.paths.keys).dueAt now := rfl
  have hopened : (opened now s).schedule =
      ((s.schedule.wakeEach now s.pending.paths.keys).takeDue now).2 := rfl
  rw [hdue, PollSchedule.any_dueAt] at hg
  rw [hopened, PollSchedule.find?_takeDue]
  rw [PollSchedule.find?_wakeEach] at hg ⊢
  split at hg
  · next hwoken =>
    rw [if_pos hwoken]
    cases ht : s.schedule.due.find? g with
    | none => rfl
    | some t => simp [ht] at hg
  · next hwoken =>
    rw [if_neg hwoken]
    cases ht : s.schedule.due.find? g with
    | none => rfl
    | some t =>
        rw [ht] at hg
        simp_all

/-- A tick arms the files that it has checked, and leaves all other timers alone. -/
theorem find?_tick (h : s.stopped = false) (now : Moment) (g : Path) :
    (after (tick p now) s).schedule.due.find? g =
      if (dueFiles now s).any (·.same g) then some (now + s.schedule.interval)
      else s.schedule.due.find? g := by
  have hinterval : (opened now s).schedule.interval = s.schedule.interval :=
    PollSchedule.interval_wakeEach now _ _
  rw [after_tick_of_running h, (books_checkAll now _ _).2.1, PollSchedule.find?_armEach, hinterval]
  split
  · rfl
  · next hg => exact find?_opened (by simpa using hg)

end Ticks

/-! ## Outcome -/

section Outcome

variable {σ κ : Type} {inside : Storage σ} {p : Platform (Traced σ) κ}

/-- What a refused write comes to: the emission ends in the error of the storage, with all that was
to be said of the file told, the artifacts before the refused one written, and no other tried. The
books of the session are as they were, and so they are when the error is told as an event. -/
structure EndsAt (p : Platform (Traced σ) κ) (file : Path) (s : Session (Traced σ) κ)
    (made : List Artifact) (a : Artifact) (e : FsError) (store : Traced σ) : Prop where
  result : answer (emitFile p file) s = .error (.write a.path e)
  events : (after (emitFile p file) s).events = s.events ++ (said p file s).map .ofDiagnostic
  store : (after (emitFile p file) s).world.store = after (p.storage.write a.path a.content) store
  writes : (after (emitFile p file) s).world.store.calls.filterMap Call.write? =
    s.world.store.calls.filterMap Call.write? ++ made.map (·.path, true) ++ [(a.path, false)]
  books : SameBooks s (after (emitFile p file) s)
  logged : (after (emitLogged p file) s).events = s.events ++ toldOfFailure p file s a e
  logged_store :
    (after (emitLogged p file) s).world.store = (after (emitFile p file) s).world.store
  logged_books : SameBooks s (after (emitLogged p file) s)

variable (hp : p.storage = Traced.storage inside) (hfe : p.frontEnd.OnlyLooks)

include hp hfe

theorem FailsAt.endsAt {file : Path} {s : Session (Traced σ) κ} {made : List Artifact}
    {a : Artifact} {e : FsError} {store : Traced σ} (h : FailsAt p file s made a e store) :
    EndsAt p file s made a e store := by
  obtain ⟨_, hfile⟩ := h.after_emitFile
  obtain ⟨_, hlogged⟩ := h.after_emitLogged
  refine ⟨h.answer_emitFile, congrArg (·.events) hfile, congrArg (·.world.store) hfile, ?_,
    sameBooks_emitFile p file s, congrArg (·.events) hlogged, ?_, sameBooks_emitLogged p file s⟩
  · rw [hfile]
    exact h.writes_eq hp hfe
  · rw [hfile, hlogged]

/-- A write that is refused hurts one file. Its emission ends there (`EndsAt`). In a start, all
files that remain are emitted, and all files are armed. In a tick, all due files that remain are checked,
as the times asked for show, and all due files are armed again. -/
theorem failed_write_hurts_one_file :
    (∀ file s made a e store, FailsAt p file s made a e store →
      EndsAt p file s made a e store) ∧
    (∀ config options world session, (start p config options world).1 = .ok session →
      let files := (launched p config options world).1
      ∀ earlier file s remaining,
        emissions p files (launched p config options world).2 = earlier ++ (file, s) :: remaining →
      ∀ made a e store, FailsAt p file s made a e store →
        (∃ later, session.events = s.events ++ toldOfFailure p file s a e ++ later ∧
          List.Forall₂ Concludes (remaining.map (·.1)) (later.filter (·.isOutcome))) ∧
        ∀ g ∈ files, session.schedule.due.find? g = some options.interval) ∧
    (∀ now s, s.stopped = false → ∀ earlier file mid remaining,
        polls p now (dueFiles now s) (opened now s) = earlier ++ (file, mid) :: remaining →
      ∀ entry time, change? p file mid = some (entry, time) →
      ∀ made a e store, FailsAt p file (enter file entry time (timed p file mid)) made a e store →
        let t := after (tick p now) s
        mid.events ++ .fileChanged file.text (entry.version + 1) ::
            toldOfFailure p file (enter file entry time (timed p file mid)) a e <+: t.events ∧
          t.world.store.calls.filterMap Call.reading? =
            mid.world.store.calls.filterMap Call.reading? ++ file :: remaining.map (·.1) ∧
          t.stopped = false ∧
          ∀ g, t.schedule.due.find? g =
            if (dueFiles now s).any (·.same g) then some (now + s.schedule.interval)
            else s.schedule.due.find? g) := by
  refine ⟨fun file s made a e store h => h.endsAt hp hfe, ?_, ?_⟩
  · intro config options world session hstart files earlier file s remaining hsplit made a e store h
    refine ⟨?_, fun g hg => armed_of_start hstart hg⟩
    obtain ⟨later, hevents, houtcomes⟩ :=
      exists_told_emitAll (p := p) (remaining.map (·.1)) (after (emitLogged p file) s)
    refine ⟨later, ?_, houtcomes⟩
    rw [start_launched hstart, after_armAll, after_emitAll_split _ _ hsplit]
    rw [(h.endsAt hp hfe).logged] at hevents
    exact hevents
  · intro now s hrunning earlier file mid remaining hsplit entry time hchange made a e store h
    have htick : after (tick p now) s =
        after (checkAll p now (remaining.map (·.1))) (polled p now file mid) :=
      (after_tick_of_running hrunning).trans (after_checkAll_split _ _ hsplit)
    refine ⟨?_, ?_, ?_, find?_tick hrunning now⟩
    · have hpolled : (polled p now file mid).events = mid.events ++
          .fileChanged file.text (entry.version + 1) ::
            toldOfFailure p file (enter file entry time (timed p file mid)) a e := by
        show (after (check p file) mid).events = _
        rw [after_check, hchange]
        refine (h.endsAt hp hfe).logged.trans ?_
        exact List.append_assoc _ _ _
      rw [htick, ← hpolled]
      exact events_checkAll now _ _
    · rw [htick, readings_checkAll hp hfe]
      have hone : (polled p now file mid).world.store.calls.filterMap Call.reading? = _ :=
        readings_check hp hfe file mid
      rw [hone, List.append_assoc]
      rfl
    · rw [after_tick_of_running hrunning, (books_checkAll now _ _).2.2.2]
      exact hrunning

end Outcome

/-! ## A disk that takes no declarations -/

section Example

variable {σ κ : Type} {p : Platform σ κ} {file : Path} {s : Session σ κ} {made : List Artifact}
  {a : Artifact} {e : FsError}

theorem exists_failsAt_iff : (∃ store, FailsAt p file s made a e store) ↔
    (answer (askOutput p file) s).emitSkipped = false ∧
      made ++ [a] <+: (answer (askOutput p file) s).artifacts ∧
      ((p.storage.lay made (asked p file s).world.store).any fun store =>
        match answer (p.storage.write a.path a.content) store with
        | .error e' => e' == e
        | .ok _ => false) = true := by
  constructor
  · rintro ⟨store, h⟩
    refine ⟨h.emits, h.artifacts, ?_⟩
    rw [h.laid, Option.any_some, h.refused]
    exact beq_self_eq_true e
  · rintro ⟨hemits, hartifacts, hany⟩
    obtain ⟨store, hlaid, hrefused⟩ := (Option.any_eq_true _ _).1 hany
    refine ⟨store, hemits, hartifacts, hlaid, ?_⟩
    split at hrefused
    · next e' hanswer => rw [hanswer, eq_of_beq hrefused]
    · cases hrefused

instance : Decidable (∃ store, FailsAt p file s made a e store) :=
  decidable_of_iff _ exists_failsAt_iff.symm

end Example

def declaringConfig : HostConfig :=
  ⟨{ outDir := some ⟨"/p/dist"⟩, declaration := true, sourceMap := true }, ⟨"/p"⟩, {}⟩

/-- Two sources, on a disk that takes their texts but not the declarations of the first. -/
def noDeclarations : World (Traced (Rehearsed Memory.Store)) :=
  ⟨⟨{ inner := Memory.exact.withFiles [(⟨"/p/a.ts"⟩, "v1"), (⟨"/p/b.ts"⟩, "v1")]
      faults := [⟨.write, some ⟨"/p/dist/a.d.ts"⟩, .io, "disk full", none⟩] }, []⟩, []⟩

def tracedFailing : Platform (Traced (Rehearsed Memory.Store)) LineChecker.Knowledge :=
  LineChecker.platform (Traced.storage (Rehearsed.storage Memory.exact.storage))

/-- The first source is replaced. -/
def replaced (text : String) : List (Step (Traced (Rehearsed Memory.Store))) :=
  [.outside fun t => { t with inner := { t.inner with
    inner := (Memory.Edit.insert ⟨"/p/a.ts"⟩ text).change Memory.exact t.inner.inner } }]

/-- The artifacts of the first source: the one that is written, and the one that is refused. -/
def spoiled (text : String) : List Artifact × Artifact :=
  ([⟨⟨"/p/dist/a.js"⟩, text⟩], ⟨⟨"/p/dist/a.d.ts"⟩, "export \x7b\x7d;"⟩)

/-- The other source is emitted at the start, and checked in a tick after the first has changed. -/
theorem failed_write_hurts_one_file_declarations :
    ∃ session, (start tracedFailing declaringConfig {} noDeclarations).1 = .ok session ∧
      answer (emitFile tracedFailing ⟨"/p/a.ts"⟩) session =
        .error (.write ⟨"/p/dist/a.d.ts"⟩ (.io "disk full")) ∧
      (∃ earlier later, session.events = earlier ++ later ∧
        List.Forall₂ Concludes [⟨"/p/b.ts"⟩] (later.filter (·.isOutcome))) ∧
      ∃ earlier, (after (tick tracedFailing 300)
        (play tracedFailing (replaced "v2") session)).world.store.calls.filterMap Call.reading? =
          earlier ++ [⟨"/p/a.ts"⟩, ⟨"/p/b.ts"⟩] := by
  obtain ⟨session, h, hrun⟩ := exists_start
    (show (start tracedFailing declaringConfig {} noDeclarations).1.toOption.any (fun session =>
      let s := play tracedFailing (replaced "v2") session
      decide (∃ store, FailsAt tracedFailing ⟨"/p/a.ts"⟩ session (spoiled "v1").1 (spoiled "v1").2
        (.io "disk full") store) &&
      !s.stopped && dueFiles 300 s == [⟨"/p/a.ts"⟩, ⟨"/p/b.ts"⟩] &&
      (change? tracedFailing ⟨"/p/a.ts"⟩ (opened 300 s)).any fun (entry, time) =>
        decide (∃ store, FailsAt tracedFailing ⟨"/p/a.ts"⟩
          (enter ⟨"/p/a.ts"⟩ entry time (timed tracedFailing ⟨"/p/a.ts"⟩ (opened 300 s)))
          (spoiled "v2").1 (spoiled "v2").2 (.io "disk full") store)) = true by decide +kernel)
  simp only [Bool.and_eq_true, Bool.not_eq_true', decide_eq_true_eq, beq_iff_eq] at hrun
  obtain ⟨⟨⟨⟨_, hasked⟩, hrunning⟩, hdue⟩, hchange⟩ := hrun
  obtain ⟨⟨entry, time⟩, hchange, hfails⟩ := (Option.any_eq_true _ _).1 hchange
  obtain ⟨_, hticked⟩ := of_decide_eq_true hfails
  have hfiles : (launched tracedFailing declaringConfig {} noDeclarations).1 =
      [⟨"/p/a.ts"⟩, ⟨"/p/b.ts"⟩] := by decide +kernel
  obtain ⟨_, hstarted⟩ : ∃ store, FailsAt tracedFailing ⟨"/p/a.ts"⟩
      (launched tracedFailing declaringConfig {} noDeclarations).2 (spoiled "v1").1
      (spoiled "v1").2 (.io "disk full") store := by decide +kernel
  obtain ⟨hemission, hstart, htick⟩ := failed_write_hurts_one_file (p := tracedFailing) rfl
    LineChecker.frontEnd_onlyLooks
  obtain ⟨⟨later, hevents, hlater⟩, _⟩ := hstart declaringConfig {} noDeclarations session h
    [] _ _ _ (by rw [hfiles]; rfl) _ _ _ _ hstarted
  obtain ⟨_, hreadings, _⟩ := htick 300 _ hrunning [] _ _ _ (by rw [hdue]; rfl) entry time hchange
    _ _ _ _ hticked
  exact ⟨session, h, (hemission _ _ _ _ _ _ hasked).result, ⟨_, later, hevents, hlater⟩, _,
    hreadings⟩

end Session

end CompileWatch
