import CompileWatch.Proofs.Looking
import CompileWatch.Watch.Session

/-!
# What the actions of a session do

Everything that the theory of sessions knows about the definitions of a session
is said here once. An emission is taken apart into its questions to the language
service, its writes and its reports (`EmissionRule`); a check either finds no
later time and does nothing but the reading, or enters the time and emits
(`after_check`); a session that starts has looked at the files, read the times
and then begun (`start_ok`).

A run of a session is a list of steps: what its users ask of it, and changes of
the file system from outside, in any order (`play`).
-/

namespace CompileWatch.Session

variable {σ κ α : Type} {p : Platform σ κ}

/-! ## Equations -/

section Equations

variable (s : Session σ κ)

@[simp]
theorem answer_onStore (x : StateM σ α) :
    answer (onStore x : Action σ κ α) s = answer x s.world.store := rfl

@[simp]
theorem after_onStore (x : StateM σ α) : after (onStore x : Action σ κ α) s =
    { s with world := { s.world with store := after x s.world.store } } := rfl

@[simp]
theorem after_arm (path : Path) (now : Moment) :
    after (arm path now : Action σ κ Unit) s = { s with schedule := s.schedule.arm path now } := rfl

/-- The host that the language service sees in a session. -/
def serviceHost (p : Platform σ κ) : AnalysisHost σ :=
  (p.sessionHost s.world.store s.config s.versions).view

theorem answer_askService (question : AnalysisHost σ → StateT κ (Exec σ) α) :
    answer (askService p question) s =
      (answer ((question (s.serviceHost p)).run s.knowledge) s.world).1 := rfl

theorem after_askService (question : AnalysisHost σ → StateT κ (Exec σ) α) :
    after (askService p question) s =
      { s with
        knowledge := (answer ((question (s.serviceHost p)).run s.knowledge) s.world).2
        world := after ((question (s.serviceHost p)).run s.knowledge) s.world } := rfl

end Equations

/-- A predicate on file systems, asked of the one of a session. -/
def OnStore (P : σ → Prop) (s : Session σ κ) : Prop := P s.world.store

theorem keeps_askService {P : σ → Prop} {question : AnalysisHost σ → StateT κ (Exec σ) α}
    (h : ∀ s : Session σ κ, ∀ k, Keeps (OfStore P) ((question (s.serviceHost p)).run k)) :
    Keeps (OnStore P) (askService p question) := fun s hs => h s _ s.world hs

section Looking

variable {P : σ → Prop} (h : p.storage.Looks P) (hfe : p.frontEnd.OnlyLooks)

include h hfe

theorem looks_serviceHost (s : Session σ κ) : (s.serviceHost p).Looks P :=
  SessionHost.looks_view (p.sessionHost s.world.store s.config s.versions) h hfe

theorem keeps_askOutput (path : Path) : Keeps (OnStore P) (askOutput p path) :=
  keeps_askService fun s => hfe.emitOutput (looks_serviceHost h hfe s) path

theorem keeps_askDiagnostics (path : Path) : Keeps (OnStore P) (askDiagnostics p path) :=
  keeps_askService fun s => hfe.diagnostics (looks_serviceHost h hfe s) path

end Looking

/-! ## Emissions -/

/-- A predicate that reads neither the journal nor the events. -/
def IgnoresReports (Q : Session σ κ → Prop) : Prop :=
  ∀ (s : Session σ κ) journal events,
    Q s → Q { s with world := { s.world with journal }, events }

/-- What has to be shown of the parts of an emission, to know that it leads from sessions with `P`
to sessions with `Q`. The writes need only be those of the artifacts, which have `W`. -/
structure EmissionRule (p : Platform σ κ) (path : Path) (P Q : Session σ κ → Prop)
    (W : Artifact → Prop) : Prop where
  output : ∀ s, P s → Q (after (askOutput p path) s)
  artifacts : ∀ s, P s → ∀ a ∈ (answer (askOutput p path) s).artifacts, W a
  diagnostics : Keeps Q (askDiagnostics p path)
  write : ∀ a, W a → Keeps Q (onStore (p.storage.write a.path a.content) : Action σ κ _)
  reports : IgnoresReports Q

theorem keeps_notify {Q : Session σ κ → Prop} (h : IgnoresReports Q) (event : WatchEvent) :
    Keeps Q (notify event) := fun s hs => h s s.world.journal _ hs

theorem keeps_report {Q : Session σ κ → Prop} (h : IgnoresReports Q) (level : LogLevel)
    (message : String) : Keeps Q (onWorld (Exec.report level message)) :=
  fun s hs => h s _ s.events hs

theorem keeps_surface {Q : Session σ κ → Prop} (h : IgnoresReports Q) :
    ∀ diagnostics, Keeps Q (surface diagnostics)
  | [] => Keeps.pure _
  | _ :: rest =>
      Keeps.bind ((keeps_report h _ _).bind fun _ => Keeps.pure _) fun _ =>
        (keeps_notify h _).bind fun _ => keeps_surface h rest

theorem keeps_writeArtifacts {storage : Storage σ} {Q : Session σ κ → Prop} :
    ∀ {artifacts : List Artifact},
      (∀ a ∈ artifacts, Keeps Q (onStore (storage.write a.path a.content) : Action σ κ _)) →
      Keeps Q (writeArtifacts storage artifacts)
  | [], _ => Keeps.pure _
  | a :: rest, h => by
      refine (h a List.mem_cons_self).bind fun written => ?_
      cases written with
      | error e => exact Keeps.pure _
      | ok _ =>
          exact (keeps_writeArtifacts fun b hb => h b (List.mem_cons_of_mem _ hb)).bind fun _ =>
            Keeps.pure _

theorem keeps_deliver {Q : Session σ κ → Prop} (hr : IgnoresReports Q) {output : EmitOutput}
    (hw : ∀ a ∈ output.artifacts,
      Keeps Q (onStore (p.storage.write a.path a.content) : Action σ κ _)) :
    Keeps Q (deliver p output) := by
  unfold deliver
  split
  · exact (keeps_report hr _ _).bind fun _ => Keeps.pure _
  · exact keeps_writeArtifacts hw

namespace EmissionRule

variable {path : Path} {P Q : Session σ κ → Prop} {W : Artifact → Prop}
  (rule : EmissionRule p path P Q W)

include rule

theorem emitFile {s : Session σ κ} (h : P s) : Q (after (emitFile p path) s) := by
  unfold Session.emitFile
  rw [after_bind]
  have hw := fun a ha => rule.write a (rule.artifacts s h a ha)
  refine Keeps.bind rule.diagnostics (fun diagnostics => ?_) _ (rule.output s h)
  refine (keeps_surface rule.reports diagnostics).bind fun _ =>
    (keeps_deliver rule.reports hw).bind fun result => ?_
  cases result with
  | error e => exact Keeps.pure _
  | ok written => exact (keeps_notify rule.reports _).bind fun _ => Keeps.pure _

theorem emitLogged {s : Session σ κ} (h : P s) : Q (after (emitLogged p path) s) := by
  unfold Session.emitLogged
  rw [after_bind]
  have hq := rule.emitFile h
  split
  · exact hq
  · exact keeps_notify rule.reports _ _ (keeps_report rule.reports _ _ _ hq)

end EmissionRule

/-! ### Their parts -/

section Parts

variable (p : Platform σ κ) (file : Path) (s : Session σ κ)

/-- What is said of a file, before its output is written. -/
def said : List Diagnostic := answer (askDiagnostics p file) (after (askOutput p file) s)

/-- A session that is about to write the output of a file. -/
def surfaced : Session σ κ :=
  after (surface (said p file s)) (after (askDiagnostics p file) (after (askOutput p file) s))

def delivered : Session σ κ :=
  after (deliver p (answer (askOutput p file) s)) (surfaced p file s)

theorem answer_emitFile :
    answer (emitFile p file) s =
      (answer (deliver p (answer (askOutput p file) s)) (surfaced p file s)).map fun written =>
        ⟨written, (answer (askOutput p file) s).emitSkipped, said p file s⟩ := by
  simp only [emitFile, surfaced, said, answer_bind]
  cases answer (deliver p (answer (askOutput p file) s)) (after (surface
    (answer (askDiagnostics p file) (after (askOutput p file) s)))
      (after (askDiagnostics p file) (after (askOutput p file) s))) with
  | error e => rfl
  | ok written => rfl

theorem after_emitFile :
    after (emitFile p file) s =
      match answer (deliver p (answer (askOutput p file) s)) (surfaced p file s) with
      | .error _ => delivered p file s
      | .ok written => after (notify (.emitted file.text (written.map (·.text))
          (answer (askOutput p file) s).emitSkipped)) (delivered p file s) := by
  simp only [emitFile, delivered, surfaced, said, after_bind]
  cases answer (deliver p (answer (askOutput p file) s)) (after (surface
    (answer (askDiagnostics p file) (after (askOutput p file) s)))
      (after (askDiagnostics p file) (after (askOutput p file) s))) with
  | error e => rfl
  | ok written => rfl

theorem after_emitLogged :
    after (emitLogged p file) s =
      match answer (deliver p (answer (askOutput p file) s)) (surfaced p file s) with
      | .error e => after (notify (.error s!"{file.text}: {e.message}"))
          (after (onWorld (Exec.error "emission failed")) (delivered p file s))
      | .ok written => after (notify (.emitted file.text (written.map (·.text))
          (answer (askOutput p file) s).emitSkipped)) (delivered p file s) := by
  rw [emitLogged, after_bind, answer_emitFile, after_emitFile]
  cases answer (deliver p (answer (askOutput p file) s)) (surfaced p file s) with
  | error e => rfl
  | ok written => rfl

end Parts

/-- A predicate on the versions and the files of a session. -/
def OnFiles (R : VersionTable → σ → Prop) (s : Session σ κ) : Prop := R s.versions s.world.store

theorem emissionRule_onFiles {R : VersionTable → σ → Prop} (hfe : p.frontEnd.OnlyLooks)
    (hl : ∀ t, p.storage.Looks (R t))
    (hw : ∀ t path content, Keeps (R t) (p.storage.write path content)) (path : Path) :
    EmissionRule p path (OnFiles R) (OnFiles R) fun _ => True where
  output s h := keeps_askOutput (hl s.versions) hfe path s h
  artifacts _ _ _ _ := trivial
  diagnostics s h := keeps_askDiagnostics (hl s.versions) hfe path s h
  write a _ s h := hw s.versions a.path a.content s.world.store h
  reports _ _ _ h := h

/-- Two sessions that differ at most in the world, the knowledge and the events. -/
structure SameBooks (s t : Session σ κ) : Prop where
  config : t.config = s.config
  options : t.options = s.options
  versions : t.versions = s.versions
  schedule : t.schedule = s.schedule
  pending : t.pending = s.pending
  stopped : t.stopped = s.stopped

theorem SameBooks.refl (s : Session σ κ) : SameBooks s s := ⟨rfl, rfl, rfl, rfl, rfl, rfl⟩

theorem emissionRule_sameBooks (p : Platform σ κ) (path : Path) (s : Session σ κ) :
    EmissionRule p path (SameBooks s) (SameBooks s) fun _ => True where
  output _ h := ⟨h.config, h.options, h.versions, h.schedule, h.pending, h.stopped⟩
  artifacts _ _ _ _ := trivial
  diagnostics _ h := ⟨h.config, h.options, h.versions, h.schedule, h.pending, h.stopped⟩
  write _ _ _ h := ⟨h.config, h.options, h.versions, h.schedule, h.pending, h.stopped⟩
  reports _ _ _ h := ⟨h.config, h.options, h.versions, h.schedule, h.pending, h.stopped⟩

theorem sameBooks_emitFile (p : Platform σ κ) (path : Path) (s : Session σ κ) :
    SameBooks s (after (emitFile p path) s) :=
  (emissionRule_sameBooks p path s).emitFile (.refl s)

theorem sameBooks_emitLogged (p : Platform σ κ) (path : Path) (s : Session σ κ) :
    SameBooks s (after (emitLogged p path) s) :=
  (emissionRule_sameBooks p path s).emitLogged (.refl s)

theorem SameBooks.trans {s t u : Session σ κ} (h : SameBooks s t) (h' : SameBooks t u) :
    SameBooks s u where
  config := h'.config.trans h.config
  options := h'.options.trans h.options
  versions := h'.versions.trans h.versions
  schedule := h'.schedule.trans h.schedule
  pending := h'.pending.trans h.pending
  stopped := h'.stopped.trans h.stopped

theorem sameBooks_emitAll (p : Platform σ κ) : ∀ (files : List Path) (s : Session σ κ),
    SameBooks s (after (emitAll p files) s)
  | [], s => .refl s
  | path :: rest, s =>
      (sameBooks_emitLogged p path s).trans
        (sameBooks_emitAll p rest (after (emitLogged p path) s))

/-! ## Checks -/

/-- The change that a check of a file finds: the entry of the file, and the later time. -/
def change? (p : Platform σ κ) (path : Path) (s : Session σ κ) :
    Option (VersionEntry × Timestamp) :=
  match answer (p.storage.modified path) s.world.store, s.versions.entries.find? path with
  | .ok time, some entry => if entry.isNewer time then some (entry, time) else none
  | _, _ => none

theorem change?_eq_some {path : Path} {s : Session σ κ} {entry : VersionEntry} {time : Timestamp}
    (h : change? p path s = some (entry, time)) :
    answer (p.storage.modified path) s.world.store = .ok time ∧
      s.versions.entries.find? path = some entry ∧ entry.isNewer time = true := by
  unfold change? at h
  split at h
  · next ht he =>
    split at h
    · next hn =>
      cases h
      exact ⟨ht, he, hn⟩
    · cases h
  · cases h

theorem change?_congr {path : Path} {s t : Session σ κ}
    (hm : answer (p.storage.modified path) t.world.store =
      answer (p.storage.modified path) s.world.store)
    (he : t.versions.entries.find? path = s.versions.entries.find? path) :
    change? p path t = change? p path s := by
  rw [change?, change?, hm, he]

/-- A session that has read the time of a file. -/
def timed (p : Platform σ κ) (path : Path) (s : Session σ κ) : Session σ κ :=
  after (onStore (p.storage.modified path)) s

/-- A session that has entered a change of a file, and told of it. -/
def enter (path : Path) (entry : VersionEntry) (time : Timestamp) (s : Session σ κ) :
    Session σ κ :=
  { s with
    versions := ⟨s.versions.entries.set path ⟨entry.version + 1, some time⟩⟩
    world := after (Exec.info "file changed") s.world
    events := s.events ++ [.fileChanged path.text (entry.version + 1)] }

theorem observe_eq (t : VersionTable) (path : Path) (time : Timestamp) :
    t.observe path time =
      match t.entries.find? path with
      | some entry => if entry.isNewer time then
          (some (entry.version + 1), ⟨t.entries.set path ⟨entry.version + 1, some time⟩⟩)
        else (none, t)
      | none => (none, t) := rfl

@[simp]
theorem answer_observe (path : Path) (time : Timestamp) (s : Session σ κ) :
    answer (observe path time) s = (s.versions.observe path time).1 := rfl

@[simp]
theorem after_observe (path : Path) (time : Timestamp) (s : Session σ κ) :
    after (observe path time) s =
      { s with versions := (s.versions.observe path time).2 } := rfl

theorem answer_check (p : Platform σ κ) (path : Path) (s : Session σ κ) :
    answer (check p path) s = (change? p path s).isSome := by
  unfold check change?
  rw [answer_bind, answer_onStore]
  cases answer (p.storage.modified path) s.world.store with
  | error e => rfl
  | ok time =>
      have hv : (timed p path s).versions = s.versions := rfl
      show answer (observe path time >>= _) (timed p path s) = _
      rw [answer_bind, answer_observe, after_observe, hv, observe_eq]
      cases s.versions.entries.find? path with
      | none => rfl
      | some entry =>
          by_cases hn : entry.isNewer time
          · simp only [if_pos hn]
            rfl
          · simp only [if_neg hn]
            rfl

theorem after_check (p : Platform σ κ) (path : Path) (s : Session σ κ) :
    after (check p path) s =
      match change? p path s with
      | none => timed p path s
      | some (entry, time) => after (emitLogged p path) (enter path entry time (timed p path s)) := by
  unfold check change?
  rw [after_bind, answer_onStore]
  cases answer (p.storage.modified path) s.world.store with
  | error e => rfl
  | ok time =>
      have hv : (timed p path s).versions = s.versions := rfl
      show after (observe path time >>= _) (timed p path s) = _
      rw [after_bind, answer_observe, after_observe, hv, observe_eq]
      cases s.versions.entries.find? path with
      | none => rfl
      | some entry =>
          by_cases hn : entry.isNewer time
          · simp only [if_pos hn]
            rfl
          · simp only [if_neg hn]
            rfl

theorem find?_check (path f : Path) (s : Session σ κ) :
    (after (check p path) s).versions.entries.find? f =
      match change? p path s with
      | none => s.versions.entries.find? f
      | some (entry, time) =>
        if path.same f then some ⟨entry.version + 1, some time⟩ else s.versions.entries.find? f := by
  rw [after_check]
  cases change? p path s with
  | none => rfl
  | some found =>
      obtain ⟨entry, time⟩ := found
      have h := sameBooks_emitLogged p path (enter path entry time (timed p path s))
      show (after (emitLogged p path) (enter path entry time (timed p path s))).versions.entries.find?
        f = _
      rw [h.versions]
      simp only [enter, timed, after_onStore, Path.Table.find?_set]

/-- What has to be shown of a check, to know that it keeps a predicate. -/
theorem keeps_check {path : Path} {P Q : Session σ κ → Prop} {W : Artifact → Prop}
    (rule : EmissionRule p path P Q W)
    (htimed : ∀ s, Q s → change? p path s = none → Q (timed p path s))
    (henter : ∀ s entry time, Q s → change? p path s = some (entry, time) →
      P (enter path entry time (timed p path s))) :
    Keeps Q (check p path) := by
  intro s hs
  rw [after_check]
  cases hc : change? p path s with
  | none => exact htimed s hs hc
  | some found =>
      obtain ⟨entry, time⟩ := found
      exact rule.emitLogged (henter s entry time hs hc)

/-! ## Ticks

A tick looks at one file after the other. `polls` gives the files with the
session that each of them is looked at in, so that what a tick does to a file
can be said of the check of that file. -/

/-- The session after a check of a file, with the timer of the file armed again. -/
def polled (p : Platform σ κ) (now : Moment) (path : Path) (s : Session σ κ) : Session σ κ :=
  after (arm path now) (after (check p path) s)

/-- The files that are checked, each with the session before its check. -/
def polls (p : Platform σ κ) (now : Moment) : List Path → Session σ κ → List (Path × Session σ κ)
  | [], _ => []
  | path :: rest, s => (path, s) :: polls p now rest (polled p now path s)

theorem map_fst_polls (now : Moment) :
    ∀ (paths : List Path) (s : Session σ κ), (polls p now paths s).map (·.1) = paths
  | [], _ => rfl
  | path :: rest, s => congrArg (path :: ·) (map_fst_polls now rest (polled p now path s))

/-- The timers that a tick finds due. -/
def dueFiles (now : Moment) (s : Session σ κ) : List Path :=
  answer (takeDue now) (after (wakePending now) s)

/-- A session whose tick is about to check files: no path is pending, and the due timers are
taken. -/
def opened (now : Moment) (s : Session σ κ) : Session σ κ :=
  after (takeDue now) (after (wakePending now) s)

theorem after_checkAll_cons (now : Moment) (path : Path) (rest : List Path) (s : Session σ κ) :
    after (checkAll p now (path :: rest)) s =
      after (checkAll p now rest) (polled p now path s) := rfl

theorem answer_checkAll_cons (now : Moment) (path : Path) (rest : List Path) (s : Session σ κ) :
    answer (checkAll p now (path :: rest)) s =
      if answer (check p path) s then answer (checkAll p now rest) (polled p now path s) + 1
      else answer (checkAll p now rest) (polled p now path s) := rfl

theorem after_checkAll_append (now : Moment) (rest : List Path) :
    ∀ (paths : List Path) (s : Session σ κ), after (checkAll p now (paths ++ rest)) s =
      after (checkAll p now rest) (after (checkAll p now paths) s)
  | [], _ => rfl
  | path :: paths, s => after_checkAll_append now rest paths (polled p now path s)

theorem answer_checkAll (now : Moment) : ∀ (paths : List Path) (s : Session σ κ),
    answer (checkAll p now paths) s =
      (polls p now paths s).countP fun poll => (change? p poll.1 poll.2).isSome
  | [], _ => rfl
  | path :: rest, s => by
      rw [answer_checkAll_cons, answer_checkAll now rest, polls, List.countP_cons, answer_check]
      split <;> rfl

theorem find?_checkAll (now : Moment) (f : Path) : ∀ (paths : List Path) (s : Session σ κ),
    (∀ path ∈ paths, path.same f = false) →
      (after (checkAll p now paths) s).versions.entries.find? f = s.versions.entries.find? f
  | [], _, _ => rfl
  | path :: rest, s, h => by
      have hf : path.same f = false := h path List.mem_cons_self
      have hs : (polled p now path s).versions.entries.find? f = s.versions.entries.find? f := by
        show (after (check p path) s).versions.entries.find? f = _
        rw [find?_check, hf]
        split <;> rfl
      rw [after_checkAll_cons, ← hs]
      exact find?_checkAll now f rest _ fun q hq => h q (List.mem_cons_of_mem _ hq)

/-- A file that is checked has the entry from before the checks, and after them the one that its
own check has left. -/
theorem find?_of_mem_polls {now : Moment} {f : Path} {mid s : Session σ κ} {paths : List Path}
    (hd : paths.Pairwise (·.same · = false)) (hm : (f, mid) ∈ polls p now paths s) :
    mid.versions.entries.find? f = s.versions.entries.find? f ∧
      (after (checkAll p now paths) s).versions.entries.find? f =
        (after (check p f) mid).versions.entries.find? f := by
  induction paths generalizing s with
  | nil => cases hm
  | cons path rest ih =>
      rw [List.pairwise_cons] at hd
      rcases List.mem_cons.1 hm with heq | hm
      · cases heq
        refine ⟨rfl, find?_checkAll now f rest _ fun q hq => ?_⟩
        rw [Path.same_comm]
        exact hd.1 q hq
      · have hf : path.same f = false := by
          refine hd.1 f ?_
          rw [← map_fst_polls (p := p) now rest (polled p now path s)]
          exact List.mem_map.2 ⟨_, hm, rfl⟩
        have hb := find?_checkAll (p := p) now f [path] s fun q hq => List.mem_singleton.1 hq ▸ hf
        exact ⟨(ih hd.2 hm).1.trans hb, (ih hd.2 hm).2⟩

theorem of_mem_polls {Q : Session σ κ → Prop} {now : Moment} {poll : Path × Session σ κ}
    {s : Session σ κ} {paths : List Path} (h : ∀ path ∈ paths, ∀ s, Q s → Q (polled p now path s))
    (hs : Q s) (hm : poll ∈ polls p now paths s) : Q poll.2 := by
  induction paths generalizing s with
  | nil => cases hm
  | cons path rest ih =>
      rcases List.mem_cons.1 hm with rfl | hm
      · exact hs
      · exact ih (fun q hq => h q (List.mem_cons_of_mem _ hq)) (h path List.mem_cons_self s hs) hm

theorem after_tick_of_running {now : Moment} {s : Session σ κ} (h : s.stopped = false) :
    after (tick p now) s = after (checkAll p now (dueFiles now s)) (opened now s) := by
  unfold tick
  rw [after_bind, answer_get, after_get, h]
  rfl

theorem answer_tick_of_running {now : Moment} {s : Session σ κ} (h : s.stopped = false) :
    answer (tick p now) s = answer (checkAll p now (dueFiles now s)) (opened now s) := by
  unfold tick
  rw [answer_bind, answer_get, after_get, h]
  rfl

theorem after_tick_of_stopped {now : Moment} {s : Session σ κ} (h : s.stopped = true) :
    after (tick p now) s = s := by
  unfold tick
  rw [after_bind, answer_get, after_get, h]
  rfl

theorem answer_tick_of_stopped {now : Moment} {s : Session σ κ} (h : s.stopped = true) :
    answer (tick p now) s = 0 := by
  unfold tick
  rw [answer_bind, answer_get, after_get, h]
  rfl

def ended (s : Session σ κ) : Session σ κ :=
  { s with
    schedule := s.schedule.clear
    stopped := true
    world := after (Exec.info "watch session stopped") s.world
    events := s.events ++ [.shutdown] }

theorem after_shutdown (s : Session σ κ) :
    after (shutdown : Action σ κ Unit) s = if s.stopped then s else s.ended := by
  unfold shutdown
  rw [after_bind, answer_get, after_get]
  cases s.stopped with
  | false => rfl
  | true => rfl

/-- A predicate that does not read the timers, the pending paths and the end of a session. -/
def IgnoresTimers (Q : Session σ κ → Prop) : Prop :=
  ∀ (s : Session σ κ) schedule pending stopped, Q s → Q { s with schedule, pending, stopped }

section Timers

variable {Q : Session σ κ → Prop} (ht : IgnoresTimers Q)

include ht

theorem keeps_arm (path : Path) (now : Moment) : Keeps Q (arm path now) :=
  fun s hs => ht s _ s.pending s.stopped hs

theorem keeps_checkAll (now : Moment) :
    ∀ {paths}, (∀ path ∈ paths, Keeps Q (check p path)) → Keeps Q (checkAll p now paths)
  | [], _ => Keeps.pure _
  | path :: _, h =>
      (h path List.mem_cons_self).bind fun _ => (keeps_arm ht path now).bind fun _ =>
        (keeps_checkAll now fun q hq => h q (List.mem_cons_of_mem _ hq)).bind fun _ => Keeps.pure _

theorem keeps_opened {now : Moment} {s : Session σ κ} (h : Q s) : Q (opened now s) :=
  ht s _ _ s.stopped h

theorem keeps_tick (now : Moment) (h : ∀ path, Keeps Q (check p path)) :
    Keeps Q (tick p now) := by
  intro s hs
  cases hr : s.stopped with
  | true => rwa [after_tick_of_stopped hr]
  | false =>
      rw [after_tick_of_running hr]
      exact keeps_checkAll ht now (fun path _ => h path) _ (keeps_opened ht hs)

theorem keeps_wake (path : Path) : Keeps Q (wake path) :=
  fun s hs => ht s s.schedule _ s.stopped hs

theorem keeps_shutdown (hr : IgnoresReports Q) : Keeps Q (shutdown : Action σ κ Unit) := by
  intro s hs
  rw [after_shutdown]
  split
  · exact hs
  · exact hr _ _ _ (ht s _ s.pending true hs)

end Timers

/-! ## Runs -/

/-- What happens to a session: its users ask something of it, or its files change from outside. -/
inductive Step (σ : Type) where
  | tick (now : Moment)
  | wake (path : Path)
  | emit (path : Path)
  | shutdown
  | outside (change : σ → σ)

/-- What a step does to a session. -/
def Step.act (p : Platform σ κ) : Step σ → Action σ κ Unit
  | tick now => discard (Session.tick p now)
  | wake path => Session.wake path
  | emit path => discard (Session.emitFile p path)
  | shutdown => Session.shutdown
  | outside change => onStore (modify change)

/-- A session after a list of steps. -/
def play (p : Platform σ κ) (steps : List (Step σ)) (s : Session σ κ) : Session σ κ :=
  steps.foldl (fun s step => after (step.act p) s) s

theorem play_append (steps more : List (Step σ)) (s : Session σ κ) :
    play p (steps ++ more) s = play p more (play p steps s) := List.foldl_append

theorem keeps_play {Q : Session σ κ → Prop} :
    ∀ {steps : List (Step σ)}, (∀ step ∈ steps, Keeps Q (step.act p)) →
      ∀ s, Q s → Q (play p steps s)
  | [], _, _, hs => hs
  | first :: _, h, s, hs =>
      keeps_play (fun step hl => h step (List.mem_cons_of_mem first hl)) _
        (h first List.mem_cons_self s hs)

theorem keeps_act {Q : Session σ κ → Prop} (ht : IgnoresTimers Q) (hr : IgnoresReports Q)
    (hc : ∀ path, Keeps Q (check p path)) (he : ∀ path, Keeps Q (emitFile p path))
    {step : Step σ}
    (ho : ∀ change, step = .outside change → Keeps Q (onStore (modify change) : Action σ κ Unit)) :
    Keeps Q (step.act p) := by
  cases step with
  | tick now => exact (keeps_tick ht now hc).map
  | wake path => exact keeps_wake ht path
  | emit path => exact (he path).map
  | shutdown => exact keeps_shutdown ht hr
  | outside change => exact ho change rfl

/-! ## Starts -/

theorem after_armAll (now : Moment) : ∀ (files : List Path) (s : Session σ κ),
    after (armAll now files) s =
      { s with schedule := files.foldl (fun schedule path => schedule.arm path now) s.schedule }
  | [], _ => rfl
  | path :: rest, s => after_armAll now rest (after (arm path now) s)

theorem after_emitAll_cons (path : Path) (rest : List Path) (s : Session σ κ) :
    after (emitAll p (path :: rest)) s = after (emitAll p rest) (after (emitLogged p path) s) := rfl

def announced (files : List Path) (s : Session σ κ) : Session σ κ :=
  after (notify (.watchStarted s.config.projectRoot.text files.length)) s

theorem after_begin (files : List Path) (s : Session σ κ) :
    after (begin p files) s =
      after (armAll 0 files) (after (emitAll p files) (announced files s)) := rfl

/-- The world after the question whether the root of a project is a directory. -/
def atRoot (p : Platform σ κ) (config : HostConfig) (world : World σ) : World σ :=
  after (Exec.onStore (p.storage.isDir config.projectRoot)) world

theorem start_eq (p : Platform σ κ) (config : HostConfig) (options : WatchOptions)
    (world : World σ) :
    (start p config options world).1 =
      let setUp := setUp p.storage config options
      let found := answer setUp (atRoot p config world)
      if answer (p.storage.isDir config.projectRoot) world.store then
        .ok (after (begin p found.1)
          (fresh p config options found.2 (after setUp (atRoot p config world))))
      else .error (notDirectory config.projectRoot) := by
  show (if (!answer (p.storage.isDir config.projectRoot) world.store) = true then _ else _ :
    Except HostError (Session σ κ) × World σ).1 = _
  cases answer (p.storage.isDir config.projectRoot) world.store with
  | false => rfl
  | true => rfl

/-- What the search for the sources of a project finds, and the world that it leaves. -/
def collected (p : Platform σ κ) (config : HostConfig) (options : WatchOptions) (world : World σ) :
    List Path × World σ :=
  (Sources.collect p.storage config.projectRoot options.extension config.options.outDir).run
    (atRoot p config world)

/-- A session that starts has a root that is a directory, and has begun with the sources below it. -/
theorem start_collected {config : HostConfig} {options : WatchOptions} {world : World σ}
    {session : Session σ κ} (h : (start p config options world).1 = .ok session) :
    answer (p.storage.isDir config.projectRoot) world.store = true ∧ ∃ journal,
      let found := collected p config options world
      session = after (begin p found.1) (fresh p config options
        (answer (trackAll p.storage {} found.1) found.2.store)
        ⟨after (trackAll p.storage {} found.1) found.2.store, journal⟩) := by
  rw [start_eq] at h
  split at h
  · next hdir =>
    injection h with h
    exact ⟨hdir, _, h.symm⟩
  · cases h

theorem of_collected {config : HostConfig} {options : WatchOptions} {world : World σ} {P : σ → Prop}
    (hl : p.storage.Looks P) (hw : P world.store) :
    P (collected p config options world).2.store :=
  Sources.keeps_collect hl _ _ _ _ (hl.isDir _ _ hw)

theorem keeps_trackAll {storage : Storage σ} {P : σ → Prop}
    (hm : ∀ path, Keeps P (storage.modified path)) :
    ∀ (files : List Path) (table : VersionTable), Keeps P (trackAll storage table files)
  | [], _ => Keeps.pure _
  | path :: rest, _ => (hm path).bind fun _ => keeps_trackAll hm rest _

theorem start_ok {config : HostConfig} {options : WatchOptions} {world : World σ}
    {session : Session σ κ} (h : (start p config options world).1 = .ok session) :
    ∃ files found journal, (∀ P, p.storage.Looks P → P world.store → P found) ∧
      session = after (begin p files) (fresh p config options
        (answer (trackAll p.storage {} files) found)
        ⟨after (trackAll p.storage {} files) found, journal⟩) := by
  obtain ⟨_, journal, rfl⟩ := start_collected h
  exact ⟨_, _, journal, fun P hl hw => of_collected hl hw, rfl⟩

theorem keeps_begin {Q : Session σ κ → Prop} (ht : IgnoresTimers Q) (hr : IgnoresReports Q) :
    ∀ {files : List Path}, (∀ path ∈ files, Keeps Q (emitLogged p path)) → Keeps Q (begin p files) := by
  intro files h s hs
  have hall : ∀ files : List Path, (∀ path ∈ files, Keeps Q (emitLogged p path)) →
      Keeps Q (emitAll p files) := by
    intro files h
    induction files with
    | nil => exact Keeps.pure _
    | cons path rest ih =>
        exact (h path List.mem_cons_self).bind fun _ =>
          ih fun q hq => h q (List.mem_cons_of_mem _ hq)
  rw [after_begin, after_armAll]
  exact ht _ _ _ _ (hall files h _ (keeps_notify hr _ s hs))

/-- A start that is known to give a session of some kind. -/
theorem exists_start {config : HostConfig} {options : WatchOptions} {world : World σ}
    {P : Session σ κ → Bool} (h : (start p config options world).1.toOption.any P = true) :
    ∃ session, (start p config options world).1 = .ok session ∧ P session = true := by
  cases hs : (start p config options world).1 with
  | ok session =>
      rw [hs] at h
      exact ⟨session, rfl, h⟩
  | error e =>
      rw [hs] at h
      cases h

end CompileWatch.Session
