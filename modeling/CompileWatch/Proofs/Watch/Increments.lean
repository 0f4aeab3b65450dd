import CompileWatch.Proofs.Storage.Ledger
import CompileWatch.Proofs.Watch.Recording
import CompileWatch.Proofs.Watch.Timers

/-!
# One version for each changed poll

Over files in memory the clock makes times strictly increasing, so whether a
poll finds a later time should depend on nothing but whether the file was dated
since the poll before. The link is `Accounted`: whoever dates a file, the entry
of the file then calls it newer, and only the session's own reading of its time
makes the two agree again. Looks, writes of the session and edits by others each
keep the link in their own way; a poll restores it, because what it finds newer
it also enters.

Removal needs no case of its own. A file that is gone has no time to be read, and
one that is made again was dated.
-/

namespace CompileWatch.Session

open CompileWatch.Path Memory

variable {κ : Type} {h : Handle} {p : Platform (Ledger Store) κ}

/-- Every entry of a version table accounts for the history of its file. -/
def Audited (h : Handle) (t : VersionTable) (l : Ledger Store) : Prop :=
  ∀ path entry, t.entries.find? path = some entry → Accounted h path entry l

/-- Whether a poll comes to a file that is there and was dated since its time was last read. -/
def isChanged (h : Handle) (poll : Path × Session (Ledger Store) κ) : Bool :=
  (h.file? poll.2.world.store.inner poll.1).isSome &&
    h.datedSince poll.1 poll.2.world.store.notes

section Polls

variable (hp : p.storage = Ledger.storage h.storage)

include hp

theorem change?_eq (path : Path) (s : Session (Ledger Store) κ) :
    change? p path s =
      match h.file? s.world.store.inner path, s.versions.entries.find? path with
      | some file, some entry =>
        if entry.isNewer file.modified then some (entry, file.modified) else none
      | _, _ => none := by
  have hm : answer (p.storage.modified path) s.world.store =
      h.modified path s.world.store.inner := by
    rw [hp]
    rfl
  unfold change?
  rw [hm]
  unfold Handle.modified Handle.file?
  cases s.world.store.inner.files.find? (h.key path) with
  | none => rfl
  | some file => cases s.versions.entries.find? path <;> rfl

theorem store_timed (path : Path) (s : Session (Ledger Store) κ) :
    (timed p path s).world.store =
      ⟨s.world.store.inner, .modified path :: s.world.store.notes⟩ := by
  unfold timed
  rw [hp]
  rfl

theorem audited_timed {path : Path} {s : Session (Ledger Store) κ} (ha : OnFiles (Audited h) s)
    (hc : change? p path s = none) : OnFiles (Audited h) (timed p path s) := by
  intro f entry hf
  have hold : Accounted h f entry s.world.store := ha f entry hf
  rw [store_timed hp]
  cases hsame : path.same f with
  | false => exact hold.note (by rw [Handle.datedSince, hsame]; rfl)
  | true =>
      refine ⟨hold.seen, fun file hfile => ?_⟩
      rw [Handle.datedSince, hsame]
      rw [change?_eq hp, Handle.file?, h.key_congr hsame, ← Handle.file?, hfile,
        Table.find?_congr _ hsame] at hc
      have hf : s.versions.entries.find? f = some entry := hf
      rw [hf] at hc
      simpa using hc

theorem audited_enter {path : Path} {s : Session (Ledger Store) κ} (ha : OnFiles (Audited h) s)
    {entry : VersionEntry} {time : Timestamp} (hc : change? p path s = some (entry, time)) :
    OnFiles (Audited h) (enter path entry time (timed p path s)) := by
  rw [change?_eq hp] at hc
  split at hc
  · next file entry' hfile _ =>
    split at hc
    · cases hc
      intro f e hf
      have hs : (enter path entry file.modified (timed p path s)).world.store =
          ⟨s.world.store.inner, .modified path :: s.world.store.notes⟩ := store_timed hp path s
      rw [hs]
      have hf : (s.versions.entries.set path ⟨entry.version + 1, some file.modified⟩).find? f =
          some e := hf
      rw [Table.find?_set] at hf
      split at hf
      · next hsame =>
        cases hf
        have hle : file.modified ≤ s.world.store.inner.clock :=
          s.world.store.inner.modified_le _ _ hfile
        refine ⟨fun time ht => by cases ht; exact hle, fun file' hfile' => ?_⟩
        rw [Handle.file?, ← h.key_congr hsame, ← Handle.file?, hfile] at hfile'
        cases hfile'
        rw [Handle.datedSince, hsame]
        simp [VersionEntry.isNewer]
      · next hsame =>
        rw [Bool.not_eq_true] at hsame
        exact (ha f e hf).note (by rw [Handle.datedSince, hsame]; rfl)
    · cases hc
  · cases hc

variable (hfe : p.frontEnd.OnlyLooks)

include hfe

theorem emissionRule_audited (path : Path) :
    EmissionRule p path (OnFiles (Audited h)) (OnFiles (Audited h)) fun _ => True := by
  refine emissionRule_onFiles hfe (fun t => ?_) (fun t written content => ?_) path
  · rw [hp]
    exact .all fun f => .all fun entry => .all fun _ => looks_accounted h f entry
  · rw [hp]
    exact fun l ha f e he => keeps_write_accounted h f e written content l (ha f e he)

theorem keeps_check_audited (path : Path) : Keeps (OnFiles (Audited h)) (check p path) :=
  keeps_check (emissionRule_audited hp hfe path) (fun _ ha hc => audited_timed hp ha hc)
    fun _ _ _ ha hc => audited_enter hp ha hc

end Polls

/-! ## The start -/

/-- A version table that was just made from the times of its files. -/
def FreshlyAudited (h : Handle) (t : VersionTable) (l : Ledger Store) : Prop :=
  ∀ path entry, t.entries.find? path = some entry →
    Accounted h path entry l ∧ h.datedSince path l.notes = false

theorem accounted_tracked {path f : Path} (hsame : path.same f = true) (version : Nat)
    (l : Ledger Store) :
    Accounted h f ⟨version, (h.modified path l.inner).toOption⟩
      ⟨l.inner, .modified path :: l.notes⟩ where
  seen time ht := by
    have ht : (h.modified path l.inner).toOption = some time := ht
    rw [h.toOption_modified] at ht
    obtain ⟨file, hfile, rfl⟩ := Option.map_eq_some_iff.1 ht
    exact l.inner.modified_le _ _ hfile
  newer file hfile := by
    have hfound : h.file? l.inner path = some file := by
      rw [Handle.file?, h.key_congr hsame]
      exact hfile
    rw [h.toOption_modified, hfound, Handle.datedSince, hsame]
    simp [VersionEntry.isNewer]

theorem freshlyAudited_trackAll (h : Handle) : ∀ (files : List Path) (t : VersionTable)
    (l : Ledger Store), FreshlyAudited h t l →
      FreshlyAudited h (answer (trackAll (Ledger.storage h.storage) t files) l)
        (after (trackAll (Ledger.storage h.storage) t files) l)
  | [], _, _, hf => hf
  | path :: rest, t, l, hf => by
      refine freshlyAudited_trackAll h rest (t.track path (h.modified path l.inner).toOption)
        ⟨l.inner, .modified path :: l.notes⟩ fun f e he => ?_
      rw [VersionTable.track, Table.find?_setNew] at he
      cases hsame : path.same f with
      | false =>
          rw [hsame, if_neg (by decide)] at he
          have hd : h.datedSince f (.modified path :: l.notes) = h.datedSince f l.notes := by
            rw [Handle.datedSince, hsame]
            rfl
          exact ⟨(hf f e he).1.note hd, hd.trans (hf f e he).2⟩
      | true =>
          have hd : h.datedSince f (.modified path :: l.notes) = false := by
            rw [Handle.datedSince, hsame]
            rfl
          refine ⟨?_, hd⟩
          rw [hsame, if_pos rfl, Table.find?_congr _ hsame] at he
          cases ht : t.entries.find? f with
          | some old =>
              rw [ht] at he
              cases he
              exact (hf f old ht).1.note (hd.trans (hf f old ht).2.symm)
          | none =>
              rw [ht] at he
              cases he
              exact accounted_tracked hsame _ l

section Runs

variable (hp : p.storage = Ledger.storage h.storage) (hfe : p.frontEnd.OnlyLooks)

include hp hfe

theorem audited_start {config : HostConfig} {options : WatchOptions} {world : World (Ledger Store)}
    {session : Session (Ledger Store) κ} (hs : (start p config options world).1 = .ok session) :
    OnFiles (Audited h) session := by
  obtain ⟨files, found, journal, -, rfl⟩ := start_ok hs
  refine keeps_begin (fun _ _ _ _ hq => hq) (fun _ _ _ hq => hq)
    (fun path _ s hq => (emissionRule_audited hp hfe path).emitLogged hq) _ ?_
  intro f entry hf
  rw [hp] at hf ⊢
  have hfresh : FreshlyAudited h {} found := fun g e he => by cases he
  exact (freshlyAudited_trackAll h files {} found hfresh f entry hf).1

theorem audited_play {steps : List (Step (Ledger Store))}
    (hout : ∀ change, .outside change ∈ steps → ∃ other edit, change = Edit.noted other edit)
    {s : Session (Ledger Store) κ} (hs : OnFiles (Audited h) s) :
    OnFiles (Audited h) (play p steps s) := by
  refine keeps_play (fun step hstep => ?_) s hs
  refine keeps_act (fun _ _ _ _ hq => hq) (fun _ _ _ hq => hq) (keeps_check_audited hp hfe)
    (fun path s hq => (emissionRule_audited hp hfe path).emitFile hq) fun change heq => ?_
  obtain ⟨other, edit, rfl⟩ := hout change (heq ▸ hstep)
  exact fun s hq f entry hf => (hq f entry hf).edit other edit

end Runs

/-- A poll of a tracked file finds a change just when the file was dated since the last poll. -/
theorem isSome_change? (hp : p.storage = Ledger.storage h.storage)
    {poll : Path × Session (Ledger Store) κ} (ha : OnFiles (Audited h) poll.2)
    (ht : poll.2.versions.entries.contains poll.1 = true) :
    (change? p poll.1 poll.2).isSome = isChanged h poll := by
  obtain ⟨entry, he⟩ := Option.isSome_iff_exists.1 ht
  rw [change?_eq hp, isChanged, he]
  cases hf : h.file? poll.2.world.store.inner poll.1 with
  | none => rfl
  | some file =>
      rw [← (ha poll.1 entry he).newer file hf]
      cases hn : entry.isNewer file.modified <;> simp [hn]

/-- Whatever happens to a session, no version goes back. -/
theorem version_le_play {σ : Type} {p : Platform σ κ} (steps : List (Step σ)) {s : Session σ κ}
    {f : Path} {v : Nat} (hv : s.versions.version? f = some v) :
    ∃ w, (play p steps s).versions.version? f = some w ∧ v ≤ w := by
  refine keeps_play (Q := fun t => ∃ w, t.versions.version? f = some w ∧ v ≤ w)
    (fun step _ => ?_) s ⟨v, hv, Nat.le_refl v⟩
  refine keeps_act (fun _ _ _ _ hq => hq) (fun _ _ _ hq => hq) (fun path s hq => ?_)
    (fun path s hq => by rwa [(sameBooks_emitFile p path s).versions]) fun _ _ _ hq => hq
  obtain ⟨w, hw, hle⟩ := hq
  simp only [VersionTable.version?, find?_check]
  split
  · exact ⟨w, hw, hle⟩
  · next entry time hc =>
    split
    · next hsame =>
      obtain ⟨_, he, _⟩ := change?_eq_some hc
      rw [VersionTable.version?, ← Table.find?_congr _ hsame, he]
        at hw
      cases hw
      exact ⟨_, rfl, by simpa using Nat.le_succ_of_le hle⟩
    · exact ⟨w, hw, hle⟩

theorem versions_act {σ : Type} {p : Platform σ κ} {step : Step σ} (hstep : ∀ now, step ≠ .tick now)
    (s : Session σ κ) : (after (step.act p) s).versions = s.versions := by
  cases step with
  | tick now => exact absurd rfl (hstep now)
  | wake path => rfl
  | emit path => exact (sameBooks_emitFile p path s).versions
  | shutdown =>
      rw [Step.act, after_shutdown]
      split <;> rfl
  | outside change => rfl

/-! ## Ticks -/

section Ticks

variable (hp : p.storage = Ledger.storage h.storage) (hfe : p.frontEnd.OnlyLooks)

include hp

/-- A check that is audited raises the version of its file by one or leaves it. -/
theorem version_check {poll : Path × Session (Ledger Store) κ} (ha : OnFiles (Audited h) poll.2)
    (ht : poll.2.versions.entries.contains poll.1 = true) :
    (after (check p poll.1) poll.2).versions.version? poll.1 =
      (poll.2.versions.version? poll.1).map
        fun version => if isChanged h poll then version + 1 else version := by
  rw [← isSome_change? hp ha ht, VersionTable.version?, find?_check, VersionTable.version?]
  cases hc : change? p poll.1 poll.2 with
  | none => simp [Function.comp_def]
  | some found =>
      obtain ⟨entry, time⟩ := found
      obtain ⟨_, he, _⟩ := change?_eq_some hc
      have hself : poll.1.same poll.1 = true := same_self _
      rw [he]
      simp [hself]

include hfe

theorem audited_polls (now : Moment) {paths : List Path} {s : Session (Ledger Store) κ}
    (ha : OnFiles (Audited h) s) (hd : paths.Pairwise (·.same · = false))
    (ht : ∀ path ∈ paths, s.versions.entries.contains path = true)
    {poll : Path × Session (Ledger Store) κ} (hm : poll ∈ polls p now paths s) :
    OnFiles (Audited h) poll.2 ∧ poll.2.versions.entries.contains poll.1 = true := by
  refine ⟨of_mem_polls (fun path _ s hs => keeps_check_audited hp hfe path s hs) ha hm, ?_⟩
  have hmem : poll.1 ∈ paths := by
    rw [← map_fst_polls (p := p) now paths s]
    exact List.mem_map.2 ⟨poll, hm, rfl⟩
  rw [Table.contains, (find?_of_mem_polls hd hm).1]
  exact ht poll.1 hmem

end Ticks

/-- In every session over files in memory, however these are edited between its steps, the polls
of a tick raise the versions of those files that are there and were dated since their times were
last read, each by one. These files are emitted, and counted; nothing else is, and nothing but a
tick changes a version. -/
theorem one_version_per_changed_poll (hp : p.storage = Ledger.storage h.storage)
    (hfe : p.frontEnd.OnlyLooks) {config : HostConfig} {options : WatchOptions}
    {world : World (Ledger Store)} {session : Session (Ledger Store) (Recorded κ)}
    (hstart : (start p.recorded config options world).1 = .ok session)
    {steps : List (Step (Ledger Store))} (hopen : .shutdown ∉ steps)
    (hout : ∀ change, .outside change ∈ steps → ∃ other edit, change = Edit.noted other edit) :
    let s := play p.recorded steps session
    (∀ step : Step (Ledger Store), (∀ now, step ≠ .tick now) →
        (after (step.act p.recorded) s).versions = s.versions) ∧
      (∀ later f v, s.versions.version? f = some v →
        ∃ w, (play p.recorded later s).versions.version? f = some w ∧ v ≤ w) ∧
      ∀ now,
        let checked := session.versions.files.filter (s.isDue now (woken steps))
        let polls := polls p.recorded now checked (opened now s)
        let t := after (tick p.recorded now) s
        polls.map (·.1) = checked ∧
          answer (tick p.recorded now) s = polls.countP (isChanged h) ∧
          t.outputs.map (·.1) =
            ((polls.filter (isChanged h)).map (·.1)).reverse ++ s.outputs.map (·.1) ∧
          (∀ poll ∈ polls, t.versions.version? poll.1 = (s.versions.version? poll.1).map
            fun version => if isChanged h poll then version + 1 else version) ∧
          ∀ f, (∀ path ∈ checked, path.same f = false) →
            t.versions.entries.find? f = s.versions.entries.find? f := by
  intro s
  have htimed : Timed session.versions.files options.interval (woken steps) s :=
    (Timed.start hstart).play steps hopen
  have hp' : p.recorded.storage = Ledger.storage h.storage := hp
  have hfe' : p.recorded.frontEnd.OnlyLooks := hfe.recorded
  have haudited : OnFiles (Audited h) s := audited_play hp' hfe' hout (audited_start hp' hfe' hstart)
  refine ⟨fun step hstep => versions_act hstep s, fun later f v => version_le_play later, fun now => ?_⟩
  intro checked polls t
  have hdue : dueFiles now s = checked := htimed.dueFiles_eq now
  have htick : t = after (checkAll p.recorded now checked) (opened now s) := by
    rw [← hdue]
    exact after_tick_of_running htimed.running
  have hopened : OnFiles (Audited h) (opened now s) := haudited
  have hdistinct : checked.Pairwise (·.same · = false) := hdue ▸ pairwise_dueFiles now s
  have htracked : ∀ path ∈ checked, (opened now s).versions.entries.contains path = true := by
    intro path hpath
    refine Table.contains_of_mem_keys ?_
    have hfiles : (opened now s).versions.entries.keys = session.versions.files := htimed.tracked
    rw [hfiles]
    exact (List.mem_filter.1 hpath).1
  have hpolls : ∀ poll ∈ polls, (change? p.recorded poll.1 poll.2).isSome = isChanged h poll :=
    fun poll hm => by
      obtain ⟨ha, ht⟩ := audited_polls hp' hfe' now hopened hdistinct htracked hm
      exact isSome_change? hp' ha ht
  refine ⟨map_fst_polls now checked (opened now s), ?_, ?_, fun poll hm => ?_, fun f hf => ?_⟩
  · rw [answer_tick_of_running htimed.running, hdue, answer_checkAll]
    exact List.countP_congr fun poll hm => by rw [hpolls poll hm]
  · rw [htick, outputs_checkAll]
    show ((polls.filter _).map (·.1)).reverse ++ _ = _
    rw [List.filter_congr hpolls]
    rfl
  · obtain ⟨ha, ht⟩ := audited_polls hp' hfe' now hopened hdistinct htracked hm
    obtain ⟨hbefore, hafter⟩ := find?_of_mem_polls hdistinct hm
    have hversion := version_check hp' ha ht
    simp only [VersionTable.version?, hbefore] at hversion
    rw [htick, VersionTable.version?, hafter]
    exact hversion
  · rw [htick]
    exact find?_checkAll now f checked (opened now s) hf

def sources : Ledger Store :=
  ⟨exact.withFiles [(⟨"/p/a.ts"⟩, "let a"), (⟨"/p/b.ts"⟩, "let b")], []⟩

/-- A file is removed, missed by a tick, made again and touched through another handle. -/
def remakeSteps : List (Step (Ledger Store)) :=
  [.outside (Edit.noted exact (.remove ⟨"/p/a.ts"⟩)), .tick 300,
    .outside (Edit.noted exact (.insert ⟨"/p/a.ts"⟩ "let b")),
    .outside (Edit.noted folding (.touch ⟨"/p/A.ts"⟩))]

def auditedChecker : Platform (Ledger Store) LineChecker.Knowledge :=
  LineChecker.platform (Ledger.storage exact.storage)

theorem one_version_per_changed_poll_remade :
    ∃ session, (start auditedChecker.recorded (.plain "/p") {} ⟨sources, []⟩).1 = .ok session ∧
      ∃ polls : List (Path × Session (Ledger Store) (Recorded LineChecker.Knowledge)),
        polls.map (·.1) = session.versions.files.filter
            ((play auditedChecker.recorded remakeSteps session).isDue 600 []) ∧
          polls.countP (isChanged exact) = 1 := by
  obtain ⟨session, h, hone⟩ := exists_start
    (show (start auditedChecker.recorded (.plain "/p") {} ⟨sources, []⟩).1.toOption.any
      (fun session => answer (tick auditedChecker.recorded 600)
        (play auditedChecker.recorded remakeSteps session) == 1) = true by decide +kernel)
  have hout : ∀ change, .outside change ∈ remakeSteps →
      ∃ other edit, change = Edit.noted other edit := by
    intro change hmem
    simp only [remakeSteps, List.mem_cons, List.not_mem_nil, or_false, Step.outside.injEq,
      reduceCtorEq, false_or] at hmem
    obtain rfl | rfl | rfl := hmem
    · exact ⟨exact, _, rfl⟩
    · exact ⟨exact, _, rfl⟩
    · exact ⟨folding, _, rfl⟩
  obtain ⟨_, _, hticks⟩ := one_version_per_changed_poll (p := auditedChecker) (h := exact) rfl
    LineChecker.frontEnd_onlyLooks h (by simp [remakeSteps]) hout
  obtain ⟨hfiles, hcount, _⟩ := hticks 600
  exact ⟨session, h, _, hfiles, hcount.symm.trans (beq_iff_eq.1 hone)⟩

end CompileWatch.Session
