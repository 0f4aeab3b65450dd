import CompileWatch.Proofs.Watch.Analyses
import CompileWatch.Proofs.Watch.Emissions
import CompileWatch.Proofs.Watch.Stream

/-!
# Every version is analysed once

A keyed service is asked twice in every emission, and about any file at any time.
That it makes one analysis for each version all the same rests on an invariant:
what it knows of a tracked file is of the present version (`UpToDate`). As long as
that holds, an emission has nothing to find out. A check that enters a change makes
the knowledge of one file too old, and the emission that follows makes up for it at
once, because a file whose time has just been read can be read itself.

At the start no file is known yet, and each is studied in its turn. It is there to be
read, as long as the store is kept under the keys of its handle: a store that was filled
under another letter case can list a file that nobody can read.
-/

namespace CompileWatch

open CompileWatch.Path Memory

/-- A storage that gives the same text, or none, when a file is read twice. -/
def Storage.Rereads {σ : Type} (storage : Storage σ) : Prop :=
  ∀ path s, (answer (storage.read path) (after (storage.read path) s)).toOption =
    (answer (storage.read path) s).toOption

def WatchEvent.isFileChanged : WatchEvent → Bool
  | fileChanged _ _ => true
  | _ => false

namespace Session

/-! ## One analysis for each emission -/

section Emissions

variable {σ ρ : Type} {p : Platform σ (Knowledge ρ)} {analyst : Analyst σ ρ}

/-- A service that is asked again about a file finds what it has found, and learns nothing. -/
theorem analyzes_again (hread : p.storage.Rereads) {file : Path}
    {s t u : Session σ (Knowledge ρ)} {found again : Option (Analysis ρ)}
    (h : Analyzes p analyst file s found t) (h' : Analyzes p analyst file t again u) :
    again = found ∧ u.knowledge = t.knowledge := by
  cases h with
  | untracked hv =>
      obtain ⟨rfl, rfl⟩ := (Analyzes.untracked hv).unique h'
      exact ⟨rfl, rfl⟩
  | known hv hknown =>
      obtain ⟨rfl, rfl⟩ := (Analyzes.known hv hknown).unique h'
      exact ⟨rfl, rfl⟩
  | unread hv hnew hnone =>
      have hstill : Analyzes p analyst file (s.textRead p file) none
          ((s.textRead p file).textRead p file) :=
        .unread hv hnew ((hread file s.world.store).trans hnone)
      obtain ⟨rfl, rfl⟩ := hstill.unique h'
      exact ⟨rfl, rfl⟩
  | @studied version text hv _ _ =>
      have hlearned : (s.learned p analyst file version text).knowledge.current? file version =
          some (s.newAnalysis p analyst file version text) := by
        simp [learned, Knowledge.learn, Knowledge.current?, Table.find?_set, same_self, newAnalysis]
      have hknown : Analyzes p analyst file (s.learned p analyst file version text)
          (some (s.newAnalysis p analyst file version text))
          (s.learned p analyst file version text) := .known hv hlearned
      obtain ⟨rfl, rfl⟩ := hknown.unique h'
      exact ⟨rfl, rfl⟩

/-- What a service comes to know by one analysis at most. -/
theorem knowledge_analyzes {file : Path} {s t : Session σ (Knowledge ρ)}
    {found : Option (Analysis ρ)} (h : Analyzes p analyst file s found t) :
    t.knowledge = s.knowledge ∨
      ∃ a, found = some a ∧ t.knowledge = s.knowledge.learn file a := by
  cases h with
  | untracked _ | known _ _ | unread _ _ _ => exact .inl rfl
  | studied _ _ _ => exact .inr ⟨_, rfl, rfl⟩

theorem finds_analyzes {file : Path} {s t : Session σ (Knowledge ρ)}
    {found : Option (Analysis ρ)} (h : Analyzes p analyst file s found t)
    (hbehind : AllBehind analyst s) {a : Analysis ρ} (ha : found = some a) :
    analyst.Finds s.config.options file a.text a.findings := by
  cases h with
  | untracked _ => cases ha
  | known hv hknown =>
      cases ha
      obtain ⟨entry, he, -⟩ := Option.map_eq_some_iff.1 hv
      obtain ⟨hfind, -⟩ := Option.filter_eq_some_iff.1 hknown
      exact (hbehind file entry he).found a hfind
  | unread _ _ _ => cases ha
  | studied _ _ _ =>
      cases ha
      exact ⟨_, file, _, rfl, same_self file, rfl⟩

/-- Whether an emission rests on one analysis: output and diagnostics both follow from it, it comes
from a study of the text that it names, and none but this one was made. -/
structure RestsOn (p : Platform σ (Knowledge ρ)) (analyst : Analyst σ ρ)
    (emission : Path × Session σ (Knowledge ρ)) (found : Option (Analysis ρ)) : Prop where
  output : answer (askOutput p emission.1) emission.2 =
    analyst.outputOf emission.2.config.options emission.1 found
  said : said p emission.1 emission.2 =
    (found.map fun analysis => analyst.report analysis.findings).getD []
  made : (after (emitFile p emission.1) emission.2).knowledge = emission.2.knowledge ∨
    ∃ a, found = some a ∧
      (after (emitFile p emission.1) emission.2).knowledge = emission.2.knowledge.learn emission.1 a
  studied : ∀ a, found = some a →
    analyst.Finds emission.2.config.options emission.1 a.text a.findings

variable (hs : p.frontEnd.Serves analyst)

include hs

theorem asked_eq (file : Path) (s : Session σ (Knowledge ρ)) :
    asked p file s = (s.analyzed p analyst file).analyzed p analyst file := by
  rw [asked, after_askDiagnostics hs, after_askOutput hs]

/-- The second of the two questions of an emission finds nothing new. -/
theorem knowledge_asked (hread : p.storage.Rereads) (file : Path) (s : Session σ (Knowledge ρ)) :
    (asked p file s).knowledge = (s.analyzed p analyst file).knowledge := by
  rw [asked_eq hs]
  exact (analyzes_again hread (s.analyzes p analyst file) (Session.analyzes p analyst file _)).2

theorem said_eq (hread : p.storage.Rereads) (file : Path) (s : Session σ (Knowledge ρ)) :
    said p file s = ((s.analysis? p analyst file).map fun a => analyst.report a.findings).getD [] := by
  have hagain := analyzes_again hread (s.analyzes p analyst file) (Session.analyzes p analyst file _)
  rw [said, after_askOutput hs, answer_askDiagnostics hs, hagain.1]

theorem exists_restsOn (hread : p.storage.Rereads) (file : Path) {s : Session σ (Knowledge ρ)}
    (hbehind : AllBehind analyst s) : ∃ found, RestsOn p analyst (file, s) found := by
  have hfirst := s.analyzes p analyst file
  obtain ⟨journal, hemit⟩ := exists_emitFile p file s
  have hknowledge : (after (emitFile p file) s).knowledge = (s.analyzed p analyst file).knowledge :=
    hemit ▸ knowledge_asked hs hread file s
  refine ⟨_, answer_askOutput hs file s, said_eq hs hread file s, ?_,
    fun a ha => finds_analyzes hfirst hbehind ha⟩
  rw [hknowledge]
  exact knowledge_analyzes hfirst

/-! ## What is up to date -/

omit hs

/-- What is known of a file, if it is tracked, is of its present version. -/
def UpToDateOn (f : Path) (s : Session σ (Knowledge ρ)) : Prop :=
  ∀ entry, s.versions.entries.find? f = some entry →
    ∃ a, s.knowledge.analyses.find? f = some a ∧ a.version = entry.version

/-- What is known of every tracked file is of its present version. -/
def UpToDate (s : Session σ (Knowledge ρ)) : Prop := ∀ f, UpToDateOn f s

theorem UpToDateOn.eq_of_analyzes {file : Path} {s t : Session σ (Knowledge ρ)}
    {found : Option (Analysis ρ)} (h : UpToDateOn file s) (ha : Analyzes p analyst file s found t) :
    t = s := by
  have hcurrent : ∀ version, s.versions.version? file = some version →
      s.knowledge.current? file version ≠ none := by
    intro version hv hnone
    obtain ⟨entry, he, rfl⟩ := Option.map_eq_some_iff.1 hv
    obtain ⟨a, hfind, hversion⟩ := h entry he
    rw [Knowledge.current?, hfind] at hnone
    simp [hversion] at hnone
  cases ha with
  | untracked _ | known _ _ => rfl
  | unread hv hnew _ | studied hv hnew _ => exact absurd hnew (hcurrent _ hv)

include hs

theorem UpToDateOn.asked_eq {file : Path} {s : Session σ (Knowledge ρ)} (h : UpToDateOn file s) :
    asked p file s = s := by
  rw [Session.asked_eq hs, h.eq_of_analyzes (s.analyzes p analyst file),
    h.eq_of_analyzes (s.analyzes p analyst file)]

end Emissions

/-! ## Counting -/

/-- How many changes some events tell. -/
def changesTold (events : List WatchEvent) : Nat := events.countP (·.isFileChanged)

theorem changesTold_append (events later : List WatchEvent) :
    changesTold (events ++ later) = changesTold events + changesTold later :=
  List.countP_append

section Told

variable {σ κ : Type} (p : Platform σ κ) (file : Path) (s : Session σ κ)

theorem changesTold_said : changesTold ((said p file s).map .ofDiagnostic) = 0 := by
  refine List.countP_eq_zero.2 fun event he => ?_
  obtain ⟨d, -, rfl⟩ := List.mem_map.1 he
  exact Bool.false_ne_true

theorem changesTold_success (result : Except HostError (List Path)) :
    changesTold (success p file s result) = 0 := by
  cases result <;> rfl

theorem changesTold_closing (result : Except HostError (List Path)) :
    changesTold [closing p file s result] = 0 := by
  cases result <;> rfl

theorem changesTold_emitLogged :
    changesTold (after (emitLogged p file) s).events = changesTold s.events := by
  obtain ⟨journal, hemit⟩ := exists_emitLogged p file s
  have hevents : (after (emitLogged p file) s).events = s.events ++ _ := congrArg (·.events) hemit
  rw [hevents, changesTold_append, changesTold_append, changesTold_said, changesTold_closing,
    Nat.add_zero]

end Told

section Memory

variable {ρ : Type} {h : Handle} {p : Platform (Traced Store) (Knowledge ρ)}
  {analyst : Analyst (Traced Store) ρ} (hp : p.storage = Traced.storage h.storage)
  (hs : p.frontEnd.Serves analyst)

include hp

theorem rereads : p.storage.Rereads := by
  rw [hp]
  exact fun _ _ => rfl

/-- The file that a path names in a session. -/
def held? (h : Handle) (file : Path) (s : Session (Traced Store) (Knowledge ρ)) : Option File :=
  h.file? s.world.store.inner file

theorem isSome_held? {file : Path} {s : Session (Traced Store) (Knowledge ρ)}
    {entry : VersionEntry} {time : Timestamp} (hc : change? p file s = some (entry, time)) :
    (held? h file s).isSome = true := by
  obtain ⟨hm, -, -⟩ := change?_eq_some hc
  rw [answer_modified hp] at hm
  have hoption := h.toOption_modified s.world.store.inner file
  rw [hm] at hoption
  obtain ⟨held, hheld, -⟩ := Option.map_eq_some_iff.1 hoption.symm
  rw [held?, hheld]
  rfl

/-- A file that is there but not known in its present version is studied. -/
theorem learns_of_analyzes {file : Path} {s t : Session (Traced Store) (Knowledge ρ)}
    {found : Option (Analysis ρ)} (ha : Analyzes p analyst file s found t)
    (hheld : (held? h file s).isSome = true) {version : Nat}
    (hv : s.versions.version? file = some version)
    (hnew : s.knowledge.current? file version = none) :
    ∃ a : Analysis ρ, a.version = version ∧ t.knowledge = s.knowledge.learn file a := by
  cases ha with
  | untracked hv' => cases hv'.symm.trans hv
  | known hv' hknown =>
      cases hv'.symm.trans hv
      cases hknown.symm.trans hnew
  | unread hv' _ hnone =>
      have hread : (answer (p.storage.read file) s.world.store).toOption =
          (held? h file s).map (·.content) := by
        rw [hp]
        exact h.toOption_read s.world.store.inner file
      rw [hread, Option.map_eq_none_iff] at hnone
      rw [hnone] at hheld
      cases hheld
  | studied hv' _ _ =>
      cases hv'.symm.trans hv
      exact ⟨_, rfl, rfl⟩

include hs

/-- The emission of a file that is there, but not known in its present version, makes one analysis. -/
theorem emitLogged_learns {file : Path} {s : Session (Traced Store) (Knowledge ρ)}
    (hheld : (held? h file s).isSome = true) {version : Nat}
    (hv : s.versions.version? file = some version)
    (hnew : s.knowledge.current? file version = none) :
    let t := after (emitLogged p file) s
    t.versions = s.versions ∧ changesTold t.events = changesTold s.events ∧
      ∃ a : Analysis ρ, a.version = version ∧ t.knowledge = s.knowledge.learn file a := by
  intro t
  obtain ⟨journal, hemit⟩ := exists_emitLogged p file s
  obtain ⟨a, ha, hlearn⟩ := learns_of_analyzes hp (s.analyzes p analyst file) hheld hv hnew
  refine ⟨(sameBooks_emitLogged p file s).versions, changesTold_emitLogged p file s, a, ha, ?_⟩
  rw [← hlearn, ← knowledge_asked hs (rereads hp)]
  exact congrArg (·.knowledge) hemit

/-! ## Steps -/

/-- Whether all is up to date, and the analyses made are some first ones and one for each change
told. -/
structure Counted (n : Nat) (s : Session (Traced Store) (Knowledge ρ)) : Prop where
  upToDate : UpToDate s
  count : s.knowledge.count = n + changesTold s.events

variable {n : Nat}

omit hp in
theorem counted_emission {s : Session (Traced Store) (Knowledge ρ)} (hc : Counted n s)
    (file : Path) {told : List WatchEvent} (htold : changesTold told = 0) (journal : List LogEntry) :
    Counted n (emission p file s told journal) := by
  have hknowledge : (emission p file s told journal).knowledge = s.knowledge :=
    congrArg (·.knowledge) ((hc.upToDate file).asked_eq hs)
  refine ⟨fun f entry he => ?_, ?_⟩
  · rw [hknowledge]
    exact hc.upToDate f entry he
  · have hevents : (emission p file s told journal).events = s.events ++ told := rfl
    rw [hknowledge, hc.count, hevents, changesTold_append, htold, Nat.add_zero]

omit hp in
theorem keeps_emitFile_counted (file : Path) : Keeps (Counted n) (emitFile p file) := by
  intro s hc
  obtain ⟨journal, hemit⟩ := exists_emitFile p file s
  rw [hemit]
  refine counted_emission hs hc file ?_ journal
  rw [changesTold_append, changesTold_said, changesTold_success]

/-- A check that enters a change of a file whose present version is known makes one analysis, and
tells of one change. -/
theorem check_learns {file : Path} {s : Session (Traced Store) (Knowledge ρ)} {entry : VersionEntry}
    {time : Timestamp} (hchange : change? p file s = some (entry, time)) {old : Analysis ρ}
    (hold : s.knowledge.analyses.find? file = some old) (hversion : old.version = entry.version) :
    let t := after (check p file) s
    t.versions.entries = s.versions.entries.set file ⟨entry.version + 1, some time⟩ ∧
      changesTold t.events = changesTold s.events + 1 ∧
      ∃ a : Analysis ρ, a.version = entry.version + 1 ∧
        t.knowledge = s.knowledge.learn file a := by
  intro t
  let entered := enter file entry time (timed p file s)
  have hv : entered.versions.version? file = some (entry.version + 1) := by
    show ((s.versions.entries.set file _).find? file).map (·.version) = _
    rw [Table.find?_set, if_pos (same_self file)]
    rfl
  have hnew : entered.knowledge.current? file (entry.version + 1) = none := by
    have hknown : entered.knowledge.analyses.find? file = some old := hold
    rw [Knowledge.current?, hknown]
    simp [hversion]
  have hheld : (held? h file entered).isSome = true := by
    have hinner : entered.world.store.inner = s.world.store.inner :=
      congrArg (·.store.inner) (world_timed hp file s)
    rw [held?, hinner]
    exact isSome_held? hp hchange
  obtain ⟨hversions, htold, hlearned⟩ := emitLogged_learns hp hs hheld hv hnew
  have hcheck : t = after (emitLogged p file) entered := by
    rw [show t = after (check p file) s from rfl, after_check, hchange]
  rw [hcheck]
  refine ⟨congrArg (·.entries) hversions, htold.trans ?_, hlearned⟩
  exact changesTold_append s.events [.fileChanged file.text (entry.version + 1)]

theorem keeps_check_counted (file : Path) : Keeps (Counted n) (check p file) := by
  intro s hc
  cases hchange : change? p file s with
  | none =>
      rw [after_check, hchange]
      exact ⟨hc.upToDate, hc.count⟩
  | some found =>
      obtain ⟨entry, time⟩ := found
      obtain ⟨-, hfound, -⟩ := change?_eq_some hchange
      obtain ⟨old, hold, hversion⟩ := hc.upToDate file entry hfound
      obtain ⟨hentries, htold, a, ha, hlearn⟩ := check_learns hp hs hchange hold hversion
      refine ⟨fun f e he => ?_, ?_⟩
      · rw [hentries, Table.find?_set] at he
        rw [hlearn, Knowledge.learn, Table.find?_set]
        split at he
        · next hsame =>
          cases he
          rw [if_pos hsame]
          exact ⟨a, rfl, ha⟩
        · next hother =>
          rw [if_neg hother]
          exact hc.upToDate f e he
      · have hcount : (after (check p file) s).knowledge.count = s.knowledge.count + 1 :=
          congrArg Knowledge.count hlearn
        rw [htold, hcount, hc.count, Nat.add_assoc]

theorem keeps_act_counted (step : Step (Traced Store)) : Keeps (Counted n) (step.act p) := by
  have htimers : IgnoresTimers (Counted (ρ := ρ) n) := fun _ _ _ _ hc => ⟨hc.upToDate, hc.count⟩
  cases step with
  | tick now => exact (keeps_tick htimers now (keeps_check_counted hp hs)).map
  | wake path => exact keeps_wake htimers path
  | emit path => exact (keeps_emitFile_counted hs path).map
  | shutdown =>
      intro s hc
      show Counted n (after shutdown s)
      rw [after_shutdown]
      split
      · exact hc
      · refine ⟨hc.upToDate, ?_⟩
        have hevents : s.ended.events = s.events ++ [.shutdown] := rfl
        rw [hevents, changesTold_append]
        exact hc.count
  | outside change => exact fun _ hc => ⟨hc.upToDate, hc.count⟩

/-! ## Ticks that find nothing -/

omit hs

/-- Checks that find no change read a time each, and nothing else comes of them. -/
theorem checkAll_unchanged (now : Moment) : ∀ (files : List Path)
    (s : Session (Traced Store) (Knowledge ρ)), (∀ f ∈ files, change? p f s = none) →
      let t := after (checkAll p now files) s
      answer (checkAll p now files) s = 0 ∧ t.versions = s.versions ∧
        t.knowledge = s.knowledge ∧ t.events = s.events ∧
        t.world = ⟨⟨s.world.store.inner, s.world.store.calls ++ files.map .modified⟩,
          s.world.journal⟩
  | [], s, _ => by
      refine ⟨rfl, rfl, rfl, rfl, ?_⟩
      rw [List.map_nil, List.append_nil]
      rfl
  | file :: rest, s, hnone => by
      have hfirst := hnone file List.mem_cons_self
      have hworld := world_timed hp file s
      have hpolled : polled p now file s = after (arm file now) (timed p file s) := by
        rw [polled, after_check, hfirst]
      have hrest : ∀ f ∈ rest, change? p f (polled p now file s) = none := by
        intro f hf
        have hinner : (polled p now file s).world.store.inner = s.world.store.inner := by
          rw [hpolled]
          exact congrArg (·.store.inner) hworld
        have hversions : (polled p now file s).versions = s.versions := by
          rw [hpolled]
          rfl
        refine (change?_congr ?_ (by rw [hversions])).trans (hnone f (List.mem_cons_of_mem _ hf))
        rw [answer_modified hp, answer_modified hp, hinner]
      obtain ⟨hcount, hv, hk, he, hw⟩ := checkAll_unchanged now rest (polled p now file s) hrest
      rw [after_checkAll_cons, answer_checkAll_cons, answer_check, hfirst]
      refine ⟨hcount, ?_, ?_, ?_, ?_⟩
      · rw [hv, hpolled]
        rfl
      · rw [hk, hpolled]
        rfl
      · rw [he, hpolled]
        rfl
      · have hstart : (polled p now file s).world = _ := (congrArg (·.world) hpolled).trans hworld
        rw [hw, hstart]
        dsimp only
        rw [List.map_cons, List.append_assoc]
        rfl

include hs

/-! ## Starts -/

/-- Whether some files are still to be studied, all else is up to date, and the analyses made are
those counted less the ones to come. -/
structure Opening (h : Handle) (n : Nat) (owed : List Path)
    (s : Session (Traced Store) (Knowledge ρ)) : Prop where
  known : ∀ f entry, s.versions.entries.find? f = some entry → (∃ g ∈ owed, g.same f = true) ∨
    ∃ a, s.knowledge.analyses.find? f = some a ∧ a.version = entry.version
  unknown : ∀ f ∈ owed, s.knowledge.analyses.find? f = none
  held : ∀ f ∈ owed, (held? h f s).isSome = true
  tracked : ∀ f ∈ owed, s.versions.entries.contains f = true
  count : s.knowledge.count + owed.length = n + changesTold s.events

theorem held_emitLogged (file g : Path) {s : Session (Traced Store) (Knowledge ρ)}
    (hheld : (held? h g s).isSome = true) :
    (held? h g (after (emitLogged p file) s)).isSome = true := by
  let P : Store → Prop := fun st => (h.file? st g).isSome = true
  have hwrite : ∀ path content, Keeps P (h.storage.write path content) := by
    intro path content st hst
    have hst : (h.file? st g).isSome = true := hst
    show (h.file? ((h.storage.write path content).run st).2 g).isSome = true
    rw [h.write_run]
    split
    · exact hst
    · rw [Handle.file?, Store.find?_put]
      split
      · rfl
      · exact hst
  have hrule := emissionRule_onFiles (p := p) (R := fun _ l => P l.inner) hs.looks
    (fun _ => hp ▸ Traced.looks_inner (h.looks_storage P))
    (fun _ path content => hp ▸ Traced.keeps_traced (hwrite path content) _) file
  exact hrule.emitLogged hheld

theorem opening_emitLogged {file : Path} {rest : List Path}
    {s : Session (Traced Store) (Knowledge ρ)} (hdistinct : ∀ g ∈ rest, file.same g = false)
    (ho : Opening h n (file :: rest) s) :
    let t := after (emitLogged p file) s
    (∀ f, t.knowledge.analyses.contains f =
      (file.same f || s.knowledge.analyses.contains f)) ∧ Opening h n rest t := by
  intro t
  have hfile := List.mem_cons_self (a := file) (l := rest)
  obtain ⟨entry, hentry⟩ := Option.isSome_iff_exists.1 (ho.tracked file hfile)
  have hv : s.versions.version? file = some entry.version := by
    rw [VersionTable.version?, hentry]
    rfl
  have hnew : s.knowledge.current? file entry.version = none := by
    rw [Knowledge.current?, ho.unknown file hfile]
    rfl
  obtain ⟨hversions, htold, a, ha, hlearn⟩ :=
    emitLogged_learns hp hs (ho.held file hfile) hv hnew
  have hfind : ∀ f, t.knowledge.analyses.find? f =
      if file.same f then some a else s.knowledge.analyses.find? f := by
    intro f
    rw [hlearn, Knowledge.learn, Table.find?_set]
  refine ⟨fun f => ?_, fun f e he => ?_, fun f hf => ?_, fun f hf => ?_, fun f hf => ?_, ?_⟩
  · rw [Table.contains, hfind, Table.contains]
    cases file.same f <;> rfl
  · rw [hversions] at he
    rw [hfind]
    cases hsame : file.same f with
    | true =>
        rw [← Table.find?_congr _ hsame, hentry] at he
        cases he
        exact .inr ⟨a, rfl, ha⟩
    | false =>
        rcases ho.known f e he with ⟨g, hg, hgf⟩ | hknown
        · rcases List.mem_cons.1 hg with rfl | hg
          · cases hsame.symm.trans hgf
          · exact .inl ⟨g, hg, hgf⟩
        · exact .inr hknown
  · rw [hfind, hdistinct f hf]
    exact ho.unknown f (List.mem_cons_of_mem _ hf)
  · exact held_emitLogged hp hs file f (ho.held f (List.mem_cons_of_mem _ hf))
  · rw [hversions]
    exact ho.tracked f (List.mem_cons_of_mem _ hf)
  · have hcount : (after (emitLogged p file) s).knowledge.count = s.knowledge.count + 1 :=
      congrArg Knowledge.count hlearn
    rw [hcount, htold, ← ho.count, List.length_cons]
    omega

/-- A file that was met before is known, and its emission leaves all as it was. -/
theorem opening_again {file : Path} {owed : List Path} {s : Session (Traced Store) (Knowledge ρ)}
    (hknown : s.knowledge.analyses.contains file = true) (ho : Opening h n owed s) :
    let t := after (emitLogged p file) s
    t.knowledge = s.knowledge ∧ Opening h n owed t := by
  intro t
  have hupToDate : UpToDateOn file s := by
    intro entry he
    refine (ho.known file entry he).resolve_left ?_
    rintro ⟨g, hg, hsame⟩
    rw [Table.contains, ← Table.find?_congr _ hsame, ho.unknown g hg] at hknown
    cases hknown
  have hversions : t.versions = s.versions := (sameBooks_emitLogged p file s).versions
  obtain ⟨journal, hemit⟩ := exists_emitLogged p file s
  have hknowledge : t.knowledge = s.knowledge :=
    (congrArg (·.knowledge) hemit).trans (congrArg (·.knowledge) (hupToDate.asked_eq hs))
  have htold : changesTold t.events = changesTold s.events := changesTold_emitLogged p file s
  refine ⟨hknowledge, fun f entry he => ?_, fun f hf => ?_, fun f hf => ?_, fun f hf => ?_, ?_⟩
  · rw [hknowledge]
    exact ho.known f entry (hversions ▸ he)
  · rw [hknowledge]
    exact ho.unknown f hf
  · exact held_emitLogged hp hs file f (ho.held f hf)
  · rw [hversions]
    exact ho.tracked f hf
  · rw [hknowledge, htold]
    exact ho.count

/-- Files are studied as they are met for the first time. -/
theorem opening_emitAll : ∀ {files : List Path} {s : Session (Traced Store) (Knowledge ρ)},
    Opening h n ((files.filter fun f => !s.knowledge.analyses.contains f).eraseDupsBy same) s →
      Opening h n [] (after (emitAll p files) s)
  | [], _, ho => ho
  | file :: rest, s, ho => by
      rw [eraseDupsBy_filter_cons] at ho
      refine opening_emitAll (s := after (emitLogged p file) s) ?_
      cases hknown : s.knowledge.analyses.contains file with
      | true =>
          rw [hknown, if_pos rfl] at ho
          obtain ⟨hknowledge, ho⟩ := opening_again hp hs hknown ho
          rw [hknowledge]
          exact ho
      | false =>
          rw [hknown, if_neg Bool.false_ne_true] at ho
          have hother : ∀ g ∈ (rest.filter fun f =>
              !(file.same f || s.knowledge.analyses.contains f)).eraseDupsBy same,
              file.same g = false := by
            intro g hg
            have hkept := (List.mem_filter.1 ((sublist_eraseDupsBy same _).subset hg)).2
            rw [Bool.not_or, Bool.and_eq_true, Bool.not_eq_true'] at hkept
            exact hkept.1
          obtain ⟨hlearned, ho⟩ := opening_emitLogged hp hs hother ho
          simp only [hlearned]
          exact ho

/-- A start over files that are all to be studied makes one analysis for each. -/
theorem counted_begin {files : List Path} {first : Session (Traced Store) (Knowledge ρ)}
    (hinitial : first.knowledge = p.frontEnd.initialKnowledge)
    (hopening : Opening h n (files.eraseDupsBy same) (announced files first)) :
    Counted n (after (begin p files) first) := by
  have hunknown : ∀ f, (announced files first).knowledge.analyses.contains f = false := by
    intro f
    rw [show (announced files first).knowledge = {} from hinitial.trans hs.initialKnowledge]
    rfl
  have howed : Opening h n ((files.filter fun f =>
      !(announced files first).knowledge.analyses.contains f).eraseDupsBy same)
      (announced files first) := by
    simpa only [hunknown, Bool.not_false, List.filter_true] using hopening
  have hlast := opening_emitAll hp hs howed
  rw [after_begin, after_armAll]
  refine ⟨fun f entry he => ?_, hlast.count⟩
  rcases hlast.known f entry he with ⟨g, hg, -⟩ | hknown
  · cases hg
  · exact hknown

section Start

variable {config : HostConfig} {options : WatchOptions} {world : World (Traced Store)}

omit hs

/-- A session is set up without a change to a file. -/
theorem inner_tracked (files : List Path) :
    (after (trackAll p.storage {} files) (collected p config options world).2.store).inner =
      world.store.inner := by
  let Same : Traced Store → Prop := fun l => l.inner = world.store.inner
  have hlooks : p.storage.Looks Same :=
    hp ▸ Traced.looks_inner (h.looks_storage (· = world.store.inner))
  have hmodified : ∀ path, Keeps Same (p.storage.modified path) := hp ▸ fun _ _ hl => hl
  have hfound : Same (collected p config options world).2.store := of_collected hlooks rfl
  exact keeps_trackAll hmodified files {} _ hfound

/-- The files that a search finds in a store that is kept under keys are in path order, and all are
there. -/
theorem sources_held (hworld : h.Keyed world.store.inner) :
    let files := (collected p config options world).1
    files.Pairwise (compare · · = .lt) ∧
      ∀ f ∈ files, (h.file? world.store.inner f).isSome = true := by
  intro files
  let w : World Store := Traced.forget (atRoot p config world)
  have hstore : w.store = world.store.inner := by
    show (after (p.storage.isDir config.projectRoot) world.store).inner = _
    rw [hp]
    rfl
  have hkeyed : h.Keyed w.store := hstore ▸ hworld
  have hfiles : files = answer (Sources.collect h.storage config.projectRoot options.extension
      config.options.outDir) w := by
    show answer (Sources.collect p.storage _ _ _) _ = _
    rw [hp]
    exact Traced.answer_collect _ _ _ _ _
  refine ⟨?_, fun f hf => ?_⟩
  · rw [hfiles]
    exact Sources.ascending_collect h.storage_lists _ _ _ w hkeyed
  · rw [hfiles, Sources.mem_collect_iff (h.looks_storage _) (Handle.storage_bounded hkeyed.plain)] at hf
    obtain ⟨⟨k, hk, hsame⟩, -⟩ := Handle.holds_of_isSource hkeyed hf
    have hplace : k.components = (h.key f).components := by
      rw [← h.key_congr (same_iff.2 hsame)]
      exact (same_iff.1 (hkeyed k hk)).symm
    rw [← hstore]
    exact Store.holds_iff.1 ⟨k, hk, hplace⟩

/-- A session over files that are kept under keys tracks all that its search finds. -/
theorem files_of_start (hworld : h.Keyed world.store.inner)
    {session : Session (Traced Store) (Knowledge ρ)}
    (hstart : (start p config options world).1 = .ok session) :
    session.versions.files = (collected p config options world).1 := by
  rw [files_start hstart]
  exact eraseDupsBy_of_ascending (sources_held hp hworld).1

include hs

/-- A session that starts has begun with the files that were found. If the tracked ones are there,
all of them are to be studied. -/
theorem exists_first {session : Session (Traced Store) (Knowledge ρ)}
    (hstart : (start p config options world).1 = .ok session) : ∃ first,
      let found := (collected p config options world).1
      let files := session.versions.files
      session = after (begin p found) first ∧ first.knowledge = p.frontEnd.initialKnowledge ∧
        ((∀ f ∈ files, (h.file? world.store.inner f).isSome = true) →
          Opening h files.length files (announced found first)) := by
  have htimes : (after (trackAll p.storage {} (collected p config options world).1)
      (collected p config options world).2.store).inner = world.store.inner := inner_tracked hp _
  obtain ⟨_, journal, rfl⟩ := start_collected hstart
  generalize collected p config options world = found at *
  obtain ⟨found, left⟩ := found
  dsimp only at *
  refine ⟨_, rfl, rfl, fun hheld => ?_⟩
  rw [versions_begin] at hheld ⊢
  generalize answer (trackAll p.storage {} found) left.store = versions at *
  generalize after (trackAll p.storage {} found) left.store = st at *
  let first := fresh p config options versions ⟨st, journal⟩
  have hempty : (announced found first).knowledge = {} := hs.initialKnowledge
  refine ⟨fun f entry he => .inl ?_, fun f hf => ?_, fun f hf => ?_, fun f hf => ?_, ?_⟩
  · have he : first.versions.entries.find? f = some entry := he
    refine (Table.contains_iff _ f).1 ?_
    rw [Table.contains, he]
    rfl
  · rw [hempty]
    rfl
  · show (h.file? st.inner f).isSome = true
    rw [htimes]
    exact hheld f hf
  · exact Table.contains_of_mem_keys (t := first.versions.entries) hf
  · rw [hempty]
    show 0 + versions.files.length = versions.files.length + 0
    rw [Nat.zero_add, Nat.add_zero]

end Start

end Memory

/-! ## The emissions of a run -/

section Runs

variable {σ κ : Type} {p : Platform σ κ}

/-- The emissions that belong to a step, each with the session in which it begins: those of the
checks of a tick that find a change, or the one that was asked for. -/
def Step.emissions (p : Platform σ κ) (s : Session σ κ) : Step σ → List (Path × Session σ κ)
  | tick now => (checksOf p now s).filterMap fun (file, before) =>
    (change? p file before).map fun (entry, time) =>
      (file, enter file entry time (timed p file before))
  | emit file => [(file, s)]
  | _ => []

def emissionsOf (p : Platform σ κ) : List (Step σ) → Session σ κ → List (Path × Session σ κ)
  | [], _ => []
  | step :: rest, s => step.emissions p s ++ emissionsOf p rest (after (step.act p) s)

theorem files_play (steps : List (Step σ)) (s : Session σ κ) :
    (play p steps s).versions.files = s.versions.files := by
  refine keeps_play (Q := fun t => t.versions.files = s.versions.files) (fun step _ => ?_) s rfl
  refine keeps_act (fun _ _ _ _ hq => hq) (fun _ _ _ hq => hq) (fun path t hq => ?_)
    (fun path t hq => ?_) fun _ _ _ hq => hq
  · exact (books_check path t).1.trans hq
  · exact (congrArg (·.files) (sameBooks_emitFile p path t).versions).trans hq

theorem of_mem_emissions {Q : Session σ κ → Prop} : ∀ {files : List Path} {s : Session σ κ},
    (∀ file, Keeps Q (emitLogged p file)) → Q s → ∀ emission ∈ emissions p files s, Q emission.2
  | [], _, _, _, emission, hm => by cases hm
  | file :: rest, s, h, hs, emission, hm => by
      rcases List.mem_cons.1 hm with rfl | hm
      · exact hs
      · exact of_mem_emissions h (h file s hs) emission hm

variable {ρ : Type} {p : Platform σ (Knowledge ρ)} {analyst : Analyst σ ρ}
  (hs : p.frontEnd.Serves analyst)

include hs

theorem allBehind_emissions (step : Step σ) {s : Session σ (Knowledge ρ)}
    (hbehind : AllBehind analyst s) :
    ∀ emission ∈ step.emissions p s, AllBehind analyst emission.2 := by
  intro emission hm
  cases step with
  | tick now =>
      obtain ⟨⟨file, before⟩, hpoll, hchange⟩ := List.mem_filterMap.1 hm
      obtain ⟨⟨entry, time⟩, hfound, rfl⟩ := Option.map_eq_some_iff.1 hchange
      rw [checksOf] at hpoll
      split at hpoll
      · cases hpoll
      · have hopened : AllBehind analyst (opened now s) := hbehind
        have hbefore : AllBehind analyst before :=
          of_mem_polls (fun path _ t ht => keeps_check_allBehind hs path t ht) hopened hpoll
        exact allBehind_enter hbefore hfound
  | emit file =>
      obtain rfl := List.mem_singleton.1 hm
      exact hbehind
  | wake _ | shutdown | outside _ => cases hm

theorem allBehind_emissionsOf : ∀ (steps : List (Step σ)) {s : Session σ (Knowledge ρ)},
    AllBehind analyst s → ∀ emission ∈ emissionsOf p steps s, AllBehind analyst emission.2
  | [], _, _, emission, hm => by cases hm
  | step :: rest, s, hbehind, emission, hm => by
      rcases List.mem_append.1 hm with hm | hm
      · exact allBehind_emissions hs step hbehind emission hm
      · exact allBehind_emissionsOf rest (keeps_act_allBehind hs step s hbehind) emission hm

end Runs

/-- In every session over files in memory, however these are changed between its steps, a keyed
service makes one analysis for each tracked file and one for each change told, if the tracked files
were there when the session started. In a store that is kept under keys they all were, as all that
was found was. Every emission rests on one analysis. A tick that finds no change looks at the times
of the due files, and does nothing else. -/
theorem one_analysis_per_version {ρ : Type} {h : Handle}
    {p : Platform (Traced Store) (Knowledge ρ)} {analyst : Analyst (Traced Store) ρ}
    (hp : p.storage = Traced.storage h.storage) (hs : p.frontEnd.Serves analyst)
    {config : HostConfig} {options : WatchOptions} {world : World (Traced Store)}
    {session : Session (Traced Store) (Knowledge ρ)}
    (hstart : (start p config options world).1 = .ok session)
    (steps : List (Step (Traced Store))) :
    let found := (collected p config options world).1
    let files := session.versions.files
    let s := play p steps session
    s.versions.files = files ∧
      ((∀ f ∈ files, (h.file? world.store.inner f).isSome = true) →
        s.knowledge.count = files.length + changesTold s.events) ∧
      (h.Keyed world.store.inner →
        files = found ∧ ∀ f ∈ found, (h.file? world.store.inner f).isSome = true) ∧
      (∃ first, session = after (begin p found) first ∧
        ∀ emission ∈ emissions p found (announced found first) ++ emissionsOf p steps session,
          ∃ analysis, RestsOn p analyst emission analysis) ∧
      ∀ now, (∀ f ∈ dueFiles now s, change? p f s = none) →
        let t := after (tick p now) s
        let looked := if s.stopped then [] else dueFiles now s
        answer (tick p now) s = 0 ∧ t.versions = s.versions ∧ t.knowledge = s.knowledge ∧
          t.events = s.events ∧
          t.world = ⟨⟨s.world.store.inner, s.world.store.calls ++ looked.map .modified⟩,
            s.world.journal⟩ := by
  intro found files s
  obtain ⟨first, hsession, hinitial, hopening⟩ := exists_first hp hs hstart
  refine ⟨files_play steps session, fun hheld => ?_,
    fun hworld => ⟨files_of_start hp hworld hstart, (sources_held hp hworld).2⟩,
    ⟨first, hsession, ?_⟩, fun now hnone => ?_⟩
  · have hopening : Opening h files.length (found.eraseDupsBy same) (announced found first) :=
      files_start hstart ▸ hopening hheld
    have hcounted : Counted files.length (after (begin p found) first) :=
      counted_begin hp hs hinitial hopening
    rw [← hsession] at hcounted
    have hlast : Counted files.length s :=
      keeps_play (fun step _ => keeps_act_counted hp hs step) session hcounted
    exact hlast.count
  · intro emission hm
    refine exists_restsOn hs (rereads hp) emission.1 ?_
    rcases List.mem_append.1 hm with hm | hm
    · refine of_mem_emissions (fun file t ht => (emissionRule_allBehind hs file).emitLogged ht) ?_
        emission hm
      exact allBehind_of_initial hs hinitial
    · have hbehind : AllBehind analyst session := allBehind_play hs hstart []
      exact allBehind_emissionsOf hs steps hbehind emission hm
  · cases hstopped : s.stopped with
    | true =>
        rw [after_tick_of_stopped hstopped, answer_tick_of_stopped hstopped, if_pos rfl]
        refine ⟨rfl, rfl, rfl, rfl, ?_⟩
        show s.world = ⟨⟨s.world.store.inner, s.world.store.calls ++ []⟩, s.world.journal⟩
        rw [List.append_nil]
    | false =>
        rw [after_tick_of_running hstopped, answer_tick_of_running hstopped,
          if_neg Bool.false_ne_true]
        exact checkAll_unchanged hp now (dueFiles now s) (opened now s) hnone

def tracedChecker : Platform (Traced Store) LineChecker.Knowledge :=
  LineChecker.platform (Traced.storage exact.storage)

def tracedSources : World (Traced Store) :=
  ⟨⟨exact.withFiles [(⟨"/p/a.ts"⟩, "let a"), (⟨"/p/b.ts"⟩, "import x from \"./a\"")], []⟩, []⟩

def editTraced (edit : Edit) : Step (Traced Store) :=
  .outside fun t => { t with inner := edit.change exact t.inner }

/-- A file is changed, emitted again on request, removed and missed by a tick. Another one, which no
session tracks, is asked for. -/
def goneSteps : List (Step (Traced Store)) :=
  [editTraced (.insert ⟨"/p/a.ts"⟩ "let a2"), .tick 300, .emit ⟨"/p/a.ts"⟩,
    editTraced (.remove ⟨"/p/a.ts"⟩), .emit ⟨"/p/a.ts"⟩, .tick 600, .emit ⟨"/p/c.ts"⟩]

theorem one_analysis_per_version_gone :
    ∃ session, (start tracedChecker (.plain "/p") {} tracedSources).1 = .ok session ∧
      let s := play tracedChecker goneSteps session
      s.knowledge.count = 3 ∧ (after (tick tracedChecker 900) s).knowledge = s.knowledge := by
  obtain ⟨session, hstart, hrun⟩ := exists_start
    (show (start tracedChecker (.plain "/p") {} tracedSources).1.toOption.any (fun session =>
      let s := play tracedChecker goneSteps session
      session.versions.files.length == 2 && changesTold s.events == 1 &&
        (dueFiles 900 s).all fun f => (change? tracedChecker f s).isNone) = true by decide +kernel)
  simp only [Bool.and_eq_true, beq_iff_eq, List.all_eq_true, Option.isNone_iff_eq_none] at hrun
  obtain ⟨⟨hfiles, htold⟩, hnone⟩ := hrun
  have hone := one_analysis_per_version (p := tracedChecker) (h := exact) rfl
    LineChecker.frontEnd_serves hstart goneSteps
  refine ⟨session, hstart, ?_⟩
  dsimp only at hone ⊢
  -- the run is long, and nothing of it is needed any more
  generalize play tracedChecker goneSteps session = s at *
  obtain ⟨-, hcount, hkept, -, hticks⟩ := hone
  obtain ⟨hfound, hheld⟩ := hkept (exact.keyed_withFiles _)
  have hcount := hcount (hfound ▸ hheld)
  obtain ⟨-, -, hquiet, -⟩ := hticks 900 hnone
  rw [hfiles, htold] at hcount
  exact ⟨hcount, hquiet⟩

/-- The line checker over files in memory, when letter case does not count. -/
def tracedFolding : Platform (Traced Store) LineChecker.Knowledge :=
  LineChecker.platform (Traced.storage folding.storage)

/-- A file with a capital letter in its name, which is out of reach as soon as letter case does not
count. -/
def tracedCapital : World (Traced Store) :=
  ⟨⟨exact.withFiles [(⟨"/p/A.ts"⟩, "x")], []⟩, []⟩

theorem capital_never_analysed :
    ∃ session, (start tracedFolding (.plain "/p") {} tracedCapital).1 = .ok session ∧
      session.versions.files = [⟨"/p/A.ts"⟩] ∧ changesTold session.events = 0 ∧
      session.knowledge.count = 0 := by
  obtain ⟨session, h, hrun⟩ := exists_start
    (show (start tracedFolding (.plain "/p") {} tracedCapital).1.toOption.any (fun session =>
      session.versions.files == [⟨"/p/A.ts"⟩] && changesTold session.events == 0 &&
        session.knowledge.count == 0) = true by decide +kernel)
  simp only [Bool.and_eq_true, beq_iff_eq] at hrun
  obtain ⟨⟨hfiles, htold⟩, hcount⟩ := hrun
  exact ⟨session, h, hfiles, htold, hcount⟩

end Session

end CompileWatch
