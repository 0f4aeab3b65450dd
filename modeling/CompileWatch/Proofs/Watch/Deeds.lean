import CompileWatch.Proofs.Asking
import CompileWatch.Proofs.Storage.Writing
import CompileWatch.Proofs.Watch.Analyses
import CompileWatch.Proofs.Watch.Emissions

/-!
# What a check of a file rests on

A check reads a time, has its file analysed, writes the artifacts and tells. Over
files in memory it does so again, and does the same, in every session that has the
same entry and the same analysis of the file, and in which nothing is new that the
check asks after: what it does to that session is its deed (`exists_deed`).

What happens to other files between two sessions is of no account as long as it is
spared by the calls of the check. The versions of other files can make no
difference either, because a service reads a version to learn whether an analysis
is still good, and an analyst does not see it.
-/

namespace CompileWatch

open CompileWatch.Path Memory

/-- An analyst whose studies do not look at versions. -/
def Analyst.IgnoresVersions {σ ρ : Type} (analyst : Analyst σ ρ) : Prop :=
  ∀ (host : AnalysisHost σ) versions path text,
    analyst.study { host with scriptVersion := versions } path text = analyst.study host path text

theorem Call.isLook_of_isProbe : ∀ {call : Call}, call.IsProbe → call.IsLook
  | .contains _, _ | .read _, _ => trivial

/-- A platform over files in memory whose calls are kept, with the keyed service of an analyst that
knows of the files only what it asks for. -/
structure Platform.Reads {ρ : Type} (p : Platform (Traced Store) (Knowledge ρ)) (h : Handle)
    (analyst : Analyst (Traced Store) ρ) : Prop where
  storage : p.storage = Traced.storage h.storage
  serves : p.frontEnd.Serves analyst
  native : p.frontEnd.resolveModule.OnlyAsks h.storage Call.IsLook
  study : analyst.OnlyAsks h.storage Call.IsLook
  versions : analyst.IgnoresVersions

theorem LineChecker.reads_of {h : Handle} {p : Platform (Traced Store) LineChecker.Knowledge}
    (hstorage : p.storage = Traced.storage h.storage) (hfe : p.frontEnd = LineChecker.frontEnd) :
    p.Reads h LineChecker.analyst where
  storage := hstorage
  serves := hfe ▸ LineChecker.frontEnd_serves
  native := hfe ▸ LineChecker.resolveModule_onlyAsks (fun _ => h.looks_storage _)
    fun _ => Call.isLook_of_isProbe
  study := LineChecker.analyst_onlyAsks
  versions _ _ _ _ := rfl

theorem LineChecker.reads (h : Handle) :
    (LineChecker.platform (Traced.storage h.storage)).Reads h LineChecker.analyst :=
  LineChecker.reads_of rfl rfl

/-- The artifacts of an output that are to be written. -/
def EmitOutput.delivered (output : EmitOutput) : List Artifact :=
  if output.emitSkipped then [] else output.artifacts

namespace Session

/-- Two sessions that say the same of one file, and were set up alike. -/
structure AgreesOn {σ ρ : Type} (file : Path) (s t : Session σ (Knowledge ρ)) : Prop where
  config : t.config = s.config
  files : t.versions.files = s.versions.files
  entry : t.versions.entries.find? file = s.versions.entries.find? file
  known : t.knowledge.analyses.find? file = s.knowledge.analyses.find? file

namespace AgreesOn

variable {σ ρ : Type} {p : Platform σ (Knowledge ρ)} {file : Path} {s t : Session σ (Knowledge ρ)}

theorem version? (ha : AgreesOn file s t) : t.versions.version? file = s.versions.version? file :=
  congrArg _ ha.entry

theorem current? (ha : AgreesOn file s t) (version : Nat) :
    t.knowledge.current? file version = s.knowledge.current? file version :=
  congrArg _ ha.known

theorem serviceHost (ha : AgreesOn file s t) :
    t.serviceHost p = { s.serviceHost p with scriptVersion := t.versions.version? } := by
  unfold Session.serviceHost Platform.sessionHost
  rw [ha.config]
  simp only [SessionHost.view, ha.files]
  rfl

theorem enter (ha : AgreesOn file s t) (entry : VersionEntry) (time : Timestamp) :
    AgreesOn file (enter file entry time (timed p file s)) (enter file entry time (timed p file t))
    where
  config := ha.config
  files := Table.keys_set_congr ha.files file _ _
  entry := by
    show (t.versions.entries.set file _).find? file = (s.versions.entries.set file _).find? file
    rw [Table.find?_set, Table.find?_set, if_pos (same_self file), if_pos (same_self file)]
  known := ha.known

end AgreesOn

variable {ρ : Type} {h : Handle} {p : Platform (Traced Store) (Knowledge ρ)}
  {analyst : Analyst (Traced Store) ρ}

/-! ## Questions to the service -/

/-- From one session to a later one: some calls are made that change no file, and something may be
learned of one file. -/
structure Learned (file : Path) (looks : List Call) (learned? : Option (Analysis ρ))
    (t u : Session (Traced Store) (Knowledge ρ)) : Prop where
  store : u.world.store = ⟨t.world.store.inner, t.world.store.calls ++ looks⟩
  known : ∀ g, u.knowledge.analyses.find? g =
    (if file.same g then learned? else none).or (t.knowledge.analyses.find? g)

namespace Learned

variable {file : Path} {t u v : Session (Traced Store) (Knowledge ρ)}

theorem refl (file : Path) (t : Session (Traced Store) (Knowledge ρ)) :
    Learned file [] none t t where
  store := by rw [List.append_nil]
  known g := by rw [ite_self, Option.none_or]

theorem trans {looks more : List Call} {learned? again? : Option (Analysis ρ)}
    (hl : Learned file looks learned? t u) (hl' : Learned file more again? u v) :
    Learned file (looks ++ more) (again?.or learned?) t v where
  store := by rw [hl'.store, hl.store, List.append_assoc]
  known g := by
    rw [hl'.known, hl.known, ← Option.or_assoc]
    split <;> rfl

end Learned

section Service

variable (hp : p.Reads h analyst) (file : Path) (s : Session (Traced Store) (Knowledge ρ))

include hp

theorem world_textRead : (s.textRead p file).world.store =
    ⟨s.world.store.inner, s.world.store.calls ++ [.read file]⟩ := by
  show after (p.storage.read file) s.world.store = _
  rw [hp.storage]
  rfl

/-- The study of a text rests on the answers to its calls. -/
theorem exists_studying (text : String) : ∃ asked, ∀ t, AgreesOn file s t →
    (∀ call ∈ asked, call.Alike h.storage s.world.store.inner t.world.store.inner) →
    answer (t.studying p analyst file text) (t.textRead p file).world =
        answer (s.studying p analyst file text) (s.textRead p file).world ∧
      (after (t.studying p analyst file text) (t.textRead p file).world).store =
        ⟨t.world.store.inner, t.world.store.calls ++ .read file :: asked⟩ := by
  have hhost : (p.sessionHost s.world.store s.config s.versions).view.OnlyAsks h.storage Call.IsLook :=
    SessionHost.onlyAsks_view (fun _ => h.looks_storage _) (fun _ => Call.isLook_of_isProbe)
      hp.storage hp.native
  obtain ⟨asked, hasked⟩ := hp.study (show (s.serviceHost p).OnlyAsks _ _ from hhost) file text
    (s.textRead p file).world
  refine ⟨asked, fun t ha halike => ?_⟩
  have hstudy : t.studying p analyst file text = s.studying p analyst file text := by
    rw [studying, ha.serviceHost, hp.versions]
    rfl
  obtain ⟨hanswer, hafter⟩ := hasked.again (t.textRead p file).world fun call hc => by
    rw [world_textRead hp, world_textRead hp]
    exact halike call hc
  rw [hstudy]
  refine ⟨hanswer, hafter.trans ?_⟩
  rw [world_textRead hp, List.append_assoc]
  rfl

variable {file s}

/-- How a session comes to an analysis of a file rests on what it says of the file, and on the answers
to some calls. -/
theorem exists_analyzes {s' : Session (Traced Store) (Knowledge ρ)} {found : Option (Analysis ρ)}
    (hs : Analyzes p analyst file s found s') : ∃ looks learned?, ∀ {t t' found'},
      AgreesOn file s t →
      (∀ call ∈ looks, call.Alike h.storage s.world.store.inner t.world.store.inner) →
      Analyzes p analyst file t found' t' → found' = found ∧ Learned file looks learned? t t' := by
  have hread : ∀ {t : Session (Traced Store) (Knowledge ρ)},
      (Call.read file).Alike h.storage s.world.store.inner t.world.store.inner →
      answer (p.storage.read file) t.world.store = answer (p.storage.read file) s.world.store := by
    rw [hp.storage]
    exact id
  -- version, knowledge and text are the same, so the other session comes to it in the same way
  cases hs with
  | untracked hv =>
      refine ⟨[], none, fun ha _ ht => ?_⟩
      obtain ⟨rfl, rfl⟩ := (Analyzes.untracked (ha.version?.trans hv)).unique ht
      exact ⟨rfl, .refl _ _⟩
  | known hv hknown =>
      refine ⟨[], none, fun ha _ ht => ?_⟩
      obtain ⟨rfl, rfl⟩ :=
        (Analyzes.known (ha.version?.trans hv) ((ha.current? _).trans hknown)).unique ht
      exact ⟨rfl, .refl _ _⟩
  | unread hv hnew hnone =>
      refine ⟨[.read file], none, fun {t _ _} ha halike ht => ?_⟩
      have hnone := (congrArg _ (hread (halike _ List.mem_cons_self))).trans hnone
      obtain ⟨rfl, rfl⟩ :=
        (Analyzes.unread (ha.version?.trans hv) ((ha.current? _).trans hnew) hnone).unique ht
      refine ⟨rfl, world_textRead hp file t, fun g => ?_⟩
      rw [ite_self, Option.none_or]
      rfl
  | @studied version text hv hnew hsome =>
      obtain ⟨asked, hstudying⟩ := exists_studying hp file s text
      refine ⟨.read file :: asked, some (s.newAnalysis p analyst file version text),
        fun {t _ _} ha halike ht => ?_⟩
      have hsome := (congrArg _ (hread (halike _ List.mem_cons_self))).trans hsome
      obtain ⟨rfl, rfl⟩ :=
        (Analyzes.studied (ha.version?.trans hv) ((ha.current? _).trans hnew) hsome).unique ht
      obtain ⟨hanswer, hafter⟩ :=
        hstudying t ha fun call hc => halike call (List.mem_cons_of_mem _ hc)
      have hanalysis : t.newAnalysis p analyst file version text =
          s.newAnalysis p analyst file version text := congrArg (Analysis.mk version text) hanswer
      refine ⟨congrArg some hanalysis, hafter, fun g => ?_⟩
      show (t.knowledge.analyses.set file _).find? g = _
      rw [Table.find?_set, hanalysis]
      split <;> rfl

variable (file s)

/-- The questions of an emission rest on what a session says of the file, and on the answers to some
calls. -/
theorem exists_asked : ∃ looks learned?, ∀ t, AgreesOn file s t →
    (∀ call ∈ looks, call.Alike h.storage s.world.store.inner t.world.store.inner) →
    answer (askOutput p file) t = answer (askOutput p file) s ∧ said p file t = said p file s ∧
      Learned file looks learned? t (asked p file t) := by
  obtain ⟨looks, learned?, hfirst⟩ := exists_analyzes hp (s.analyzes p analyst file)
  have hhere := hfirst ⟨rfl, rfl, rfl, rfl⟩ (fun call _ => .refl _ _ call) (s.analyzes p analyst file)
  obtain ⟨more, again?, hsecond⟩ :=
    exists_analyzes hp (Session.analyzes p analyst file (s.analyzed p analyst file))
  refine ⟨looks ++ more, again?.or learned?, fun t ha halike => ?_⟩
  obtain ⟨hfound, hlearned⟩ := hfirst ha (fun call hc => halike call (List.mem_append_left _ hc))
    (t.analyzes p analyst file)
  have hagain : AgreesOn file (s.analyzed p analyst file) (t.analyzed p analyst file) := by
    refine ⟨ha.config, ha.files, ha.entry, ?_⟩
    rw [hlearned.known, hhere.2.known, ha.known]
  obtain ⟨hfound', hlearned'⟩ := hsecond hagain
    (fun call hc => by
      rw [hlearned.store, hhere.2.store]
      exact halike call (List.mem_append_right _ hc))
    (Session.analyzes p analyst file (t.analyzed p analyst file))
  refine ⟨?_, ?_, ?_⟩
  · rw [answer_askOutput hp.serves, answer_askOutput hp.serves, ha.config, hfound]
  · rw [said, said, after_askOutput hp.serves, after_askOutput hp.serves,
      answer_askDiagnostics hp.serves, answer_askDiagnostics hp.serves, hfound']
  · rw [asked, after_askOutput hp.serves, after_askDiagnostics hp.serves]
    exact hlearned.trans hlearned'

end Service

/-! ## Deeds -/

/-- What a check or an emission of a file does. -/
structure Deed (ρ : Type) where
  /-- The calls that change no file. -/
  looks : List Call
  /-- The writes that are tried, with whether they are made. -/
  tried : List (Path × Bool)
  made : List Artifact
  /-- The new entry of the file. -/
  entry? : Option VersionEntry
  /-- The new analysis of the file. -/
  learned? : Option (Analysis ρ)
  told : List WatchEvent

namespace Deed

variable (d : Deed ρ)

def calls : List Call := d.looks ++ d.tried.map fun (path, made) => .write path made

/-- The new entry of a path, when the deed is that of a file. -/
def entryAt? (file path : Path) : Option VersionEntry := if file.same path then d.entry? else none

def analysisAt? (file path : Path) : Option (Analysis ρ) :=
  if file.same path then d.learned? else none

/-- The deed of a file that is found unchanged. -/
def nothing (file : Path) : Deed ρ := ⟨[.modified file], [], [], none, none, []⟩

/-- The deed of a file with a change that is entered first, and told of. -/
def entering (file : Path) (entry : VersionEntry) (time : Timestamp) : Deed ρ :=
  { d with
    looks := .modified file :: d.looks
    entry? := some ⟨entry.version + 1, some time⟩
    told := .fileChanged file.text (entry.version + 1) :: d.told }

end Deed

/-- Whether one session comes from another by the deed of a file. -/
structure Done (h : Handle) (file : Path) (d : Deed ρ) (t u : Session (Traced Store) (Knowledge ρ)) :
    Prop where
  config : u.config = t.config
  files : u.versions.files = t.versions.files
  entries : ∀ g, u.versions.entries.find? g = (d.entryAt? file g).or (t.versions.entries.find? g)
  known : ∀ g, u.knowledge.analyses.find? g =
    (d.analysisAt? file g).or (t.knowledge.analyses.find? g)
  store : u.world.store = ⟨t.world.store.inner.lay h d.made, t.world.store.calls ++ d.calls⟩
  events : u.events = t.events ++ d.told

/-- Whether an action does the deed of a file in a session, and in all that agree with it on the file
and have nothing new that the calls of the deed do not spare. -/
structure Does {α : Type} (h : Handle) (s : Session (Traced Store) (Knowledge ρ)) (file : Path)
    (d : Deed ρ) (x : Action (Traced Store) (Knowledge ρ) α) : Prop where
  made : ∀ a ∈ d.made, .write a.path true ∈ d.calls
  again : ∀ (W : List Component → Prop) t, AgreesOn file s t →
    Added W s.world.store.inner t.world.store.inner →
    (∀ call ∈ d.calls, ∀ place, W place → call.Spared h s.world.store.inner place) →
    Done h file d t (after x t)

theorem Does.done {α : Type} {s : Session (Traced Store) (Knowledge ρ)} {file : Path} {d : Deed ρ}
    {x : Action (Traced Store) (Knowledge ρ) α} (hd : Does h s file d x) :
    Done h file d s (after x s) :=
  hd.again (fun _ => False) s ⟨rfl, rfl, rfl, rfl⟩ (.refl _ _) fun _ _ _ hW => hW.elim

section Checks

variable (hp : p.Reads h analyst) (file : Path)

theorem writing_eq (output : EmitOutput) :
    writing p output = writeEach p.storage output.delivered := by
  unfold writing EmitOutput.delivered
  split <;> rfl

include hp

theorem exists_emission (s : Session (Traced Store) (Knowledge ρ)) :
    ∃ d : Deed ρ, d.entry? = none ∧ Does h s file d (emitLogged p file) := by
  obtain ⟨looks, learned?, hasked⟩ := exists_asked hp file s
  obtain ⟨-, -, hhere⟩ := hasked s ⟨rfl, rfl, rfl, rfl⟩ fun call _ => .refl _ _ call
  obtain ⟨made, tried, hwrites⟩ := exists_writes h (answer (askOutput p file) s).delivered
    (asked p file s).world.store
  refine ⟨⟨looks, tried, made, none, learned?,
    (said p file s).map .ofDiagnostic ++ [closing p file s (written p file s)]⟩, rfl,
    fun a ha => ?_, fun W t ha hadded hspared => ?_⟩
  · exact List.mem_append_right _ (List.mem_map.2 ⟨_, hwrites.mem_tried a ha, rfl⟩)
  · obtain ⟨houtput, hsaid, hlearned⟩ := hasked t ha fun call hc =>
      hadded.alike (hspared call (List.mem_append_left _ hc))
    obtain ⟨hanswer, hafter⟩ := hwrites.again W (asked p file t).world.store
      (by
        rw [hhere.store, hlearned.store]
        exact hadded.wider)
      (fun path made hw => by
        rw [hhere.store]
        exact hspared _ (List.mem_append_right _ (List.mem_map.2 ⟨_, hw, rfl⟩)))
    -- the same output is written, up to the same refusal
    rw [← hp.storage, ← writing_eq] at hanswer hafter
    have hwritten : written p file t = written p file s := by
      rw [written, houtput, hanswer]
      rfl
    have hclosing : closing p file t (written p file t) = closing p file s (written p file s) := by
      unfold closing
      rw [hwritten, houtput]
    obtain ⟨journal, hemit⟩ := exists_emitLogged p file t
    rw [hsaid, hclosing] at hemit
    rw [hemit]
    refine ⟨rfl, rfl, fun g => ?_, hlearned.known, ?_, rfl⟩
    · rw [Deed.entryAt?, ite_self, Option.none_or]
      rfl
    · show after (writing p (answer (askOutput p file) t)) (asked p file t).world.store = _
      rw [houtput, hafter, hlearned.store, List.append_assoc]
      rfl

/-- What a check finds rests on the entry of its file, and on the answer to one call. -/
theorem AgreesOn.change? {file : Path} {s t : Session (Traced Store) (Knowledge ρ)}
    (ha : AgreesOn file s t)
    (halike : (Call.modified file).Alike h.storage s.world.store.inner t.world.store.inner) :
    change? p file t = change? p file s := by
  refine change?_congr ?_ ha.entry
  rw [answer_modified hp.storage, answer_modified hp.storage]
  exact halike

omit hp

section Timed

variable {file : Path} (hstorage : p.storage = Traced.storage h.storage)

include hstorage

theorem done_timed (t : Session (Traced Store) (Knowledge ρ)) :
    Done h file (.nothing file) t (timed p file t) := by
  refine ⟨rfl, rfl, fun g => ?_, fun g => ?_, ?_, ?_⟩
  · rw [Deed.entryAt?, Deed.nothing, ite_self, Option.none_or]
    rfl
  · rw [Deed.analysisAt?, Deed.nothing, ite_self, Option.none_or]
    rfl
  · exact congrArg (·.store) (world_timed hstorage file t)
  · show _ = t.events ++ []
    rw [List.append_nil]
    rfl

theorem store_enter (entry : VersionEntry) (time : Timestamp)
    (t : Session (Traced Store) (Knowledge ρ)) :
    (enter file entry time (timed p file t)).world.store =
      ⟨t.world.store.inner, t.world.store.calls ++ [.modified file]⟩ :=
  congrArg (·.store) (world_timed hstorage file t)

theorem Done.entering {entry : VersionEntry} {time : Timestamp} {d : Deed ρ}
    {t u : Session (Traced Store) (Knowledge ρ)} (hentry : d.entry? = none)
    (htracked : t.versions.entries.contains file = true)
    (hd : Done h file d (enter file entry time (timed p file t)) u) :
    Done h file (d.entering file entry time) t u := by
  refine ⟨hd.config, ?_, fun g => ?_, hd.known, ?_, ?_⟩
  · exact hd.files.trans (Table.keys_set_of_contains _ htracked)
  · rw [hd.entries, Deed.entryAt?, hentry, ite_self, Option.none_or, Deed.entryAt?]
    show (t.versions.entries.set file _).find? g = _
    rw [Table.find?_set, Deed.entering]
    split <;> rfl
  · rw [hd.store, store_enter hstorage, List.append_assoc]
    rfl
  · rw [hd.events]
    exact List.append_assoc t.events _ _

end Timed

include hp

/-- Every check does the deed of its file. -/
theorem exists_deed (s : Session (Traced Store) (Knowledge ρ)) :
    ∃ d : Deed ρ, Does h s file d (check p file) := by
  cases hchange : change? p file s with
  | none =>
      refine ⟨.nothing file, fun _ ha => (List.not_mem_nil ha).elim, fun W t ha hadded hspared => ?_⟩
      have halike := hadded.alike (hspared (.modified file) List.mem_cons_self)
      rw [after_check, ha.change? hp halike, hchange]
      exact done_timed hp.storage t
  | some found =>
      obtain ⟨entry, time⟩ := found
      -- the emission begins in the session that has read the time and entered the change
      obtain ⟨d, hentry, hemission⟩ := exists_emission hp file (enter file entry time (timed p file s))
      refine ⟨d.entering file entry time, fun a ha => List.mem_cons_of_mem _ (hemission.made a ha),
        fun W t ha hadded hspared => ?_⟩
      have halike := hadded.alike (hspared (.modified file) List.mem_cons_self)
      have htracked : t.versions.entries.contains file = true := by
        rw [Table.contains, ha.entry, (change?_eq_some hchange).2.1]
        rfl
      rw [after_check, ha.change? hp halike, hchange]
      refine Done.entering hp.storage hentry htracked (hemission.again W _ (ha.enter entry time) ?_ ?_)
      · rw [store_enter hp.storage, store_enter hp.storage]
        exact hadded
      · intro call hc
        rw [store_enter hp.storage]
        exact hspared call (List.mem_cons_of_mem _ hc)

end Checks

end Session

end CompileWatch
