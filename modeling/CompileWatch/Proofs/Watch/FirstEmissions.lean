import CompileWatch.Proofs.FrontEnd.Verdicts
import CompileWatch.Proofs.Storage.Directories
import CompileWatch.Proofs.Watch.Deeds
import CompileWatch.Proofs.Watch.Reanalysis

/-!
# The first emissions of a session

A session that starts emits its files one after the other, and the outputs of the
first are written before the last is read. What it comes to is still fixed by the
store it began with, as long as it asks after no path that it has written: every
question is answered as it was at the start (`Underway.alike`), so every file is
found with the text and the verdict of that store.

`Underway` is the invariant of the loop. It keeps with each analysis what it found,
because a file that is asked for twice is studied once.
-/

namespace CompileWatch

open CompileWatch.Path Memory

/-- Whether an event tells of an output that was skipped. -/
def WatchEvent.isSkipped : WatchEvent → Bool
  | emitted _ _ skipped => skipped
  | _ => false

namespace LineChecker

theorem NotAsked.of_subset {h : Handle} {calls more : List Call} (hfree : NotAsked h more)
    (hsub : calls ⊆ more) : NotAsked h calls :=
  fun written hwritten probe hprobe => hfree written (hsub hwritten) probe (hsub hprobe)

end LineChecker

namespace Session

open LineChecker (analyst checking exists_checking textIn textIn_eq verdict artifactsIn Passes
  NotAsked OfUnits alike_of_made)

/-- Whether nothing came in the way of the emissions of a session: no output was skipped, no write
was refused, and no path that was written was asked after, nor a directory above one. -/
structure Smooth {κ : Type} (h : Handle) (s : Session (Traced Store) κ) : Prop where
  skipped : ∀ event ∈ s.events, event.isSkipped = false
  refused : ∀ call ∈ s.world.store.calls, call.isRefused = false
  asked : NotAsked h s.world.store.calls

instance {κ : Type} (h : Handle) (s : Session (Traced Store) κ) : Decidable (Smooth h s) :=
  decidable_of_iff ((∀ event ∈ s.events, event.isSkipped = false) ∧
      (∀ call ∈ s.world.store.calls, call.isRefused = false) ∧ NotAsked h s.world.store.calls)
    ⟨fun ⟨hskipped, hrefused, hasked⟩ => ⟨hskipped, hrefused, hasked⟩,
      fun hs => ⟨hs.skipped, hs.refused, hs.asked⟩⟩

theorem Smooth.of_subset {κ : Type} {h : Handle} {s t : Session (Traced Store) κ} (ht : Smooth h t)
    (hevents : s.events ⊆ t.events) (hcalls : s.world.store.calls ⊆ t.world.store.calls) :
    Smooth h s where
  skipped event he := ht.skipped event (hevents he)
  refused call hc := ht.refused call (hcalls hc)
  asked := ht.asked.of_subset hcalls

/-! ## What is known on the way -/

section Told

variable (h : Handle) (config : HostConfig) (s : Store) (file : Path)

/-- The first analysis of a file, by the store that a session begins with. -/
def firstAnalysis : Analysis (List Diagnostic) := ⟨0, textIn h s file, verdict h config s file⟩

/-- What is told of the first emission of a file. -/
def firstTold : List WatchEvent :=
  (verdict h config s file).map .ofDiagnostic ++
    [.emitted file.text ((artifactsIn h config s file).map (·.path.text)) false]

end Told

/-- Where a session stands in the first emissions of its files: it has written some artifacts of
sources to the store it began with, and knows of its files what there was to know at the start. -/
structure Underway (h : Handle) (config : HostConfig) (s : Store) (files : List Path)
    (made : List Artifact) (t : Session (Traced Store) LineChecker.Knowledge) : Prop where
  versions : ∀ f ∈ files, t.versions.version? f = some 0
  known : ∀ f ∈ files, ∀ a, t.knowledge.analyses.find? f = some a →
    a = firstAnalysis h config s f ∧ h.read f s = .ok (textIn h s f)
  store : t.world.store.inner = s.lay h made
  sources : OfUnits h config.options s made
  written : ∀ a ∈ made, .write a.path true ∈ t.world.store.calls
  config : t.config = config

/-- What the first emissions of some files come to, when some artifacts are written already. -/
structure FirstEmissions (h : Handle) (config : HostConfig) (s : Store) (made : List Artifact)
    (files : List Path) (t u : Session (Traced Store) LineChecker.Knowledge) : Prop where
  passes : ∀ f ∈ files, Passes h config s f
  writable : Writable h (files.flatMap (artifactsIn h config s)) (s.lay h made)
  store : u.world.store.inner = s.lay h (made ++ files.flatMap (artifactsIn h config s))
  events : u.events = t.events ++ files.flatMap (firstTold h config s)

section Run

variable {h : Handle} {p : Platform (Traced Store) LineChecker.Knowledge}
  (hstorage : p.storage = Traced.storage h.storage) (hfe : p.frontEnd = LineChecker.frontEnd)
  {config : HostConfig} {s : Store} {files : List Path} {made : List Artifact}
  {t : Session (Traced Store) LineChecker.Knowledge}

theorem Underway.alike (hu : Underway h config s files made t) {calls : List Call}
    (hcalls : t.world.store.calls ⊆ calls) (hfree : NotAsked h calls) {call : Call}
    (hcall : call ∈ calls) (hprobe : call.IsProbe) :
    call.Alike h.storage s t.world.store.inner := by
  rw [hu.store]
  exact alike_of_made hu.sources (fun a ha => hcalls (hu.written a ha)) hfree hcall hprobe

include hstorage hfe

theorem studying_eq (t : Session (Traced Store) LineChecker.Knowledge) (file : Path)
    (text : String) : t.studying p analyst file text = checking h t.config file text := by
  obtain ⟨storage, frontEnd, currentDir, canObserve⟩ := p
  subst hstorage hfe
  rfl

theorem calls_analyzes {file : Path} {t' : Session (Traced Store) LineChecker.Knowledge}
    {found : Option (Analysis (List Diagnostic))} (ha : Analyzes p analyst file t found t') :
    t.world.store.calls ⊆ t'.world.store.calls := by
  obtain ⟨looks, learned?, hagain⟩ :=
    exists_analyzes (LineChecker.reads_of hstorage hfe) ha
  have hlearned := (hagain ⟨rfl, rfl, rfl, rfl⟩ (fun call _ => .refl _ _ call) ha).2
  rw [hlearned.store]
  exact List.subset_append_left _ _

/-- A file that is studied on the way has the text and the verdict that it had at the start. -/
theorem Underway.studied (hdistinct : ∀ f ∈ files, ∀ g ∈ files, f.same g = true → f = g)
    (hu : Underway h config s files made t) {file : Path} (hfile : file ∈ files) {text : String}
    (hsome : (answer (p.storage.read file) t.world.store).toOption = some text)
    (hfree : NotAsked h (t.learned p analyst file 0 text).world.store.calls) :
    Underway h config s files made (t.learned p analyst file 0 text) ∧
      t.newAnalysis p analyst file 0 text = firstAnalysis h config s file ∧
      h.read file s = .ok (textIn h s file) := by
  have hread := world_textRead (LineChecker.reads_of hstorage hfe) file t
  obtain ⟨asked, hstore, hfinds⟩ := exists_checking h config s file text (t.textRead p file).world
  have hstudy : t.studying p analyst file text = checking h config file text := by
    rw [studying_eq hstorage hfe, hu.config]
  rw [hread, ← hstudy] at hstore
  have hcalls : (t.learned p analyst file 0 text).world.store =
      ⟨t.world.store.inner, t.world.store.calls ++ [.read file] ++ asked⟩ := hstore
  rw [hcalls, List.append_assoc] at hfree
  have halike : ∀ call ∈ [.read file] ++ asked, call.IsProbe →
      call.Alike h.storage s t.world.store.inner := fun call hcall =>
    hu.alike (List.subset_append_left _ _) hfree (List.mem_append_right _ hcall)
  -- the text first, since the verdict is that of the text that was read
  have htext : h.read file s = .ok text := by
    have hsame : h.read file t.world.store.inner = h.read file s :=
      halike (.read file) (by simp) trivial
    have hopen : (h.read file t.world.store.inner).toOption = some text := by
      rw [hstorage] at hsome
      exact hsome
    rw [← hsame]
    cases hresult : h.read file t.world.store.inner with
    | error e => rw [hresult] at hopen; cases hopen
    | ok found => rw [hresult] at hopen; cases hopen; rfl
  have hverdict : answer (t.studying p analyst file text) (t.textRead p file).world =
      verdict h config s file := by
    rw [hstudy, hfinds, verdict, textIn_eq htext]
    intro call hcall
    rw [hread]
    exact halike call (List.mem_append_right _ hcall)
  have hanalysis : t.newAnalysis p analyst file 0 text = firstAnalysis h config s file := by
    rw [newAnalysis, hverdict, firstAnalysis, textIn_eq htext]
  refine ⟨⟨hu.versions, fun f hf a ha => ?_, ?_, hu.sources, fun a ha => ?_, hu.config⟩,
    hanalysis, ?_⟩
  · have hfind : (t.knowledge.analyses.set file (t.newAnalysis p analyst file 0 text)).find? f =
      some a := ha
    rw [Table.find?_set] at hfind
    split at hfind
    · next hsame =>
      rw [← Option.some.inj hfind, ← hdistinct file hfile f hf hsame]
      exact ⟨hanalysis, by rw [textIn_eq htext, htext]⟩
    · exact hu.known f hf a hfind
  · rw [hcalls]
    exact hu.store
  · rw [hcalls, List.append_assoc]
    exact List.mem_append_left _ (hu.written a ha)
  · rw [textIn_eq htext, htext]

/-- A file that is analysed on the way is found as it was at the start. -/
theorem Underway.analyzes (hdistinct : ∀ f ∈ files, ∀ g ∈ files, f.same g = true → f = g)
    (hu : Underway h config s files made t) {file : Path} (hfile : file ∈ files)
    {t' : Session (Traced Store) LineChecker.Knowledge}
    {found : Option (Analysis (List Diagnostic))} (ha : Analyzes p analyst file t found t')
    (hfree : NotAsked h t'.world.store.calls) :
    Underway h config s files made t' ∧ (found = none ∨
      found = some (firstAnalysis h config s file) ∧ h.read file s = .ok (textIn h s file)) := by
  have hgrown : t.world.store.calls ⊆ t'.world.store.calls := calls_analyzes hstorage hfe ha
  cases ha with
  | untracked hv => cases hv.symm.trans (hu.versions file hfile)
  | known hv hknown =>
      obtain ⟨hfind, -⟩ := Option.filter_eq_some_iff.1 hknown
      obtain ⟨rfl, hread⟩ := hu.known file hfile _ hfind
      exact ⟨hu, .inr ⟨rfl, hread⟩⟩
  | unread hv hnew hnone =>
      refine ⟨⟨hu.versions, hu.known, ?_, hu.sources, fun a ha => hgrown (hu.written a ha),
        hu.config⟩, .inl rfl⟩
      rw [world_textRead (LineChecker.reads_of hstorage hfe) file t]
      exact hu.store
  | @studied version text hv hnew hsome =>
      obtain rfl : version = 0 := Option.some.inj (hv.symm.trans (hu.versions file hfile))
      obtain ⟨hlearned, hanalysis, hread⟩ :=
        hu.studied hstorage hfe hdistinct hfile hsome hfree
      exact ⟨hlearned, .inr ⟨by rw [hanalysis], hread⟩⟩

/-- The two questions of an emission find what was there at the start. -/
theorem Underway.asked (hdistinct : ∀ f ∈ files, ∀ g ∈ files, f.same g = true → f = g)
    (hu : Underway h config s files made t) {file : Path} (hfile : file ∈ files)
    (hfree : NotAsked h (Session.asked p file t).world.store.calls) :
    Underway h config s files made (Session.asked p file t) ∧
      (t.analysis? p analyst file = none ∨
        t.analysis? p analyst file = some (firstAnalysis h config s file) ∧
          h.read file s = .ok (textIn h s file)) := by
  rw [asked_eq (LineChecker.reads_of hstorage hfe).serves] at hfree ⊢
  have hsecond := Session.analyzes p analyst file (t.analyzed p analyst file)
  obtain ⟨hfirst, hfound⟩ := hu.analyzes hstorage hfe hdistinct hfile (t.analyzes p analyst file)
    (hfree.of_subset (calls_analyzes hstorage hfe hsecond))
  exact ⟨(hfirst.analyzes hstorage hfe hdistinct hfile hsecond hfree).1, hfound⟩

/-! ## Emissions -/

omit hfe in
theorem store_emitLogged (file : Path) (t : Session (Traced Store) LineChecker.Knowledge) :
    (after (emitLogged p file) t).world.store =
      after (writeEach (Traced.storage h.storage) (answer (askOutput p file) t).delivered)
        (asked p file t).world.store := by
  obtain ⟨journal, hemit⟩ := exists_emitLogged p file t
  rw [hemit, emission, writing_eq, hstorage]

omit hfe in
theorem calls_emitLogged (file : Path) (t : Session (Traced Store) LineChecker.Knowledge) :
    (asked p file t).world.store.calls ⊆ (after (emitLogged p file) t).world.store.calls := by
  obtain ⟨made, tried, hwrites⟩ := exists_writes h (answer (askOutput p file) t).delivered
    (asked p file t).world.store
  rw [store_emitLogged hstorage, hwrites.after_eq]
  exact List.subset_append_left _ _

omit hstorage hfe in
theorem Smooth.not_skipped {file : Path} (hsmooth : Smooth h (after (emitLogged p file) t)) :
    answer (askOutput p file) t ≠ .skipped := by
  intro hskipped
  obtain ⟨journal, hemit⟩ := exists_emitLogged p file t
  have hwritten : written p file t = .ok [] := by
    rw [written, hskipped]
    rfl
  have hclosing : closing p file t (written p file t) = .emitted file.text [] true := by
    rw [hwritten, closing, hskipped]
    rfl
  have hevent : .emitted file.text [] true ∈ (after (emitLogged p file) t).events := by
    rw [hemit, emission, hclosing]
    simp
  cases hsmooth.skipped _ hevent

/-- An emission that nothing comes in the way of is asked for what there was to know at the
start. -/
theorem Underway.answers (hdistinct : ∀ f ∈ files, ∀ g ∈ files, f.same g = true → f = g)
    (hu : Underway h config s files made t) {file : Path} (hfile : file ∈ files)
    (hsmooth : Smooth h (after (emitLogged p file) t)) :
    Underway h config s files made (Session.asked p file t) ∧ Passes h config s file ∧
      answer (askOutput p file) t = ⟨artifactsIn h config s file, false⟩ ∧
      said p file t = verdict h config s file := by
  have hs := (LineChecker.reads_of hstorage hfe).serves
  have hnot := hsmooth.not_skipped
  obtain ⟨hasked, hnone | ⟨hfound, hread⟩⟩ := hu.asked hstorage hfe hdistinct hfile
    (hsmooth.asked.of_subset (calls_emitLogged hstorage file t))
  · rw [answer_askOutput hs, hnone] at hnot
    exact absurd rfl hnot
  have houtput : answer (askOutput p file) t =
      if LineChecker.refuses config.options (textIn h s file) (verdict h config s file)
      then .skipped else ⟨artifactsIn h config s file, false⟩ := by
    rw [answer_askOutput hs, hfound, hu.config]
    rfl
  have hsaid : said p file t = verdict h config s file := by
    rw [said_eq hs (rereads hstorage), hfound]
    rfl
  rw [houtput] at hnot ⊢
  split at hnot
  · exact absurd rfl hnot
  · next hpassed =>
    rw [if_neg hpassed]
    exact ⟨hasked, ⟨hread, Bool.eq_false_of_not_eq_true hpassed⟩, rfl, hsaid⟩

/-- An emission that nothing comes in the way of writes the outputs that the file had at the start,
and tells what there was to say of it. -/
theorem Underway.emission_eq (hdistinct : ∀ f ∈ files, ∀ g ∈ files, f.same g = true → f = g)
    (hu : Underway h config s files made t) {file : Path} (hfile : file ∈ files)
    (hsmooth : Smooth h (after (emitLogged p file) t)) :
    Writable h (artifactsIn h config s file) (s.lay h made) ∧ ∃ journal,
      after (emitLogged p file) t =
        { Session.asked p file t with
          world := ⟨⟨s.lay h (made ++ artifactsIn h config s file),
            (Session.asked p file t).world.store.calls ++
              (artifactsIn h config s file).map fun a => .write a.path true⟩, journal⟩
          events := t.events ++ firstTold h config s file } := by
  obtain ⟨hasked, hpasses, houtput, hsaid⟩ := hu.answers hstorage hfe hdistinct hfile hsmooth
  obtain ⟨journal, hemit⟩ := exists_emitLogged p file t
  have hwriting : writing p (answer (askOutput p file) t) =
      writeEach (Traced.storage h.storage) (artifactsIn h config s file) := by
    rw [houtput, writing_eq, hstorage]
    rfl
  have hwritable : Writable h (artifactsIn h config s file)
      (Session.asked p file t).world.store.inner := by
    rcases writable_or_refused (h := h) (artifactsIn h config s file)
      (Session.asked p file t).world.store with hw | ⟨call, hcall, hrefused⟩
    · exact hw
    · rw [← hwriting] at hcall
      rw [hsmooth.refused call (by rw [hemit]; exact hcall)] at hrefused
      cases hrefused
  obtain ⟨hanswer, hafter⟩ := hwritable.writeEach_eq
  have hclosing : closing p file t (Session.written p file t) =
      .emitted file.text ((artifactsIn h config s file).map (·.path.text)) false := by
    rw [Session.written, hwriting, hanswer, closing, houtput, List.map_map]
    rfl
  rw [hasked.store] at hwritable hafter
  refine ⟨hwritable, journal, ?_⟩
  rw [hemit, emission, hwriting, hafter, hsaid, hclosing, Store.lay_append]
  rfl

/-- One step of the loop. -/
theorem Underway.emitLogged (hdistinct : ∀ f ∈ files, ∀ g ∈ files, f.same g = true → f = g)
    (hu : Underway h config s files made t) {file : Path} (hfile : file ∈ files)
    (hsmooth : Smooth h (after (emitLogged p file) t)) :
    FirstEmissions h config s made [file] t (after (Session.emitLogged p file) t) ∧
      Underway h config s files (made ++ artifactsIn h config s file)
        (after (Session.emitLogged p file) t) := by
  obtain ⟨hasked, hpasses, -, -⟩ := hu.answers hstorage hfe hdistinct hfile hsmooth
  obtain ⟨hwritable, journal, hemit⟩ := hu.emission_eq hstorage hfe hdistinct hfile hsmooth
  have hheld : s.Holds (h.place file) := by
    rw [h.place_eq]
    exact Handle.exists_read_iff.1 ⟨_, hpasses.read⟩
  have hsources : OfUnits h config.options s (artifactsIn h config s file) := fun a ha =>
    ⟨⟨file, textIn h s file, config.options.target⟩, hheld, a, ha, rfl⟩
  rw [hemit]
  constructor
  · refine ⟨by simpa using hpasses, ?_, ?_, ?_⟩
    · rw [List.flatMap_singleton]
      exact hwritable
    · rw [List.flatMap_singleton]
    · rw [List.flatMap_singleton]
  · refine ⟨hasked.versions, hasked.known, rfl, fun a ha => ?_, fun a ha => ?_, hasked.config⟩
    · exact (List.mem_append.1 ha).elim (hasked.sources a) (hsources a)
    · rcases List.mem_append.1 ha with ha | ha
      · exact List.mem_append_left _ (hasked.written a ha)
      · exact List.mem_append_right _ (List.mem_map.2 ⟨a, ha, rfl⟩)

omit hstorage hfe in
theorem FirstEmissions.cons {file : Path} {rest : List Path}
    {u v : Session (Traced Store) LineChecker.Knowledge}
    (hone : FirstEmissions h config s made [file] t u)
    (hrest : FirstEmissions h config s (made ++ artifactsIn h config s file) rest u v) :
    FirstEmissions h config s made (file :: rest) t v where
  passes := List.forall_mem_cons.2 ⟨hone.passes file (by simp), hrest.passes⟩
  writable := by
    have hone := hone.writable
    have hrest := hrest.writable
    rw [List.flatMap_singleton] at hone
    rw [Store.lay_append] at hrest
    rw [List.flatMap_cons, writable_append]
    exact ⟨hone, hrest⟩
  store := by rw [hrest.store, List.flatMap_cons, List.append_assoc]
  events := by
    have hone := hone.events
    rw [List.flatMap_singleton] at hone
    rw [hrest.events, hone, List.flatMap_cons, List.append_assoc]

/-- Emissions only add to the events and to the calls. -/
theorem grows_emitAll : ∀ (files : List Path) (t : Session (Traced Store) LineChecker.Knowledge),
    t.events ⊆ (after (emitAll p files) t).events ∧
      t.world.store.calls ⊆ (after (emitAll p files) t).world.store.calls
  | [], t => ⟨List.Subset.refl _, List.Subset.refl _⟩
  | file :: rest, t => by
      obtain ⟨d, -, hdoes⟩ := exists_emission (LineChecker.reads_of hstorage hfe) file t
      obtain ⟨hevents, hcalls⟩ := grows_emitAll rest (after (emitLogged p file) t)
      rw [hdoes.done.events] at hevents
      rw [hdoes.done.store] at hcalls
      rw [after_emitAll_cons]
      exact ⟨List.Subset.trans (List.subset_append_left _ _) hevents,
        List.Subset.trans (List.subset_append_left _ _) hcalls⟩

theorem Underway.emitAll (hdistinct : ∀ f ∈ files, ∀ g ∈ files, f.same g = true → f = g) :
    ∀ {rest : List Path} {made : List Artifact} {t : Session (Traced Store) LineChecker.Knowledge},
      Underway h config s files made t → rest ⊆ files → Smooth h (after (emitAll p rest) t) →
        FirstEmissions h config s made rest t (after (Session.emitAll p rest) t)
  | [], made, t, hu, _, _ => by
      refine ⟨by simp, trivial, ?_, ?_⟩
      · rw [List.flatMap_nil, List.append_nil]
        exact hu.store
      · exact (List.append_nil _).symm
  | file :: rest, made, t, hu, hsub, hsmooth => by
      rw [after_emitAll_cons] at hsmooth ⊢
      obtain ⟨hevents, hcalls⟩ :=
        grows_emitAll hstorage hfe rest (after (Session.emitLogged p file) t)
      obtain ⟨hone, hnext⟩ := hu.emitLogged hstorage hfe hdistinct (hsub List.mem_cons_self)
        (hsmooth.of_subset hevents hcalls)
      exact hone.cons (hnext.emitAll hdistinct (List.subset_of_cons_subset hsub) hsmooth)

/-! ## Starts -/

omit hstorage hfe in
theorem contains_trackAll {σ : Type} (storage : Storage σ) {f : Path} :
    ∀ (files : List Path) (table : VersionTable) (store : σ),
      f ∈ files ∨ table.entries.contains f = true →
        (answer (trackAll storage table files) store).entries.contains f = true
  | [], _, _, hf => hf.resolve_left (by simp)
  | path :: rest, table, store, hf => by
      refine contains_trackAll storage rest _ _ ?_
      by_cases hrest : f ∈ rest
      · exact .inl hrest
      · refine .inr ?_
        rw [Table.contains, VersionTable.track, Table.find?_setNew]
        split
        · rfl
        · next hne =>
          refine hf.resolve_left fun hmem => ?_
          rcases List.mem_cons.1 hmem with rfl | hmem
          · exact hne (same_self f)
          · exact hrest hmem

omit hstorage hfe in
/-- A file that is newly tracked has version zero. -/
theorem version_zero_trackAll {σ : Type} (storage : Storage σ) {files : List Path} (store : σ) :
    ∀ f ∈ files, (answer (trackAll storage {} files) store).version? f = some 0 := by
  intro f hf
  have hcontains := contains_trackAll storage files {} store (.inl hf)
  obtain ⟨entry, hentry⟩ := Option.isSome_iff_exists.1 hcontains
  have hversion : (answer (trackAll storage {} files) store).version? f = some entry.version := by
    rw [VersionTable.version?, hentry]
    rfl
  have hzero := version_trackAll storage files {} store (fun _ _ hv => by cases hv) f _ hversion
  rw [hversion, hzero]

omit hfe in
/-- The files of a session are listed, so no two of them differ in spelling alone. -/
theorem eq_of_same_collected {options : WatchOptions} {world : World (Traced Store)} :
    ∀ f ∈ (collected p config options world).1, ∀ g ∈ (collected p config options world).1,
      f.same g = true → f = g := by
  have hplain : ∀ f ∈ (collected p config options world).1, ofComponents f.components = f := by
    intro f hf
    have hlisted : ∀ dir (l : Traced Store) entries, answer (p.storage.list dir) l = .ok entries →
        ∀ entry ∈ entries, ofComponents entry.components = entry := by
      intro dir l entries hl entry he
      rw [hstorage] at hl
      exact Handle.ListsEntry.ofComponents_eq ⟨entries, hl, he⟩
    exact Sources.of_mem_collect hlisted hf
  intro f hf g hg hsame
  rw [← hplain f hf, ← hplain g hg, same_iff.1 hsame]

theorem underway_announced {options : WatchOptions} {versions : VersionTable}
    {world : World (Traced Store)} (hversions : ∀ f ∈ files, versions.version? f = some 0)
    (hworld : world.store.inner = s) :
    Underway h config s files [] (announced files (fresh p config options versions world)) where
  versions := hversions
  known f _ a ha := by
    have hempty : p.frontEnd.initialKnowledge = {} :=
      (LineChecker.reads_of hstorage hfe).serves.initialKnowledge
    have ha : p.frontEnd.initialKnowledge.analyses.find? f = some a := ha
    rw [hempty] at ha
    cases ha
  store := hworld
  sources := fun a ha => by cases ha
  written := fun a ha => by cases ha
  config := rfl

/-- A start that nothing comes in the way of comes to what the store has to say of the files
found. -/
theorem firstEmissions_start {options : WatchOptions} {world : World (Traced Store)}
    (hworld : world.store.inner = s) {session : Session (Traced Store) LineChecker.Knowledge}
    (hstart : (start p config options world).1 = .ok session) (hsmooth : Smooth h session) :
    let files := (collected p config options world).1
    (∀ f ∈ files, Passes h config s f) ∧
      Writable h (files.flatMap (artifactsIn h config s)) s ∧
      session.world.store.inner = s.lay h (files.flatMap (artifactsIn h config s)) ∧
      session.events = .watchStarted config.projectRoot.text files.length ::
        files.flatMap (firstTold h config s) := by
  intro files
  obtain ⟨-, journal, rfl⟩ := start_collected hstart
  have hfirst : Underway h config s files [] (announced files (fresh p config options
      (answer (trackAll p.storage {} files) (collected p config options world).2.store)
      ⟨after (trackAll p.storage {} files) (collected p config options world).2.store, journal⟩)) :=
    underway_announced hstorage hfe (version_zero_trackAll p.storage _)
      ((inner_tracked hstorage files).trans hworld)
  rw [after_begin, after_armAll] at hsmooth ⊢
  have hemissions := hfirst.emitAll hstorage hfe (eq_of_same_collected hstorage)
    (List.Subset.refl _) ⟨hsmooth.skipped, hsmooth.refused, hsmooth.asked⟩
  exact ⟨hemissions.passes, hemissions.writable, hemissions.store, hemissions.events⟩

end Run

end Session

end CompileWatch
