import CompileWatch.Proofs.FrontEnd.Artifacts
import CompileWatch.Proofs.Sources.Outputs
import CompileWatch.Proofs.Watch.Stream

/-!
# Outputs that become sources

A session writes its outputs into a folder in which it looks for no sources, so
that a session started afterwards should find the project as the first one did. It
does outside the folder, and it does altogether if the folder is spelled as the
store keeps it (`second_session_tracks`): what a start writes lies below the folder
(`grown_start`), and the sources elsewhere do not change with it.

The condition on the spelling is needed. A store drops leading dots and may fold
letter case, so it can keep a folder under a key that the search does not recognise
as the folder it was told to leave out (`declarations_feed_back`).
-/

namespace CompileWatch

open CompileWatch.Path Memory

/-- Whether all artifacts that a front end gives under some options lie below a folder in memory. -/
def FrontEnd.EmitsInto {κ : Type} (fe : FrontEnd Store κ) (h : Handle) (options : CompilerOptions)
    (folder : Path) : Prop :=
  ∀ (host : AnalysisHost Store) path k w, host.options = options →
    ∀ a ∈ (answer ((fe.emitOutput host path).run k) w).1.artifacts,
      Below (h.place folder) (h.place a.path)

namespace Session

variable {κ : Type} {p : Platform Store κ} {h : Handle} {config : HostConfig}
  {options : WatchOptions} {world : World Store} {session : Session Store κ}

theorem looks_storage {P : Store → Prop} (hp : p.storage = h.storage) : p.storage.Looks P :=
  hp ▸ h.looks_storage P

/-- Whether a session has kept its configuration, and its store has grown below a place. -/
def HasGrown (h : Handle) (folder : List Component) (config : HostConfig) (before : Store)
    (s : Session Store κ) : Prop :=
  s.config = config ∧ Grown h folder before s.world.store

theorem emissionRule_hasGrown (hp : p.storage = h.storage) (hfe : p.frontEnd.OnlyLooks)
    {folder : Path} (hinto : p.frontEnd.EmitsInto h config.options folder) (before : Store)
    (path : Path) :
    EmissionRule p path (HasGrown h (h.place folder) config before)
      (HasGrown h (h.place folder) config before)
      fun a => Below (h.place folder) (h.place a.path) where
  output s hs := ⟨hs.1, keeps_askOutput (looks_storage hp) hfe path s hs.2⟩
  artifacts s hs a ha := by
    rw [askOutput, answer_askService] at ha
    exact hinto (s.serviceHost p) path s.knowledge s.world (congrArg HostConfig.options hs.1) a ha
  diagnostics s hs := ⟨hs.1, keeps_askDiagnostics (looks_storage hp) hfe path s hs.2⟩
  write a ha s hs := by
    rw [hp]
    exact ⟨hs.1, hs.2.write ha a.content⟩
  reports _ _ _ hs := hs

/-- A start writes into the folder of its outputs only. -/
theorem grown_start (hp : p.storage = h.storage) (hfe : p.frontEnd.OnlyLooks)
    (hworld : h.Keyed world.store) {folder : Path}
    (hinto : p.frontEnd.EmitsInto h config.options folder)
    (hstart : (start p config options world).1 = .ok session) :
    Grown h (h.place folder) world.store session.world.store := by
  obtain ⟨_, journal, rfl⟩ := start_collected hstart
  have hcollected : (collected p config options world).2.store = world.store :=
    of_collected (P := (· = world.store)) (looks_storage hp) rfl
  have hmodified : ∀ path, Keeps (· = world.store) (p.storage.modified path) := by
    rw [hp]
    exact fun path s hs => hs
  have hbefore : HasGrown h (h.place folder) config world.store (fresh p config options
      (answer (trackAll p.storage {} (collected p config options world).1)
        (collected p config options world).2.store)
      ⟨after (trackAll p.storage {} (collected p config options world).1)
        (collected p config options world).2.store, journal⟩) := by
    refine ⟨rfl, ?_⟩
    show Grown h _ world.store (after (trackAll p.storage {} _) _)
    rw [keeps_trackAll hmodified _ _ _ hcollected]
    exact .refl hworld
  refine (keeps_begin (Q := HasGrown h (h.place folder) config world.store) (fun _ _ _ _ hs => hs)
    (fun _ _ _ hs => hs) (fun path _ s hs => ?_) _ hbefore).2
  exact (emissionRule_hasGrown hp hfe hinto world.store path).emitLogged hs

theorem mem_files_start_iff (hp : p.storage = h.storage) (hworld : h.Keyed world.store)
    (hstart : (start p config options world).1 = .ok session) {file : Path} :
    file ∈ session.versions.files ↔ Sources.IsSource h.storage
      ⟨options.extension, config.options.outDir.map config.projectRoot.join⟩ world.store
      config.projectRoot file := by
  have hlists : p.storage.Lists h.Keyed h.place := hp ▸ h.storage_lists
  have hroot : (atRoot p config world).store = world.store :=
    (looks_storage (P := (· = world.store)) hp).isDir _ _ rfl
  have hbounded : p.storage.Bounded (atRoot p config world).store (h.weight world.store) := by
    rw [hroot, hp]
    exact Handle.storage_bounded hworld.plain
  rw [files_start_of_lists hstart hlists hworld]
  show file ∈ answer (Sources.collect p.storage _ _ _) (atRoot p config world) ↔ _
  rw [Sources.mem_collect_iff (looks_storage hp) hbounded, hroot, hp]

theorem exists_second (hp : p.storage = h.storage) {folder : List Component} {second : World Store}
    (hgrown : Grown h folder world.store second.store)
    (hstart : (start p config options world).1 = .ok session) :
    ∃ session, (start p config options second).1 = .ok session := by
  have hdir := (start_collected hstart).1
  have hstill : answer (p.storage.isDir config.projectRoot) second.store = true := by
    rw [hp] at hdir ⊢
    obtain ⟨file, hheld, hbelow⟩ := Handle.isDir_iff.1 hdir
    exact Handle.isDir_iff.2 ⟨file, hgrown.kept file hheld, hbelow⟩
  rw [start_eq]
  exact ⟨_, if_pos hstill⟩

/-- A second session over what the first has written. Outside the folder of the outputs it tracks
what the first one tracks, and it tracks nothing else if the folder is spelled as it is kept. -/
theorem second_session_tracks (hp : p.storage = h.storage) (hfe : p.frontEnd.OnlyLooks)
    (hworld : h.Keyed world.store) {outDir : Path} (hout : config.options.outDir = some outDir)
    (hinto : p.frontEnd.EmitsInto h config.options (config.projectRoot.join outDir))
    (hroot : ¬ h.place (config.projectRoot.join outDir) <+: h.place config.projectRoot)
    (hfree : ∀ file, world.store.Holds file →
      ¬ file <+: h.place (config.projectRoot.join outDir))
    (hstart : (start p config options world).1 = .ok session) :
    let folder := config.projectRoot.join outDir
    ∃ second, (start p config options session.world).1 = .ok second ∧
      (∀ file, ¬ h.place folder <+: file.components →
        (file ∈ second.versions.files ↔ file ∈ session.versions.files)) ∧
      ((h.key folder).same folder = true → second.versions.files = session.versions.files) := by
  intro folder
  have hgrown := grown_start hp hfe hworld hinto hstart
  obtain ⟨second, hsecond⟩ := exists_second hp hgrown hstart
  have houtside : ∀ file, ¬ h.place folder <+: file.components →
      (file ∈ second.versions.files ↔ file ∈ session.versions.files) := by
    intro file hfile
    rw [mem_files_start_iff hp hgrown.keyed hsecond, mem_files_start_iff hp hworld hstart]
    exact hgrown.isSource_iff hfree hworld hfile
  refine ⟨second, hsecond, houtside, fun hspelled => ?_⟩
  have hquery : config.options.outDir.map config.projectRoot.join = some folder := by
    rw [hout]
    rfl
  have hnone : ¬ session.world.store.Holds (h.place folder) := by
    intro hheld
    rcases hgrown.added _ hheld with hheld | hnew
    · exact hfree _ hheld (List.prefix_refl _)
    · exact (below_iff.1 hnew).2 rfl
  refine Table.eq_of_mem_iff (Table.pairwise_keys _) (Table.pairwise_keys _) fun file => ?_
  by_cases hfile : h.place folder <+: file.components
  · refine iff_of_false (fun hmem => ?_) (fun hmem => ?_)
    · exact not_source_in_folder hgrown.keyed hquery hspelled hroot hnone
        ((mem_files_start_iff hp hgrown.keyed hsecond).1 hmem) hfile
    · exact not_source_in_folder hworld hquery hspelled hroot
        (fun hheld => hfree _ hheld (List.prefix_refl _))
        ((mem_files_start_iff hp hworld hstart).1 hmem) hfile
  · exact houtside file hfile

end Session

/-! ## Outputs of the line checker -/

namespace LineChecker

theorem artifact_path {options : CompilerOptions} {outDir file : Path}
    (hout : options.outDir = some outDir) {text : String} {a : Artifact}
    (ha : a ∈ artifacts options file text) :
    ∃ name, (Component.name name).isStep = true ∧ a.path = outDir.join ⟨name⟩ := by
  obtain ⟨name, hname, hpath⟩ := path_of_mem_artifacts ha
  rw [outputDir, hout] at hpath
  exact ⟨name, hname, hpath⟩

theorem emitsInto {options : CompilerOptions} {outDir : Path} (hout : options.outDir = some outDir) :
    FrontEnd.EmitsInto LineChecker.frontEnd Memory.exact options outDir := by
  intro host file k w hoptions a ha
  change a ∈ (answer ((analyst.emitOutput host file).run k) w).1.artifacts at ha
  rw [Analyst.run_emitOutput] at ha
  change a ∈ (analyst.outputOf host.options file
    (answer ((analyst.analyze host file).run k) w).1).artifacts at ha
  generalize (answer ((analyst.analyze host file).run k) w).1 = found at ha
  rw [hoptions] at ha
  cases found with
  | none => cases ha
  | some analysis =>
      change a ∈ (if refuses options analysis.text analysis.findings then EmitOutput.skipped
        else ⟨artifacts options file analysis.text, false⟩).artifacts at ha
      split at ha
      · cases ha
      · obtain ⟨name, hname, hpath⟩ := artifact_path hout ha
        refine ⟨.name name, [], ?_⟩
        show (plain a.path).components = (plain outDir).components ++ [.name name]
        rw [hpath, components_plain, components_plain, components_join_name outDir hname,
          List.filter_append]
        rfl

end LineChecker
namespace Session

/-- A project with declarations among its outputs. -/
def declaring (root outDir : Path) : HostConfig :=
  ⟨{ outDir := some outDir, declaration := true }, root, {}⟩

def lone (source : Path) : World Store := ⟨exact.withFiles [(source, "export \x7b\x7d;")], []⟩

theorem second_session_tracks_declaring :
    let p := LineChecker.platform exact.storage
    let config := declaring ⟨"/p"⟩ ⟨"/p/dist"⟩
    ∃ first second, (start p config {} (lone ⟨"/p/a.ts"⟩)).1 = .ok first ∧
      (start p config {} first.world).1 = .ok second ∧
      first.versions.files = [⟨"/p/a.ts"⟩] ∧ second.versions.files = [⟨"/p/a.ts"⟩] := by
  intro p config
  obtain ⟨first, h, hfiles⟩ := exists_start
    (show (start p config {} (lone ⟨"/p/a.ts"⟩)).1.toOption.any
      (·.versions.files == [⟨"/p/a.ts"⟩]) = true by decide +kernel)
  have hjoin : config.projectRoot.join ⟨"/p/dist"⟩ = ⟨"/p/dist"⟩ := by decide +kernel
  have hinto : p.frontEnd.EmitsInto exact config.options (config.projectRoot.join ⟨"/p/dist"⟩) :=
    hjoin.symm ▸ LineChecker.emitsInto rfl
  have hfree : ∀ file, (lone ⟨"/p/a.ts"⟩).store.Holds file →
      ¬ file <+: exact.place (config.projectRoot.join ⟨"/p/dist"⟩) := by
    have hkeys : (lone ⟨"/p/a.ts"⟩).store.files.keys = [⟨"/p/a.ts"⟩] := by decide +kernel
    rintro _ ⟨k, hk, rfl⟩
    rw [hkeys] at hk
    obtain rfl := List.mem_singleton.1 hk
    decide +kernel
  have hkeyed : exact.Keyed (lone ⟨"/p/a.ts"⟩).store := exact.keyed_withFiles _
  obtain ⟨second, hsecond, _, hsame⟩ := second_session_tracks (p := p) (h := exact) rfl
    LineChecker.frontEnd_onlyLooks hkeyed rfl hinto (by decide +kernel) hfree h
  have hfiles := beq_iff_eq.1 hfiles
  exact ⟨first, second, h, hsecond, hfiles, (hsame (by decide +kernel)).trans hfiles⟩

/-- A folder below a root that is spelled as a dot is not recognised, and the declarations of the
first session are sources of the second. -/
theorem declarations_feed_back :
    let p := LineChecker.platform exact.storage
    let config := declaring ⟨"."⟩ ⟨"./dist"⟩
    ∃ first second, (start p config {} (lone ⟨"a.ts"⟩)).1 = .ok first ∧
      (start p config {} first.world).1 = .ok second ∧
      first.events =
        [.watchStarted "." 1, .emitted "a.ts" ["./dist/a.js", "./dist/a.d.ts"] false] ∧
      first.versions.files = [⟨"a.ts"⟩] ∧
      second.versions.files = [⟨"a.ts"⟩, ⟨"dist/a.d.ts"⟩] := by
  intro p config
  obtain ⟨first, h, hrun⟩ := exists_start
    (show (start p config {} (lone ⟨"a.ts"⟩)).1.toOption.any (fun first =>
      first.events ==
        [.watchStarted "." 1, .emitted "a.ts" ["./dist/a.js", "./dist/a.d.ts"] false] &&
      first.versions.files == [⟨"a.ts"⟩] &&
      (start p config {} first.world).1.toOption.any
        (·.versions.files == [⟨"a.ts"⟩, ⟨"dist/a.d.ts"⟩])) = true by decide +kernel)
  simp only [Bool.and_eq_true, beq_iff_eq] at hrun
  obtain ⟨⟨hevents, hfiles⟩, hagain⟩ := hrun
  obtain ⟨second, hsecond, htracked⟩ := exists_start hagain
  exact ⟨first, second, h, hsecond, hevents, hfiles, beq_iff_eq.1 htracked⟩

end Session

end CompileWatch
