import CompileWatch.Proofs.Watch.FirstEmissions

/-!
# A build and the first emissions of a session

A build reads all its sources, checks them all, and then writes. A session goes from
file to file. Both come to what the store has to say of each file: the build because
it has written nothing while it asks (`answers_plan`), the session because it asks
after nothing that it has written (`firstEmissions_start`).

The line ends of the host have to be those of the texts, since a session writes its
artifacts as they are, and a source may include nothing, since only a build looks at
what is included.
-/

namespace CompileWatch

open CompileWatch.Path Memory

namespace LineChecker

/-- Whether no line of a text includes a file. -/
def IncludesNothing (text : String) : Prop :=
  ∀ line ∈ Text.lines text, Text.afterStart? "@@include " line = none

instance (text : String) : Decidable (IncludesNothing text) :=
  inferInstanceAs (Decidable (∀ line ∈ _, _))

theorem readIncludes_eq {σ : Type} (host : ProgramHost σ) (target : ScriptTarget) :
    ∀ {lines : List String}, (∀ line ∈ lines, Text.afterStart? "@@include " line = none) →
      readIncludes host target lines = pure (.ok ())
  | [], _ => rfl
  | line :: rest, hnone => by
      unfold readIncludes
      rw [hnone line List.mem_cons_self]
      exact readIncludes_eq host target fun other hother =>
        hnone other (List.mem_cons_of_mem _ hother)

theorem replaceChar_self (text : String) : Text.replaceChar '\n' "\n" text = text := by
  unfold Text.replaceChar
  have hsingle : ∀ c : Char, (if c = '\n' then "\n".toList else [c]) = [c] := by
    intro c
    split
    · next heq => rw [heq]; rfl
    · rfl
  simp only [hsingle, List.flatMap_singleton', String.ofList_toList]

section Programs

variable {h : Handle} {config : HostConfig} {s : Store} {file : Path} {files : List Path}
  {host : ProjectHost (Traced Store) Knowledge} (hstorage : host.storage = Traced.storage h.storage)
  (hfe : host.frontEnd = frontEnd) (hconfig : host.config = config)

/-- A file of a store as a source of a program. -/
def unitIn (h : Handle) (config : HostConfig) (s : Store) (file : Path) : SourceUnit :=
  ⟨file, textIn h s file, config.options.target⟩

theorem programArtifacts_lf : programArtifacts config.options .lf (files.map (unitIn h config s)) =
    files.flatMap (artifactsIn h config s) := by
  have hsame : ∀ a : Artifact,
      { a with content := Text.replaceChar '\n' NewLine.lf.text a.content } = a := fun a =>
    congrArg (Artifact.mk a.path) (replaceChar_self a.content)
  rw [programArtifacts, List.flatMap_map]
  simp only [hsame, List.map_id']
  rfl

/-! ## Asking -/

include hstorage hfe

theorem answers_readSource (hpasses : Passes h config s file) :
    Answers s (host.readSource file config.options.target) (some (unitIn h config s file)) := by
  obtain ⟨hostConfig, env, storage, fe⟩ := host
  subst hstorage hfe
  have hcontains : Answers s (Exec.onStore ((Traced.storage h.storage).contains file)) true := by
    intro w hw
    refine ⟨?_, hw⟩
    show h.contains file w.store.inner = true
    rw [hw]
    exact Handle.contains_iff_read_or_isDir.2 (.inl ⟨_, hpasses.read⟩)
  have hread : Answers s (Exec.onStore ((Traced.storage h.storage).read file))
      (.ok (textIn h s file)) := by
    intro w hw
    refine ⟨?_, hw⟩
    show h.read file w.store.inner = _
    rw [hw]
    exact hpasses.read
  have hparse : Answers s
      ((⟨hostConfig, env, _, frontEnd⟩ : ProjectHost (Traced Store) Knowledge).parse file
        config.options.target) (.ok (some (unitIn h config s file))) :=
    hcontains.bind (hread.bind (.pure _))
  exact hparse.bind (.pure _)

theorem answers_readRoots : ∀ {files : List Path}, (∀ f ∈ files, Passes h config s f) →
    Answers s (readRoots host.view config.options.target files) (files.map (unitIn h config s), [])
  | [], _ => .pure _
  | file :: rest, hpasses => by
      have hfirst := answers_readSource hstorage hfe (hpasses file List.mem_cons_self)
      have hrest := answers_readRoots fun f hf => hpasses f (List.mem_cons_of_mem _ hf)
      exact hfirst.bind (hrest.bind (.pure _))

include hconfig

theorem check_eq (file : Path) (text : String) :
    check host.view.resolveImports file text = checking h config file text := by
  obtain ⟨hostConfig, env, storage, fe⟩ := host
  subst hstorage hfe hconfig
  rfl

theorem answers_checkUnits : ∀ {files : List Path},
    (∀ f ∈ files, IncludesNothing (textIn h s f)) →
      Answers s (checkUnits host.view config.options.target (files.map (unitIn h config s)))
        (.ok (files.map fun f => (unitIn h config s f, verdict h config s f)))
  | [], _ => .pure _
  | file :: rest, hnone => by
      have hrest := answers_checkUnits fun f hf => hnone f (List.mem_cons_of_mem _ hf)
      have hincludes : readIncludes host.view config.options.target
          (Text.lines (unitIn h config s file).text) = pure (.ok ()) :=
        readIncludes_eq _ _ (hnone file List.mem_cons_self)
      rw [List.map_cons, checkUnits, hincludes, pure_bind, check_eq hstorage hfe hconfig]
      exact answers_checking.bind (hrest.bind (.pure _))

theorem answers_plan (hpasses : ∀ f ∈ files, Passes h config s f)
    (hnone : ∀ f ∈ files, IncludesNothing (textIn h s f)) :
    Answers s (plan files config.options host.view) (.writing (files.flatMap (verdict h config s))
      (programArtifacts config.options host.env.newLine (files.map (unitIn h config s)))) := by
  refine (answers_readRoots hstorage hfe hpasses).bind ?_
  refine (answers_checkUnits hstorage hfe hconfig hnone).bind ?_
  have hpassed : (files.map fun f => (unitIn h config s f, verdict h config s f)).any
      (fun checked => refuses config.options checked.1.text checked.2) = false := by
    rw [List.any_map, List.any_eq_false]
    intro f hf
    show ¬ refuses config.options (textIn h s f) (verdict h config s f) = true
    rw [(hpasses f hf).passed]
    decide
  have hsaid :
      [] ++ (files.map fun f => (unitIn h config s f, verdict h config s f)).flatMap (·.2) =
      files.flatMap (verdict h config s) := by
    rw [List.nil_append, List.flatMap_map]
  dsimp only
  rw [hpassed, hsaid, if_neg Bool.false_ne_true]
  exact .pure _

/-! ## Writing -/

/-- A program whose sources pass over a store says what there is to say of them and writes their
artifacts. -/
theorem emitProgram_of_passes (hlf : host.env.newLine = .lf)
    (hpasses : ∀ f ∈ files, Passes h config s f)
    (hnone : ∀ f ∈ files, IncludesNothing (textIn h s f))
    (hwritable : Writable h (files.flatMap (artifactsIn h config s)) s)
    {w : World (Traced Store)} (hw : w.store.inner = s) :
    answer (emitProgram files config.options host.view) w =
        .ok { diagnostics := files.flatMap (verdict h config s),
              emitted := (files.flatMap (artifactsIn h config s)).map (·.path) } ∧
      (after (emitProgram files config.options host.view) w).store.inner =
        s.lay h (files.flatMap (artifactsIn h config s)) := by
  obtain ⟨hplan, hinner⟩ := answers_plan hstorage hfe hconfig hpasses hnone w hw
  rw [hlf, programArtifacts_lf] at hplan
  have hwritable : Writable h (files.flatMap (artifactsIn h config s))
      (after (plan files config.options host.view) w).store.inner := by
    rw [hinner]
    exact hwritable
  obtain ⟨hanswer, hafter⟩ := hwritable.writeEach_eq
  rw [emitProgram_eq, answer_bind, after_bind, hplan, answer_carryOut, store_carryOut, hstorage,
    hanswer, hafter, hinner]
  exact ⟨rfl, rfl⟩

end Programs

end LineChecker

/-! ## Events -/

/-- The diagnostic that an event tells, in console form. -/
def WatchEvent.message? : WatchEvent → Option String
  | diagnostic message => some message
  | _ => none

/-- The artifacts that an event tells of. -/
def WatchEvent.artifacts : WatchEvent → List String
  | emitted _ artifacts _ => artifacts
  | _ => []

namespace Session

open LineChecker (verdict artifactsIn IncludesNothing)

section Told

variable (h : Handle) (config : HostConfig) (s : Store) (files : List Path)

theorem messages_firstTold (file : Path) :
    (firstTold h config s file).filterMap WatchEvent.message? =
      (verdict h config s file).map Diagnostic.text := by
  have hmessage : WatchEvent.message? ∘ WatchEvent.ofDiagnostic = some ∘ Diagnostic.text := rfl
  rw [firstTold, List.filterMap_append, List.filterMap_map, hmessage, ← List.filterMap_map,
    List.filterMap_some]
  exact List.append_nil _

theorem artifacts_firstTold (file : Path) :
    (firstTold h config s file).flatMap WatchEvent.artifacts =
      (artifactsIn h config s file).map (·.path.text) := by
  have hnone :
      ((verdict h config s file).map WatchEvent.ofDiagnostic).flatMap WatchEvent.artifacts = [] := by
    rw [List.flatMap_map]
    exact List.flatMap_eq_nil_iff.2 fun _ _ => rfl
  rw [firstTold, List.flatMap_append, hnone, List.flatMap_singleton]
  rfl

theorem messages_told : (files.flatMap (firstTold h config s)).filterMap WatchEvent.message? =
    (files.flatMap (verdict h config s)).map Diagnostic.text := by
  rw [List.filterMap_flatMap, List.map_flatMap]
  simp only [messages_firstTold]

theorem artifacts_told : (files.flatMap (firstTold h config s)).flatMap WatchEvent.artifacts =
    (files.flatMap (artifactsIn h config s)).map (·.path.text) := by
  rw [List.flatMap_assoc, List.map_flatMap]
  simp only [artifacts_firstTold]

end Told

end Session

section Agreement

variable {h : Handle} {p : Platform (Traced Store) LineChecker.Knowledge}

end Agreement

/-- Two sources whose outputs have one name. The first imports a module that is declared in a
fallback directory, the second one that is nowhere. -/
def twinSources : World (Traced Store) :=
  ⟨⟨exact.withFiles [(⟨"/p/a.ts"⟩, "import x from \"pkg\"\n@@warn old"),
    (⟨"/p/sub/a.ts"⟩, "import x from \"gone\""), (⟨"/types/pkg.d.ts"⟩, "")], []⟩, []⟩

def twinConfig : HostConfig := ⟨{ outDir := some ⟨"/p/dist"⟩ }, ⟨"/p"⟩, ⟨[⟨"/types"⟩]⟩⟩

def twinFiles : List Path := [⟨"/p/a.ts"⟩, ⟨"/p/sub/a.ts"⟩]

end CompileWatch
