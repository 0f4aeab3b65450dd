import CompileWatch.Build.Once
import CompileWatch.Proofs.Asking
import CompileWatch.Proofs.FrontEnd.Artifacts
import CompileWatch.Proofs.Storage.Writing

/-!
# Building twice

A build by the line checker asks first and writes afterwards (`emitProgram_eq`).
What it comes to by asking (`Plan`) rests on the answers to its questions, so a
build that has written nothing it asked about comes to the same plan when it is
run again. The writes then go as before: an artifact that was written is not in
the way of a later one unless a source was there first, and what was refused is
refused again.

The empty path names the directory that holds everything. It is there as soon as
there is a file, so no write makes it one, and it may be asked after freely.
-/

namespace CompileWatch

open CompileWatch.Path Memory

namespace LineChecker

/-! ## Plans -/

/-- What a program comes to before anything is written: an outcome, or what to say of it and what to
write. -/
inductive Plan where
  | settled (outcome : Except HostError BuildResult)
  | writing (diagnostics : List Diagnostic) (artifacts : List Artifact)

section Plans

variable {σ : Type} (roots : List Path) (options : CompilerOptions) (host : ProgramHost σ)

def plan : Exec σ Plan := do
  let (units, missing) ← readRoots host options.target roots
  match ← checkUnits host options.target units with
  | .error e => return .settled (.error e)
  | .ok checked =>
    let diagnostics := missing ++ checked.flatMap (·.2)
    if checked.any fun (unit, own) => refuses options unit.text own then
      return .settled (.ok { diagnostics, emitSkipped := true })
    else return .writing diagnostics (programArtifacts options host.newLine units)

def carryOut : Plan → Exec σ (Except HostError BuildResult)
  | .settled outcome => pure outcome
  | .writing diagnostics artifacts => do
    return (← writeArtifacts host artifacts).map fun emitted => { diagnostics, emitted }

theorem emitProgram_eq :
    emitProgram roots options host = plan roots options host >>= carryOut host := by
  unfold emitProgram plan
  rw [bind_assoc]
  refine bind_congr fun ⟨units, missing⟩ => ?_
  rw [bind_assoc]
  refine bind_congr fun checked => ?_
  cases checked with
  | error e => rfl
  | ok checked =>
      dsimp only
      split
      · rfl
      · rfl

end Plans

section Asking

variable {σ : Type} {inside : Storage σ} {may : Call → Prop} {host : ProgramHost (Traced σ)}
  (hsource : ∀ file target, Asks inside may World.store (host.readSource file target))
  (hrelative : ∀ name target, Asks inside may World.store (host.readSourceRelative name target))
  (himports : ∀ specifiers path,
    Asks inside may World.store (host.resolveImports specifiers path))
  (target : ScriptTarget)

include hsource in
theorem asks_readRoots : ∀ roots, Asks inside may World.store (readRoots host target roots)
  | [] => .pure _
  | root :: rest => by
      refine (hsource root target).bind fun unit? => (asks_readRoots rest).bind fun read => ?_
      cases unit? with
      | some unit => exact .pure _
      | none => exact .pure _

include hrelative in
theorem asks_readIncludes : ∀ lines, Asks inside may World.store (readIncludes host target lines)
  | [] => .pure _
  | line :: rest => by
      unfold readIncludes
      split
      · exact asks_readIncludes rest
      · refine (hrelative _ target).bind fun unit => ?_
        cases unit with
        | error e => exact .pure _
        | ok unit => exact asks_readIncludes rest

include hrelative himports in
theorem asks_checkUnits : ∀ units, Asks inside may World.store (checkUnits host target units)
  | [] => .pure _
  | unit :: rest => by
      refine (asks_readIncludes hrelative target _).bind fun included => ?_
      cases included with
      | error e => exact .pure _
      | ok _ =>
          exact (asks_check himports _ _).bind fun _ => (asks_checkUnits rest).bind fun _ => .pure _

include hsource hrelative himports in
theorem asks_plan (roots : List Path) (options : CompilerOptions) :
    Asks inside may World.store (plan roots options host) := by
  refine (asks_readRoots hsource options.target roots).bind fun ⟨units, missing⟩ => ?_
  refine (asks_checkUnits hrelative himports options.target units).bind fun checked => ?_
  cases checked with
  | error e => exact .pure _
  | ok checked =>
      dsimp only
      split
      · exact .pure _
      · exact .pure _

end Asking

/-! ## Sources and artifacts of a plan -/

/-- Whether artifacts are those of sources that a store holds. -/
def OfUnits (h : Handle) (options : CompilerOptions) (s : Store) (artifacts : List Artifact) : Prop :=
  ∀ a ∈ artifacts, ∃ unit : SourceUnit, s.Holds (h.place unit.file) ∧
    ∃ b ∈ LineChecker.artifacts options unit.file unit.text, a.path = b.path

section Memory

variable {h : Handle} {κ : Type} {host : ProjectHost (Traced Store) κ}
  (hstorage : host.storage = Traced.storage h.storage)

include hstorage

theorem holds_of_parse {file : Path} {target : ScriptTarget} {w : World (Traced Store)}
    {unit : SourceUnit} (hunit : answer (host.parse file target) w = .ok (some unit)) :
    w.store.inner.Holds (h.place file) ∧ ∃ text, unit = host.frontEnd.parse file text target := by
  obtain ⟨config, env, storage, fe⟩ := host
  subst hstorage
  unfold ProjectHost.parse at hunit
  rw [answer_bind] at hunit
  split at hunit
  · rw [answer_bind] at hunit
    split at hunit
    · next text hread =>
      cases hunit
      refine ⟨Store.holds_iff.2 ?_, text, rfl⟩
      have hread : h.read file w.store.inner = .ok text := hread
      unfold Handle.read at hread
      unfold Table.contains
      split at hread
      · next hfile => rw [hfile]; rfl
      · cases hread
    · next e hread =>
      split at hunit
      · cases hunit
      · cases hunit
  · cases hunit

theorem holds_of_readSource {file : Path} {target : ScriptTarget} {w : World (Traced Store)}
    {unit : SourceUnit} (hunit : answer (host.readSource file target) w = some unit) :
    w.store.inner.Holds (h.place file) ∧ ∃ text, unit = host.frontEnd.parse file text target := by
  unfold ProjectHost.readSource at hunit
  rw [answer_bind] at hunit
  split at hunit
  · next unit? hparse =>
    cases (show unit? = some unit from hunit)
    exact holds_of_parse hstorage hparse
  · cases hunit

variable (hparse : ∀ file text target, (host.frontEnd.parse file text target).file = file)

include hparse

theorem holds_of_mem_units (target : ScriptTarget) : ∀ (roots : List Path) (w : World (Traced Store)),
    ∀ unit ∈ (answer (readRoots host.view target roots) w).1,
      w.store.inner.Holds (h.place unit.file)
  | [], _, unit, hunit => by cases hunit
  | root :: rest, w, unit, hunit => by
      have hstill : h.storage.Still := fun _ => h.looks_storage _
      have hreads : Asks h.storage Call.IsProbe World.store (host.readSource root target) :=
        ProjectHost.asks_readSource hstill (fun _ hprobe => hprobe) hstorage root target
      obtain ⟨asked, hasked⟩ := hreads w
      have hinner : (after (host.view.readSource root target) w).store.inner = w.store.inner := by
        show (after (host.readSource root target) w).store.inner = _
        rw [hasked.store_after]
      have ih := holds_of_mem_units target rest (after (host.view.readSource root target) w)
      rw [hinner] at ih
      rw [readRoots, answer_bind, answer_bind] at hunit
      generalize answer (readRoots host.view target rest) _ = read at hunit ih
      obtain ⟨units, missing⟩ := read
      cases hown : answer (host.view.readSource root target) w with
      | none =>
          rw [hown] at hunit
          exact ih unit hunit
      | some own =>
          rw [hown] at hunit
          rcases List.mem_cons.1 hunit with rfl | hunit
          · obtain ⟨hheld, text, hunit⟩ := holds_of_readSource hstorage hown
            rw [hunit, hparse]
            exact hheld
          · exact ih unit hunit

theorem units_of_plan {roots : List Path} {options : CompilerOptions} {w : World (Traced Store)}
    {diagnostics : List Diagnostic} {artifacts : List Artifact}
    (hplan : answer (plan roots options host.view) w = .writing diagnostics artifacts) :
    OfUnits h options w.store.inner artifacts := by
  have hunits := holds_of_mem_units hstorage hparse options.target roots w
  rw [plan, answer_bind] at hplan
  generalize answer (readRoots host.view options.target roots) w = read at hplan hunits
  obtain ⟨units, missing⟩ := read
  rw [answer_bind] at hplan
  split at hplan
  · cases hplan
  · dsimp only at hplan
    split at hplan
    · cases hplan
    · obtain ⟨rfl, rfl⟩ := Plan.writing.inj hplan
      intro a ha
      obtain ⟨unit, hunit, ha⟩ := List.mem_flatMap.1 ha
      obtain ⟨b, hb, rfl⟩ := List.mem_map.1 ha
      exact ⟨unit, hunits unit hunit, b, hb, rfl⟩

end Memory

/-- Nothing that a plan writes makes a directory of a path that it writes to. -/
theorem isDir_of_plan {h : Handle} {s : Store} {options : CompilerOptions} {artifacts : List Artifact}
    (hunits : OfUnits h options s artifacts) {a b : Artifact} (ha : a ∈ artifacts)
    (hb : b ∈ artifacts) (hbelow : Below (h.place a.path) (h.place b.path)) :
    h.isDir a.path s = true := by
  obtain ⟨unit, -, own, hown, hpath⟩ := hunits a ha
  obtain ⟨other, hheld, next, hnext, hpath'⟩ := hunits b hb
  rw [hpath, hpath'] at hbelow
  rw [hpath]
  exact Handle.isDir_iff.2 ⟨_, hheld, below_of_mem_artifacts hown hnext hbelow⟩

theorem writeArtifacts_eq {σ κ : Type} (host : ProjectHost σ κ) : ∀ artifacts,
    writeArtifacts host.view artifacts = Exec.onStore (writeEach host.storage artifacts)
  | [] => rfl
  | a :: rest => by
      have ih := writeArtifacts_eq host rest
      have hbind : ∀ {α β : Type} (x : StateM σ α) (f : α → StateM σ β),
          Exec.onStore (x >>= f) = Exec.onStore x >>= fun answer => Exec.onStore (f answer) :=
        fun _ _ => rfl
      have hwrite : host.view.writeOutput a.path a.content =
          Exec.onStore (host.storage.write a.path a.content) >>= fun written =>
            pure (written.mapError (HostError.write a.path)) := rfl
      rw [writeArtifacts, writeEach, hbind, ih, hwrite, bind_assoc]
      refine bind_congr fun written => ?_
      cases written with
      | error e => rfl
      | ok _ => rfl

/-! ## Emitting twice -/

/-- Whether no path that is written, and no directory above one, is asked after or read. The empty
path is left out: it is there as soon as there is a file. -/
def NotAsked (h : Handle) (calls : List Call) : Prop :=
  ∀ written ∈ calls, ∀ probe ∈ calls, written.isMade = true → probe.IsProbe →
    h.place probe.path ≠ [] → ¬ h.place probe.path <+: h.place written.path

instance (h : Handle) (calls : List Call) : Decidable (NotAsked h calls) :=
  inferInstanceAs (Decidable (∀ written ∈ calls, ∀ probe ∈ calls, _ → _ → _ → _))

theorem contains_of_place_nil {h : Handle} {s : Store} {path : Path} {file : List Component}
    (hpath : h.place path = []) (hfile : s.Holds file) : h.contains path s = true := by
  rw [Handle.contains, Bool.or_eq_true]
  cases file with
  | nil => exact .inl (Store.holds_iff.1 ((show (h.key path).components = [] from hpath) ▸ hfile))
  | cons c rest => exact .inr (Handle.isDir_iff.2 ⟨_, hfile, c, rest, by rw [hpath]; rfl⟩)

theorem spared_of_notAsked {h : Handle} {s : Store} {calls : List Call} (hfree : NotAsked h calls)
    {written : Call} (hwritten : written ∈ calls) (hmade : written.isMade = true)
    (hplace : h.place written.path ≠ []) (hheld : ∃ file, s.Holds file) {call : Call}
    (hcall : call ∈ calls) (hprobe : call.IsProbe) : call.Spared h s (h.place written.path) := by
  have hne : h.place call.path ≠ h.place written.path := by
    intro heq
    have hprobed : h.place call.path ≠ [] := by
      rw [heq]
      exact hplace
    exact hfree written hwritten call hcall hmade hprobe hprobed ⟨[], by rw [List.append_nil, heq]⟩
  cases call with
  | contains probed =>
      refine ⟨hne, fun hbelow => ?_⟩
      obtain ⟨file, hfile⟩ := hheld
      by_cases hroot : h.place probed = []
      · exact contains_of_place_nil hroot hfile
      · have hout : ¬ h.place probed <+: h.place written.path :=
          hfree written hwritten (.contains probed) hcall hmade hprobe hroot
        exact absurd (below_iff.1 hbelow).1 hout
  | read probed => exact hne
  | isDir _ => exact hprobe.elim
  | isSymlink _ => exact hprobe.elim
  | write _ _ => exact hprobe.elim
  | list _ => exact hprobe.elim
  | modified _ => exact hprobe.elim

/-- What was asked is answered alike once some artifacts of sources are laid down. -/
theorem alike_of_made {h : Handle} {options : CompilerOptions} {s : Store} {made : List Artifact}
    (hunits : OfUnits h options s made) {calls : List Call}
    (hmade : ∀ a ∈ made, .write a.path true ∈ calls) (hfree : NotAsked h calls) {call : Call}
    (hcall : call ∈ calls) (hprobe : call.IsProbe) : call.Alike h.storage s (s.lay h made) := by
  let W : List Component → Prop := fun place => ∃ a ∈ made, h.place a.path = place
  have hadded : Added W s (s.lay h made) := (Added.refl W _).lay fun a ha => ⟨a, ha, rfl⟩
  refine hadded.alike ?_
  rintro _ ⟨a, ha, rfl⟩
  obtain ⟨unit, hheld, own, hown, hsame⟩ := hunits a ha
  obtain ⟨c, hc⟩ := place_of_mem_artifacts h hown
  have hplace : h.place a.path ≠ [] := by
    rw [hsame, hc]
    simp
  exact spared_of_notAsked hfree (hmade a ha) rfl hplace ⟨_, hheld⟩ hcall hprobe

section Laid

variable {h : Handle} {options : CompilerOptions} {s : Traced Store} {artifacts made : List Artifact}
  {tried : List (Path × Bool)}

theorem OfUnits.of_writes (hunits : OfUnits h options s.inner artifacts)
    (hwrites : Writes h artifacts s made tried) : OfUnits h options s.inner made := by
  intro a ha
  obtain ⟨b, hb, hpath⟩ := hwrites.mem_artifacts _ _ (hwrites.mem_tried a ha)
  rw [← hpath]
  exact hunits b hb

/-- What was asked is answered alike once the artifacts of a plan are laid down. -/
theorem alike_of_laid (hwrites : Writes h artifacts s made tried)
    (hunits : OfUnits h options s.inner artifacts) {calls : List Call}
    (htried : ∀ path b, (path, b) ∈ tried → .write path b ∈ calls) (hfree : NotAsked h calls)
    {call : Call} (hcall : call ∈ calls) (hprobe : call.IsProbe) :
    call.Alike h.storage s.inner (s.inner.lay h made) :=
  alike_of_made (hunits.of_writes hwrites) (fun a ha => htried _ _ (hwrites.mem_tried a ha)) hfree hcall
    hprobe

/-- The artifacts of a plan are written alike where they have been laid down. -/
theorem again_of_laid (hwrites : Writes h artifacts s made tried)
    (hunits : OfUnits h options s.inner artifacts) {t : Traced Store}
    (ht : t.inner = s.inner.lay h made) :
    answer (writeEach (Traced.storage h.storage) artifacts) t =
        answer (writeEach (Traced.storage h.storage) artifacts) s ∧
      (after (writeEach (Traced.storage h.storage) artifacts) t).inner =
        (s.inner.lay h made).lay h made := by
  let W : List Component → Prop := fun place => ∃ a ∈ made, h.place a.path = place
  have hadded : Added W s.inner (s.inner.lay h made) := (Added.refl W _).lay fun a ha => ⟨a, ha, rfl⟩
  obtain ⟨hanswer, hafter⟩ := hwrites.again W t (by rw [ht]; exact hadded.wider) (by
    rintro path b hb _ ⟨a, ha, rfl⟩ hbelow
    obtain ⟨c, hc, rfl⟩ := hwrites.mem_artifacts path b hb
    obtain ⟨d, hd, hpath⟩ := hwrites.mem_artifacts _ _ (hwrites.mem_tried a ha)
    exact isDir_of_plan hunits hc hd (hpath ▸ hbelow))
  refine ⟨hanswer, ?_⟩
  rw [hafter, ht]

end Laid

section CarryOut

variable {σ κ : Type} (host : ProjectHost σ κ) (diagnostics : List Diagnostic)
  (artifacts : List Artifact) (w : World σ)

theorem answer_carryOut : answer (carryOut host.view (.writing diagnostics artifacts)) w =
    (answer (writeEach host.storage artifacts) w.store).map fun emitted =>
      { diagnostics, emitted } := by
  rw [carryOut, writeArtifacts_eq]
  rfl

theorem store_carryOut : (after (carryOut host.view (.writing diagnostics artifacts)) w).store =
    after (writeEach host.storage artifacts) w.store := by
  rw [carryOut, writeArtifacts_eq]
  rfl

end CarryOut

/-- An emission that has written nothing it asked about does the same once more. -/
theorem emitProgram_again {h : Handle} {κ : Type} {host : ProjectHost (Traced Store) κ}
    (hstorage : host.storage = Traced.storage h.storage)
    (hparse : ∀ file text target, (host.frontEnd.parse file text target).file = file)
    (hnative : host.frontEnd.resolveModule.OnlyAsks h.storage Call.IsProbe)
    {roots : List Path} {options : CompilerOptions} {w v : World (Traced Store)}
    (hv : v.store = (after (emitProgram roots options host.view) w).store)
    (hfree : NotAsked h v.store.calls) :
    answer (emitProgram roots options host.view) v =
        answer (emitProgram roots options host.view) w ∧
      ∀ key, (after (emitProgram roots options host.view) v).store.inner.text? key =
        v.store.inner.text? key := by
  have hstill : h.storage.Still := fun _ => h.looks_storage _
  have hprobe : ∀ call : Call, call.IsProbe → call.IsProbe := fun _ hcall => hcall
  have hplan : Asks h.storage Call.IsProbe World.store (plan roots options host.view) :=
    asks_plan (ProjectHost.asks_readSource hstill hprobe hstorage)
      (ProjectHost.asks_readSourceRelative hstill hprobe hstorage)
      (ProjectHost.asks_resolveImports hstill hprobe hstorage hnative) roots options
  obtain ⟨asked, hasked⟩ := hplan w
  have hplanned := hasked.store_after
  rw [emitProgram_eq, after_bind] at hv
  rw [emitProgram_eq, answer_bind, answer_bind, after_bind]
  cases hplan : answer (plan roots options host.view) w with
  | settled outcome =>
      rw [hplan] at hv
      have hv : v.store = ⟨w.store.inner, w.store.calls ++ asked⟩ := hv.trans hplanned
      obtain ⟨hanswer, hafter⟩ := hasked.again v fun call _ => by
        rw [hv]
        exact .refl h.storage _ call
      rw [hanswer, hplan]
      refine ⟨rfl, fun key => ?_⟩
      show (after (plan roots options host.view) v).store.inner.text? key = _
      rw [hafter]
  | writing diagnostics artifacts =>
      obtain ⟨made, tried, hwrites⟩ :=
        exists_writes h artifacts (after (plan roots options host.view) w).store
      have hunits := units_of_plan hstorage hparse hplan
      rw [hplanned] at hwrites
      rw [hplan, store_carryOut, hplanned, hstorage, hwrites.after_eq] at hv
      have htried : ∀ path b, (path, b) ∈ tried → .write path b ∈ v.store.calls := by
        intro path b hb
        rw [hv]
        exact List.mem_append_right _ (List.mem_map.2 ⟨_, hb, rfl⟩)
      have halike : ∀ call ∈ asked, call.Alike h.storage w.store.inner v.store.inner := by
        intro call hcall
        have hcalls : call ∈ v.store.calls := by
          rw [hv]
          exact List.mem_append_left _ (List.mem_append_right _ hcall)
        have hlaid := alike_of_laid hwrites hunits htried hfree hcalls (hasked.allowed call hcall)
        rw [hv]
        exact hlaid
      obtain ⟨hanswer, hafter⟩ := hasked.again v halike
      obtain ⟨hagain, hlaid⟩ := again_of_laid hwrites hunits
        (t := (after (plan roots options host.view) v).store) (by rw [hafter, hv])
      rw [hanswer, hplan, answer_carryOut, answer_carryOut, store_carryOut, hstorage, hagain, hlaid,
        hplanned]
      refine ⟨rfl, fun key => ?_⟩
      rw [hv]
      exact Store.text?_lay_lay made w.store.inner key

end LineChecker

/-! ## Builds -/

section Builds

variable {σ κ : Type} (p : Platform σ κ) (request : BuildRequest) (w : World σ)

/-- The part of a build that the front end does. -/
def emitting : Exec σ (Except HostError BuildResult) :=
  p.frontEnd.emitProgram request.entryFiles request.options
    (p.programHost w.store request.hostConfig).view

theorem emitting_def : p.frontEnd.emitProgram request.entryFiles request.options
    (p.programHost w.store request.hostConfig).view = emitting p request w := rfl

omit p request w in
theorem store_reportAll : ∀ (diagnostics : List Diagnostic) (w : World σ),
    (after (Diagnostic.reportAll diagnostics) w).store = w.store
  | [], _ => rfl
  | _ :: rest, _ => store_reportAll rest _

theorem answer_build : answer (build p request) w = match request.requireEntries with
    | .error e => .error e
    | .ok _ => answer (emitting p request w) w := by
  unfold build
  cases request.requireEntries with
  | error e => rfl
  | ok _ =>
      dsimp only
      rw [answer_bind, answer_get, after_get, answer_bind, emitting_def]
      cases answer (emitting p request w) w with
      | error e => rfl
      | ok result => rfl

theorem store_build : (after (build p request) w).store = match request.requireEntries with
    | .error _ => w.store
    | .ok _ => (after (emitting p request w) w).store := by
  unfold build
  cases request.requireEntries with
  | error e => rfl
  | ok _ =>
      dsimp only
      rw [after_bind, answer_get, after_get, after_bind, emitting_def]
      cases answer (emitting p request w) w with
      | error e => rfl
      | ok result => exact store_reportAll result.diagnostics _

end Builds

/-- A handle never changes its mind on letter case, so the hosts of all builds are the same. -/
theorem emitting_eq {h : Handle} {κ : Type} {p : Platform (Traced Store) κ}
    (hstorage : p.storage = Traced.storage h.storage) (request : BuildRequest)
    (w v : World (Traced Store)) : emitting p request v = emitting p request w := by
  obtain ⟨storage, frontEnd, currentDir, canObserve⟩ := p
  subst hstorage
  rfl

/-- A build by the line checker over files in memory, which has written no path that it asked about
and none below such a path, gives the same result when it is run again, and leaves every file with
the text that it had. -/
theorem build_again {h : Handle} {p : Platform (Traced Store) LineChecker.Knowledge}
    (hstorage : p.storage = Traced.storage h.storage) (hfe : p.frontEnd = LineChecker.frontEnd)
    (request : BuildRequest) (s : Store) (journal : List LogEntry)
    (hfree : LineChecker.NotAsked h (after (build p request) ⟨⟨s, []⟩, journal⟩).store.calls) :
    let first : World (Traced Store) := after (build p request) ⟨⟨s, []⟩, journal⟩
    answer (build p request) first = answer (build p request) ⟨⟨s, []⟩, journal⟩ ∧
      ∀ key, (after (build p request) first).store.inner.text? key =
        first.store.inner.text? key := by
  intro first
  have hfirst := store_build p request ⟨⟨s, []⟩, journal⟩
  rw [show after (build p request) ⟨⟨s, []⟩, journal⟩ = first from rfl] at hfirst hfree
  rw [answer_build, answer_build, store_build]
  generalize first = v at hfirst hfree ⊢
  generalize (⟨⟨s, []⟩, journal⟩ : World (Traced Store)) = w at hfirst ⊢
  cases hrequest : request.requireEntries with
  | error e => exact ⟨rfl, fun _ => rfl⟩
  | ok _ =>
      rw [hrequest] at hfirst
      rw [emitting_eq hstorage request w v]
      have hnative : p.frontEnd.resolveModule.OnlyAsks h.storage Call.IsProbe :=
        hfe ▸ LineChecker.resolveModule_onlyAsks (fun _ => h.looks_storage _) fun _ hcall => hcall
      have hemit : emitting p request w = LineChecker.emitProgram request.entryFiles request.options
          (p.programHost w.store request.hostConfig).view := by rw [emitting, hfe]; rfl
      rw [hemit] at hfirst ⊢
      exact LineChecker.emitProgram_again hstorage (fun _ _ _ => by rw [Platform.programHost, hfe]; rfl)
        hnative hfirst hfree

/-- A program of two sources, of which one imports the other, and an output folder of its own. -/
def smallProgram : Store :=
  exact.withFiles [(⟨"/p/a.ts"⟩, "import b from \"./b\"\nlet a"), (⟨"/p/b.ts"⟩, "let b")]

def smallRequest : BuildRequest where
  options := { outDir := some ⟨"/p/dist"⟩, declaration := true }
  projectRoot := ⟨"/p"⟩
  entryFiles := [⟨"/p/a.ts"⟩, ⟨"/p/b.ts"⟩]

/-- The calls of a build of the program. -/
def smallCalls : List Call :=
  [.contains ⟨"/p/a.ts"⟩, .read ⟨"/p/a.ts"⟩, .contains ⟨"/p/b.ts"⟩, .read ⟨"/p/b.ts"⟩,
    .contains ⟨"/p/b.ts"⟩, .write ⟨"/p/dist/a.js"⟩ true, .write ⟨"/p/dist/a.d.ts"⟩ true,
    .write ⟨"/p/dist/b.js"⟩ true, .write ⟨"/p/dist/b.d.ts"⟩ true]

theorem build_again_small :
    let p := LineChecker.platform (Traced.storage exact.storage)
    let first : World (Traced Store) := after (build p smallRequest) ⟨⟨smallProgram, []⟩, []⟩
    answer (build p smallRequest) first = answer (build p smallRequest) ⟨⟨smallProgram, []⟩, []⟩ ∧
      ∀ key, (after (build p smallRequest) first).store.inner.text? key =
        first.store.inner.text? key := by
  have hcalls : (after (build (LineChecker.platform (Traced.storage exact.storage)) smallRequest)
      ⟨⟨smallProgram, []⟩, []⟩).store.calls = smallCalls := by decide +kernel
  refine build_again (h := exact) rfl rfl smallRequest smallProgram [] ?_
  rw [hcalls]
  decide +kernel

end CompileWatch
