import CompileWatch.Proofs.Storage.Contents
import CompileWatch.Proofs.Watch.Analyses
import CompileWatch.Proofs.Watch.Timers

/-!
# What becomes of a failed emission

The version and the time of a file are entered before its output is written. An
emission that fails after that is told of and forgotten: the next tick sees no
later time, and nothing else would bring the emission back. Output that is stale
after a failure therefore stays so until the source is edited again, however
well all later calls go (`stale_after_failed_write`).

The exact condition is about one tick. Let no call of it fail and let the file
not be edited meanwhile. Then its artifacts are in place afterwards if and only
if the tick has raised its version or they were in place before
(`output_in_place_iff`).
-/

namespace CompileWatch.Session

open CompileWatch.Path

variable {σ ρ : Type} {inside : Storage σ} {c : Contents σ}
  {p : Platform (Ledger σ) (Knowledge ρ)} {analyst : Analyst (Ledger σ) ρ} {base : List Note}
  {f : Path} {artifacts : List Artifact}

section Storages

variable (hc : inside.Stores c) (hp : p.storage = Ledger.storage inside)

include hp

theorem looks_since {P : σ → Prop} (h : inside.Looks P) :
    p.storage.Looks (Ledger.Since base (c.Calm f) P) :=
  hp ▸ Ledger.looks_since h

/-- A write that is calm has succeeded, away from the file. -/
theorem since_write {P Q : σ → Prop} {s : Session (Ledger σ) (Knowledge ρ)} (a : Artifact)
    (hq : answer (inside.write a.path a.content) s.world.store.inner = .ok () →
      c.place a.path ≠ c.place f → P s.world.store.inner →
      Q (after (inside.write a.path a.content) s.world.store.inner))
    (h : OnStore (Ledger.Since base (c.Calm f) P) s) :
    OnStore (Ledger.Since base (c.Calm f) Q)
      (after (onStore (p.storage.write a.path a.content)) s) := by
  rw [hp]
  exact Contents.since_noted (.write a.path) (fun _ hcalm => hcalm.1)
    (fun _ hok hcalm => hq hok hcalm.2) h

theorem since_failed {P Q : σ → Prop} {s : Session (Ledger σ) (Knowledge ρ)} (a : Artifact)
    {e : FsError} (he : answer (onStore (p.storage.write a.path a.content)) s = .error e)
    (h : OnStore (Ledger.Since base (c.Calm f) P) s) :
    OnStore (Ledger.Since base (c.Calm f) Q)
      (after (onStore (p.storage.write a.path a.content)) s) := by
  refine since_write hp a (fun hok => ?_) h
  rw [hp] at he
  cases hok.symm.trans he

theorem since_textRead {P Q : σ → Prop} {s : Session (Ledger σ) (Knowledge ρ)}
    (hq : ∀ text, answer (inside.read f) s.world.store.inner = .ok text → P s.world.store.inner →
      Q (after (inside.read f) s.world.store.inner))
    (h : OnStore (Ledger.Since base (c.Calm f) P) s) :
    OnStore (Ledger.Since base (c.Calm f) Q) (s.textRead p f) := by
  unfold textRead
  rw [hp]
  exact Contents.since_noted (.read f) (fun _ hcalm => hcalm) (fun text hok _ => hq text hok) h

include hc

/-! ## Emissions of other files -/

/-- What is wanted of the file and its artifacts is not touched by the emission of a file whose
output lies elsewhere. -/
theorem emissionRule_elsewhere (hs : p.frontEnd.Serves analyst) {options : CompilerOptions}
    {wanted : Path → Option String → Prop}
    (hwanted : ∀ q text?, wanted q text? → c.place q = c.place f ∨ c.Covers artifacts q) {g : Path}
    (hg : ∀ text findings, ∀ a ∈ (analyst.output options g text findings).artifacts,
      ∀ b ∈ artifacts, c.place a.path ≠ c.place b.path) :
    EmissionRule p g
      (fun s => s.config.options = options ∧
        OnStore (Ledger.Since base (c.Calm f) (c.Shows wanted)) s)
      (fun s => s.config.options = options ∧
        OnStore (Ledger.Since base (c.Calm f) (c.Shows wanted)) s)
      (fun a => ∀ b ∈ artifacts, c.place a.path ≠ c.place b.path) where
  output s h := ⟨h.1, keeps_askOutput (looks_since hp hc.looks_shows) hs.looks g s h.2⟩
  artifacts s h a ha := by
    rw [answer_askOutput hs, h.1] at ha
    cases hfound : s.analysis? p analyst g with
    | none =>
        rw [hfound] at ha
        cases ha
    | some found =>
        rw [hfound] at ha
        exact hg _ _ a ha
  diagnostics s h := ⟨h.1, keeps_askDiagnostics (looks_since hp hc.looks_shows) hs.looks g s h.2⟩
  write a ha s h := by
    refine ⟨h.1, since_write hp a (fun hok hplace hst => ?_) h.2⟩
    refine hc.shows_write hok (fun q text? hq heq => ?_) hst
    rcases hwanted q text? hq with hqf | ⟨b, hb, hbq⟩
    · exact hplace (heq.trans hqf)
    · exact ha b hb (heq.trans hbq.symm)
  reports _ _ _ h := h

/-! ## The emission of the file -/

/-- The analysis of a new version is one of the present text. -/
theorem since_analyzes (hs : p.frontEnd.Serves analyst)
    {s t : Session (Ledger σ) (Knowledge ρ)} {found : Option (Analysis ρ)} {entry : VersionEntry}
    (he : s.versions.entries.find? f = some entry)
    (hnew : ∀ a, s.knowledge.analyses.find? f = some a → a.version ≠ entry.version) {text : String}
    (h : OnStore (Ledger.Since base (c.Calm f) fun st => c.text? st f = some text) s)
    (ha : Analyzes p analyst f s found t) :
    OnStore (Ledger.Since base (c.Calm f) fun _ => ∃ a, found = some a ∧ a.text = text ∧
      analyst.Finds s.config.options f text a.findings) t := by
  have hversion : s.versions.version? f = some entry.version := by rw [VersionTable.version?, he]; rfl
  have hread : answer (p.storage.read f) s.world.store = answer (inside.read f) s.world.store.inner :=
    by rw [hp]; rfl
  cases ha with
  | untracked hv =>
      rw [hversion] at hv
      cases hv
  | known hv hknown =>
      rw [hversion] at hv
      cases hv
      obtain ⟨hfind, hcur⟩ := Option.filter_eq_some_iff.1 hknown
      exact absurd (beq_iff_eq.1 hcur) (hnew _ hfind)
  | unread _ _ hnone =>
      refine since_textRead hp (fun got hok _ => ?_) h
      rw [hread, hok] at hnone
      cases hnone
  | @studied version text' _ _ hsome =>
      have hafter : OnStore (Ledger.Since base (c.Calm f) fun _ => text' = text)
          (s.textRead p f) := by
        refine since_textRead hp (fun got hok htext => ?_) h
        rw [hread, hok] at hsome
        cases hsome
        exact Option.some.inj ((hc.read_ok f _ _ hok).symm.trans htext)
      have hlooks : p.storage.Looks (Ledger.Since base (c.Calm f) fun _ => text' = text) :=
        looks_since hp (.const inside _)
      have hstudy := hs.study (looks_serviceHost hlooks hs.looks s) f text' _ hafter
      refine hstudy.mono fun _ heq => ⟨_, rfl, heq, ?_⟩
      rw [← heq]
      exact ⟨s.serviceHost p, f, (s.textRead p f).world, rfl, same_self _, rfl⟩

theorem since_writeArtifacts : ∀ (artifacts : List Artifact) (text? : Path → Option String)
    (s : Session (Ledger σ) (Knowledge ρ)),
    OnStore (Ledger.Since base (c.Calm f) fun st => ∀ q, c.text? st q = text? q) s →
      OnStore (Ledger.Since base (c.Calm f) fun st =>
          ∀ q, c.text? st q = (c.written q artifacts).or (text? q))
        (after (writeArtifacts p.storage artifacts) s)
  | [], _, _, h => h
  | a :: rest, text?, s, h => by
      have hwrite : OnStore (Ledger.Since base (c.Calm f) fun st => ∀ q, c.text? st q =
            if c.place a.path = c.place q then some a.content else text? q)
          (after (onStore (p.storage.write a.path a.content)) s) :=
        since_write hp a (fun hok _ htext q => by rw [hc.write_ok _ _ _ hok, htext q]) h
      have hrest := since_writeArtifacts rest _ _ hwrite
      have hboth : ∀ q, (c.written q rest).or
            (if c.place a.path = c.place q then some a.content else text? q) =
          (c.written q (a :: rest)).or (text? q) := by
        intro q
        rw [Contents.written, Option.or_assoc]
        split <;> rfl
      unfold writeArtifacts
      rw [after_bind]
      cases ha : answer (onStore (p.storage.write a.path a.content)) s with
      | ok _ => exact hrest.mono fun st htext q => (htext q).trans (hboth q)
      | error e => exact since_failed hp a ha h

theorem since_deliver {output : EmitOutput} {s : Session (Ledger σ) (Knowledge ρ)}
    (h : OnStore (Ledger.Since base (c.Calm f) fun _ => output = ⟨artifacts, false⟩) s) :
    OnStore (Ledger.Since base (c.Calm f) (c.Holds artifacts)) (after (deliver p output) s) := by
  by_cases hout : output = ⟨artifacts, false⟩
  · have hnow : OnStore (Ledger.Since base (c.Calm f) fun st =>
        ∀ q, c.text? st q = c.text? s.world.store.inner q) s := by
      obtain ⟨later, hn, _⟩ := h
      exact ⟨later, hn, fun _ _ => rfl⟩
    have hwritten := since_writeArtifacts hc hp artifacts _ s hnow
    rw [hout]
    refine hwritten.mono fun st htext q text hw => ?_
    rw [htext q, hw]
    rfl
  · have hnever : OnStore (Ledger.Since base (c.Calm f) fun _ => False) s :=
      h.mono fun _ heq => hout heq
    have hkeeps : Keeps (OnStore (Ledger.Since base (c.Calm f) fun _ => False)) (deliver p output) :=
      keeps_deliver (fun _ _ _ h => h) fun a _ s h => since_write hp a (fun _ _ hf => hf) h
    exact (hkeeps s hnever).mono fun _ hf => hf.elim

theorem since_emitLogged (hs : p.frontEnd.Serves analyst) {s : Session (Ledger σ) (Knowledge ρ)}
    {entry : VersionEntry} (he : s.versions.entries.find? f = some entry)
    (hnew : ∀ a, s.knowledge.analyses.find? f = some a → a.version ≠ entry.version) {text : String}
    (hout : ∀ findings, analyst.Finds s.config.options f text findings →
      analyst.output s.config.options f text findings = ⟨artifacts, false⟩)
    (h : OnStore (Ledger.Since base (c.Calm f) fun st => c.text? st f = some text) s) :
    OnStore (Ledger.Since base (c.Calm f) (c.Holds artifacts)) (after (emitLogged p f) s) := by
  have houtput : OnStore (Ledger.Since base (c.Calm f) fun _ =>
      answer (askOutput p f) s = ⟨artifacts, false⟩) (after (askOutput p f) s) := by
    rw [after_askOutput hs, answer_askOutput hs]
    have hfound := since_analyzes hc hp hs he hnew h (s.analyzes p analyst f)
    refine hfound.mono fun _ ⟨a, ha, htext, hfinds⟩ => ?_
    rw [ha, ← hout a.findings hfinds, ← htext]
    rfl
  have hdiagnostics := keeps_askDiagnostics (looks_since hp (.const inside _)) hs.looks f _ houtput
  have hsurface := keeps_surface (Q := OnStore (Ledger.Since base (c.Calm f) fun _ =>
    answer (askOutput p f) s = ⟨artifacts, false⟩)) (fun _ _ _ h => h)
    (answer (askDiagnostics p f) (after (askOutput p f) s)) _ hdiagnostics
  have hdeliver := since_deliver hc hp hsurface
  have hemit : OnStore (Ledger.Since base (c.Calm f) (c.Holds artifacts))
      (after (emitFile p f) s) := by
    unfold emitFile
    rw [after_bind, after_bind, after_bind, after_bind]
    split <;> exact hdeliver
  unfold emitLogged
  rw [after_bind]
  split <;> exact hemit

/-! ## Checks -/

omit hc hp in
theorem config_check {κ : Type} {p : Platform σ κ} (path : Path) (s : Session σ κ) :
    (after (check p path) s).config = s.config := by
  rw [after_check]
  split
  · rfl
  · exact (sameBooks_emitLogged p path _).config

theorem since_timed {wanted : Path → Option String → Prop} (path : Path)
    {s : Session (Ledger σ) (Knowledge ρ)}
    (h : OnStore (Ledger.Since base (c.Calm f) (c.Shows wanted)) s) :
    OnStore (Ledger.Since base (c.Calm f) (c.Shows wanted)) (timed p path s) := by
  unfold timed
  rw [hp]
  exact Ledger.keeps_noted (hc.keeps_modified_shows path) (fun _ => .modified path) s.world.store h

theorem keeps_check_elsewhere (hs : p.frontEnd.Serves analyst) {options : CompilerOptions}
    {wanted : Path → Option String → Prop}
    (hwanted : ∀ q text?, wanted q text? → c.place q = c.place f ∨ c.Covers artifacts q) {g : Path}
    (hg : ∀ text findings, ∀ a ∈ (analyst.output options g text findings).artifacts,
      ∀ b ∈ artifacts, c.place a.path ≠ c.place b.path) :
    Keeps (fun s => s.config.options = options ∧
      OnStore (Ledger.Since base (c.Calm f) (c.Shows wanted)) s) (check p g) :=
  keeps_check (emissionRule_elsewhere hc hp hs hwanted hg)
    (fun _ h _ => ⟨h.1, since_timed hc hp g h.2⟩) fun _ _ _ h _ => ⟨h.1, since_timed hc hp g h.2⟩

/-- A check that finds a change leaves the artifacts of the present text. -/
theorem since_check (hs : p.frontEnd.Serves analyst) {s : Session (Ledger σ) (Knowledge ρ)}
    (hbehind : AllBehind analyst s) {entry : VersionEntry} {time : Timestamp}
    (hchange : change? p f s = some (entry, time)) {text : String}
    (hout : ∀ findings, analyst.Finds s.config.options f text findings →
      analyst.output s.config.options f text findings = ⟨artifacts, false⟩)
    {wanted : Path → Option String → Prop} (htext : wanted f (some text))
    (h : OnStore (Ledger.Since base (c.Calm f) (c.Shows wanted)) s) :
    OnStore (Ledger.Since base (c.Calm f) (c.Holds artifacts)) (after (check p f) s) := by
  obtain ⟨_, hfound, _⟩ := change?_eq_some hchange
  have htimed : OnStore (Ledger.Since base (c.Calm f) fun st => c.text? st f = some text)
      (timed p f s) :=
    (since_timed hc hp f h).mono fun st hst => hst f (some text) htext
  have he : (enter f entry time (timed p f s)).versions.entries.find? f =
      some ⟨entry.version + 1, some time⟩ := by
    show (s.versions.entries.set f ⟨entry.version + 1, some time⟩).find? f = _
    rw [Table.find?_set, if_pos (same_self f)]
  have hnew : ∀ a, (enter f entry time (timed p f s)).knowledge.analyses.find? f = some a →
      a.version ≠ entry.version + 1 := fun a ha heq => by
    have hle := (hbehind f entry hfound).version a ha
    rw [heq] at hle
    exact Nat.not_succ_le_self _ hle
  rw [after_check, hchange]
  exact since_emitLogged hc hp hs he hnew hout htimed

/-! ## Ticks -/

theorem keeps_checkAll_elsewhere (hs : p.frontEnd.Serves analyst) {options : CompilerOptions}
    {wanted : Path → Option String → Prop}
    (hwanted : ∀ q text?, wanted q text? → c.place q = c.place f ∨ c.Covers artifacts q)
    {paths : List Path} (hpaths : ∀ g ∈ paths, ∀ text findings,
      ∀ a ∈ (analyst.output options g text findings).artifacts,
        ∀ b ∈ artifacts, c.place a.path ≠ c.place b.path) (now : Moment) :
    Keeps (fun s => s.config.options = options ∧
      OnStore (Ledger.Since base (c.Calm f) (c.Shows wanted)) s) (checkAll p now paths) :=
  keeps_checkAll (fun _ _ _ _ h => h) now fun g hg =>
    keeps_check_elsewhere hc hp hs hwanted (hpaths g hg)

/-! ## The rest of a tick -/

section Rest

variable (hs : p.frontEnd.Serves analyst) {options : CompilerOptions} {start : σ}
  {mid : Session (Ledger σ) (Knowledge ρ)} (hconfig : mid.config.options = options)
  {later : List Path} (hlater : ∀ g ∈ later, ∀ text findings,
    ∀ a ∈ (analyst.output options g text findings).artifacts,
      ∀ b ∈ artifacts, c.place a.path ≠ c.place b.path)

include hs hconfig hlater

theorem since_rest {wanted : Path → Option String → Prop}
    (hwanted : ∀ q text?, wanted q text? → c.place q = c.place f ∨ c.Covers artifacts q)
    (h : OnStore (Ledger.Since base (c.Calm f) (c.Shows wanted)) (after (check p f) mid))
    (now : Moment) :
    OnStore (Ledger.Since base (c.Calm f) (c.Shows wanted))
      (after (checkAll p now later) (polled p now f mid)) := by
  have hoptions : (polled p now f mid).config.options = options :=
    (congrArg (·.options) (config_check f mid)).trans hconfig
  exact (keeps_checkAll_elsewhere hc hp hs hwanted hlater now _ ⟨hoptions, h⟩).2

variable {notes : List Note} (hcalm : ∀ note ∈ notes, c.Calm f note)
  (hmid : OnStore (Ledger.Since base (c.Calm f) (c.Shows (c.Found f artifacts start))) mid)

include hcalm hmid

theorem holds_of_unchanged (hchange : change? p f mid = none) (now : Moment)
    (hnotes : (after (checkAll p now later) (polled p now f mid)).world.store.notes = notes ++ base) :
    c.Holds artifacts (after (checkAll p now later) (polled p now f mid)).world.store.inner ↔
      c.Holds artifacts start := by
  have hchecked : OnStore (Ledger.Since base (c.Calm f) (c.Shows (c.Found f artifacts start)))
      (after (check p f) mid) := by
    rw [after_check, hchange]
    exact since_timed hc hp f hmid
  have hrest := since_rest hc hp hs hconfig hlater (fun _ _ h => h.1) hchecked now
  exact Contents.holds_congr fun q hq => hrest.elim hnotes hcalm q _ ⟨.inr hq, rfl⟩

theorem holds_of_change (hbehind : AllBehind analyst mid) {entry : VersionEntry} {time : Timestamp}
    (hchange : change? p f mid = some (entry, time)) {text : String}
    (hout : ∀ findings, analyst.Finds options f text findings →
      analyst.output options f text findings = ⟨artifacts, false⟩)
    (htext : c.text? start f = some text) (now : Moment)
    (hnotes : (after (checkAll p now later) (polled p now f mid)).world.store.notes = notes ++ base) :
    c.Holds artifacts (after (checkAll p now later) (polled p now f mid)).world.store.inner := by
  have hwanted : ∀ q text?, text? ≠ none ∧ c.written q artifacts = text? →
      c.place q = c.place f ∨ c.Covers artifacts q := by
    rintro q text? ⟨hne, rfl⟩
    obtain ⟨text, hw⟩ := Option.ne_none_iff_exists'.1 hne
    exact .inr (Contents.covers_of_written hw)
  have hchecked := since_check hc hp hs hbehind hchange (hconfig ▸ hout) ⟨.inl rfl, htext⟩ hmid
  have hrest := since_rest hc hp hs hconfig hlater hwanted
    (hchecked.mono fun _ => Contents.holds_iff_shows.1) now
  exact Contents.holds_iff_shows.2 (hrest.elim hnotes hcalm)

end Rest

end Storages

theorem Timed.tick_around {σ κ : Type} {p : Platform σ κ} {files waiting : List Path}
    {interval : Nat} {s : Session σ κ} (h : Timed files interval waiting s) {now : Moment} {f : Path}
    (hf : f ∈ files) (hdue : s.isDue now waiting f = true) :
    ∃ before later mid, (∀ g ∈ before ++ later, g ∈ files ∧ g.same f = false) ∧
      mid = after (checkAll p now before) (opened now s) ∧
      after (Session.tick p now) s = after (checkAll p now later) (polled p now f mid) ∧
      mid.versions.version? f = s.versions.version? f ∧
      (after (Session.tick p now) s).versions.version? f = (after (check p f) mid).versions.version? f := by
  have hmem : f ∈ dueFiles now s := by
    rw [h.dueFiles_eq]
    exact List.mem_filter.2 ⟨hf, hdue⟩
  obtain ⟨before, later, hsplit⟩ := List.append_of_mem hmem
  have hfiles : ∀ g ∈ before ++ f :: later, g ∈ files := by
    rw [← hsplit, h.dueFiles_eq]
    exact fun g hg => (List.mem_filter.1 hg).1
  have hdistinct := pairwise_dueFiles now s
  rw [hsplit, List.pairwise_append, List.pairwise_cons] at hdistinct
  obtain ⟨-, ⟨hlater, -⟩, hbefore⟩ := hdistinct
  have hbefore : ∀ g ∈ before, g.same f = false := fun g hg => hbefore g hg f List.mem_cons_self
  have hlater : ∀ g ∈ later, g.same f = false := fun g hg => same_comm g f ▸ hlater g hg
  have htick : after (Session.tick p now) s = after (checkAll p now later)
      (polled p now f (after (checkAll p now before) (opened now s))) := by
    rw [after_tick_of_running h.running, hsplit, after_checkAll_append]
    rfl
  refine ⟨before, later, _, fun g hg => ?_, rfl, htick, ?_, ?_⟩
  · rcases List.mem_append.1 hg with hg | hg
    · exact ⟨hfiles g (List.mem_append_left _ hg), hbefore g hg⟩
    · exact ⟨hfiles g (List.mem_append_right _ (List.mem_cons_of_mem f hg)), hlater g hg⟩
  · rw [VersionTable.version?, find?_checkAll now f before _ hbefore]
    rfl
  · rw [htick, VersionTable.version?, find?_checkAll now f later _ hlater]
    rfl

/-- A tick that checks a file whose text has an output, without failing and without writing the
file. Its artifacts are in place afterwards if and only if the tick has raised the version of the
file or they were in place before. -/
theorem output_in_place_iff (hc : inside.Stores c) (hp : p.storage = Ledger.storage inside)
    (hs : p.frontEnd.Serves analyst) {config : HostConfig} {options : WatchOptions}
    {world : World (Ledger σ)} {session : Session (Ledger σ) (Knowledge ρ)}
    (hstart : (start p config options world).1 = .ok session) {steps : List (Step (Ledger σ))}
    (hopen : .shutdown ∉ steps) {s t : Session (Ledger σ) (Knowledge ρ)}
    (hplay : s = play p steps session) {now : Moment} (htick : t = after (tick p now) s)
    (hf : f ∈ session.versions.files) (hdue : s.isDue now (woken steps) f = true) {text : String}
    (htext : c.text? s.world.store.inner f = some text)
    (hout : ∀ findings, analyst.Finds s.config.options f text findings →
      analyst.output s.config.options f text findings = ⟨artifacts, false⟩)
    (hothers : ∀ g ∈ session.versions.files, g ≠ f → ∀ text findings,
      ∀ a ∈ (analyst.output s.config.options g text findings).artifacts,
        ∀ b ∈ artifacts, c.place a.path ≠ c.place b.path)
    {notes : List Note} (hnotes : t.world.store.notes = notes ++ s.world.store.notes)
    (hcalm : ∀ note ∈ notes, c.Calm f note) :
    c.Holds artifacts t.world.store.inner ↔
      t.versions.version? f ≠ s.versions.version? f ∨ c.Holds artifacts s.world.store.inner := by
  have htimed : Timed session.versions.files options.interval (woken steps) s := by
    rw [hplay]
    exact (Timed.start hstart).play steps hopen
  obtain ⟨before, later, mid, haround, hbefore, hlater, hsame, hversion⟩ :=
    htimed.tick_around (p := p) hf hdue
  have helse : ∀ g ∈ before ++ later, ∀ text findings,
      ∀ a ∈ (analyst.output s.config.options g text findings).artifacts,
        ∀ b ∈ artifacts, c.place a.path ≠ c.place b.path := by
    intro g hg
    refine hothers g (haround g hg).1 fun heq => ?_
    have hself : f.same f = false := heq ▸ (haround g hg).2
    rw [same_self _] at hself
    cases hself
  -- What the tick finds of the file and its artifacts is there until the file is checked.
  obtain ⟨hconfig, hmid⟩ : mid.config.options = s.config.options ∧
      OnStore (Ledger.Since s.world.store.notes (c.Calm f)
        (c.Shows (c.Found f artifacts s.world.store.inner))) mid := by
    rw [hbefore]
    exact keeps_checkAll_elsewhere hc hp hs (fun _ _ h => h.1)
      (fun g hg => helse g (List.mem_append_left _ hg)) now _ ⟨rfl, .refl fun _ _ h => h.2⟩
  have hbehind : AllBehind analyst mid := by
    rw [hbefore, hplay]
    exact keeps_checkAll (fun _ _ _ _ h => h) now (fun g _ => keeps_check_allBehind hs g) _
      (allBehind_play hs hstart steps)
  have hrest := fun g hg => helse g (List.mem_append_right before hg)
  rw [htick, hlater] at hnotes
  rw [htick, hversion, ← hsame, hlater, VersionTable.version?, VersionTable.version?, find?_check]
  cases hchange : change? p f mid with
  | none =>
      have hend := holds_of_unchanged hc hp hs hconfig hrest hcalm hmid hchange now hnotes
      simp [hend]
  | some change =>
      obtain ⟨entry, time⟩ := change
      have hend := holds_of_change hc hp hs hconfig hrest hcalm hmid hbehind hchange hout htext now
        hnotes
      obtain ⟨_, hentry, _⟩ := change?_eq_some hchange
      have hself : f.same f = true := same_self _
      simp [hend, hself, hentry]

/-! ## A write that fails once -/

/-- The line checker over files in memory whose calls can be made to fail. -/
def failingChecker : Platform (Ledger (Rehearsed Memory.Store)) LineChecker.Knowledge :=
  LineChecker.platform (Ledger.storage (Rehearsed.storage Memory.exact.storage))

def failingContents : Contents (Rehearsed Memory.Store) := Rehearsed.contents Memory.exact.contents

def distConfig : HostConfig := ⟨{ outDir := some ⟨"/p/dist"⟩ }, ⟨"/p"⟩, {}⟩

def oneSource : World (Ledger (Rehearsed Memory.Store)) :=
  ⟨⟨{ inner := Memory.exact.withFiles [(⟨"/p/a.ts"⟩, "v1")] }, []⟩, []⟩

def replaceSource (text : String) : Step (Ledger (Rehearsed Memory.Store)) :=
  .outside fun l => { l with inner := { l.inner with
    inner := (Memory.Edit.insert ⟨"/p/a.ts"⟩ text).change Memory.exact l.inner.inner } }

/-- The source is replaced, and the write of its new output fails. -/
def failedWrite : List (Step (Ledger (Rehearsed Memory.Store))) :=
  [.outside fun l => { l with inner := { l.inner with
      faults := [⟨.write, some ⟨"/p/dist/a.js"⟩, .io, "disk full", some 1⟩] } },
    replaceSource "v2", .tick 300]

/-- The next tick looks at the source, meets no failure, and leaves the output of the text before. -/
theorem stale_after_failed_write :
    ∃ session, (start failingChecker distConfig {} oneSource).1 = .ok session ∧
      ∃ s t : Session (Ledger (Rehearsed Memory.Store)) LineChecker.Knowledge,
        s = play failingChecker failedWrite session ∧ t = after (tick failingChecker 600) s ∧
          s.isDue 600 (woken failedWrite) ⟨"/p/a.ts"⟩ = true ∧
          t.world.store.notes = [.modified ⟨"/p/a.ts"⟩] ++ s.world.store.notes ∧
          failingContents.text? t.world.store.inner ⟨"/p/a.ts"⟩ = some "v2" ∧
          failingContents.text? t.world.store.inner ⟨"/p/dist/a.js"⟩ = some "v1" ∧
          ¬ failingContents.Holds (LineChecker.artifacts distConfig.options ⟨"/p/a.ts"⟩ "v2")
            t.world.store.inner := by
  obtain ⟨session, h, hrun⟩ := exists_start
    (show (start failingChecker distConfig {} oneSource).1.toOption.any (fun session =>
      let s := play failingChecker failedWrite session
      let t := after (tick failingChecker 600) s
      s.isDue 600 (woken failedWrite) ⟨"/p/a.ts"⟩ &&
        t.world.store.notes == [.modified ⟨"/p/a.ts"⟩] ++ s.world.store.notes &&
        failingContents.text? t.world.store.inner ⟨"/p/a.ts"⟩ == some "v2" &&
        failingContents.text? t.world.store.inner ⟨"/p/dist/a.js"⟩ == some "v1") = true by
      decide +kernel)
  simp only [Bool.and_eq_true, beq_iff_eq] at hrun
  obtain ⟨⟨⟨hdue, hnotes⟩, hsource⟩, hold⟩ := hrun
  refine ⟨session, h, _, _, rfl, rfl, hdue, hnotes, hsource, hold, fun hholds => ?_⟩
  have hnew := hholds ⟨"/p/dist/a.js"⟩ "v2" (by decide +kernel)
  rw [hold] at hnew
  revert hnew
  decide

/-- Another edit brings the output back. -/
theorem output_in_place_iff_replaced :
    ∃ session, (start failingChecker distConfig {} oneSource).1 = .ok session ∧
      failingContents.Holds (LineChecker.artifacts distConfig.options ⟨"/p/a.ts"⟩ "v3")
        (after (tick failingChecker 600)
          (play failingChecker (failedWrite ++ [replaceSource "v3"]) session)).world.store.inner := by
  obtain ⟨session, h, hrun⟩ := exists_start
    (show (start failingChecker distConfig {} oneSource).1.toOption.any (fun session =>
      let s := play failingChecker (failedWrite ++ [replaceSource "v3"]) session
      let t := after (tick failingChecker 600) s
      session.versions.files == [⟨"/p/a.ts"⟩] && s.config == distConfig &&
        s.isDue 600 (woken (failedWrite ++ [replaceSource "v3"])) ⟨"/p/a.ts"⟩ &&
        failingContents.text? s.world.store.inner ⟨"/p/a.ts"⟩ == some "v3" &&
        t.world.store.notes == [.write ⟨"/p/dist/a.js"⟩ false, .read ⟨"/p/a.ts"⟩ false,
          .modified ⟨"/p/a.ts"⟩] ++ s.world.store.notes &&
        t.versions.version? ⟨"/p/a.ts"⟩ != s.versions.version? ⟨"/p/a.ts"⟩) = true by
      decide +kernel)
  simp only [Bool.and_eq_true, beq_iff_eq, bne_iff_ne] at hrun
  obtain ⟨⟨⟨⟨⟨hfiles, hconfig⟩, hdue⟩, htext⟩, hnotes⟩, hversion⟩ := hrun
  refine ⟨session, h, (output_in_place_iff (Rehearsed.storage_stores
    (Memory.storage_stores Memory.exact)) (p := failingChecker) rfl LineChecker.frontEnd_serves h
    (by simp [failedWrite, replaceSource]) rfl rfl (by simp [hfiles]) hdue htext
    (fun findings _ => ?_) (fun g hg hne => ?_) hnotes ?_).2 (.inl hversion)⟩
  · rw [hconfig]
    rfl
  · rw [hfiles] at hg
    exact absurd (List.mem_singleton.1 hg) hne
  · simp [Contents.Calm]
    decide +kernel

end CompileWatch.Session
