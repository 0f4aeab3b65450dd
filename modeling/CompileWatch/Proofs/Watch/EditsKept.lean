import CompileWatch.Proofs.Storage.Dated
import CompileWatch.Proofs.Watch.Analyses
import CompileWatch.Proofs.Watch.Recording
import CompileWatch.Proofs.Watch.Timers

/-!
# No edit is lost

A check reads the time of a file and enters it before the emission reads the
text. An edit between the two is emitted under a time from before the edit, so
the next check finds it again: an edit may be emitted twice, but not missed. The
other order would lose it.

What carries the proof is therefore a statement about the entered time, not
about the moment of the last emission. An analysis of the present version of a
file has the file's text, unless the file is dated after the entered time
(`Fresh.text`), and so has the latest output (`Settled`). Both survive whatever
ages the files, and the first is all that an emission needs to bring about the
second. A new version only has to make sure that no analysis is taken for one of
it (`Behind`).
-/

namespace CompileWatch

open CompileWatch.Path

variable {σ ρ : Type}

/-- Whether an output follows from a text of a file. -/
def Analyst.Gives (analyst : Analyst σ ρ) (options : CompilerOptions) (file : Path) (text : String)
    (output : Path × EmitOutput) : Prop :=
  ∃ findings, analyst.Finds options file text findings ∧
    output.2 = analyst.output options output.1 text findings

namespace Session

variable {p : Platform σ (Knowledge ρ)} {analyst : Analyst σ ρ} {d : Dating σ}

/-- The entered time of a file is not ahead of the clock, and an analysis of its present version
has its text, unless the file is dated after the entered time. -/
structure Fresh (d : Dating σ) (f : Path) (entry : VersionEntry) (s : Session σ (Knowledge ρ)) :
    Prop where
  seen : ∀ time, entry.modified = some time → time ≤ d.clock s.world.store
  text : ∀ time, entry.modified = some time → ∀ a, s.knowledge.analyses.find? f = some a →
    a.version = entry.version → d.Holds f time a.text s.world.store

/-- The latest output of a file follows from its text, unless the file is dated after the entered
time. -/
def Settled (d : Dating σ) (analyst : Analyst σ ρ) (f : Path) (entry : VersionEntry)
    (s : Session σ (Recorded (Knowledge ρ))) : Prop :=
  ∀ time, entry.modified = some time → ∀ file, d.file? s.world.store f = some file →
    file.modified ≤ time → ∃ output, s.latest? f = some output ∧
      analyst.Gives s.config.options f file.content output

theorem Fresh.ages {f : Path} {entry : VersionEntry} {s t : Session σ (Knowledge ρ)}
    (h : Fresh d f entry s) (ha : d.Ages s.world.store t.world.store)
    (hk : t.knowledge.analyses.find? f = s.knowledge.analyses.find? f) : Fresh d f entry t where
  seen time ht := Int.le_trans (h.seen time ht) ha.clock
  text time ht a hf hv := (h.text time ht a (hk ▸ hf) hv).ages ha (h.seen time ht)

theorem Settled.ages {f : Path} {entry : VersionEntry} {s t : Session σ (Recorded (Knowledge ρ))}
    (h : Settled d analyst f entry s) (hseen : ∀ time, entry.modified = some time →
      time ≤ d.clock s.world.store) (ha : d.Ages s.world.store t.world.store)
    (hl : t.latest? f = s.latest? f) (hc : t.config = s.config) : Settled d analyst f entry t := by
  intro time ht file hf hm
  rw [hl, hc]
  exact h time ht file (ha.of_modified_le hf (Int.le_trans hm (hseen time ht))) hm

/-! ## Coming to an analysis -/

section Analyses

variable (hd : p.storage.Dated d) (hs : p.frontEnd.Serves analyst)

include hd

theorem ages_textRead (path : Path) (s : Session σ (Knowledge ρ)) :
    d.Ages s.world.store (s.textRead p path).world.store :=
  (hd.looks s.world.store).read path _ (.refl _)

theorem content_textRead {path f : Path} (hsame : path.same f = true)
    (s : Session σ (Knowledge ρ)) :
    (d.file? (s.textRead p path).world.store f).map (·.content) =
      (answer (p.storage.read path) s.world.store).toOption := by
  rw [hd.answer_read, ← d.file?_congr hsame]
  rfl

include hs

theorem ages_studying (path : Path) (text : String) (s : Session σ (Knowledge ρ)) :
    d.Ages (s.textRead p path).world.store
      (after (s.studying p analyst path text) (s.textRead p path).world).store :=
  hs.study (looks_serviceHost (hd.looks _) hs.looks s) path text _ (.refl _)

theorem ages_analyzes {path : Path} {s t : Session σ (Knowledge ρ)} {found : Option (Analysis ρ)}
    (h : Analyzes p analyst path s found t) : d.Ages s.world.store t.world.store := by
  cases h with
  | untracked _ => exact .refl _
  | known _ _ => exact .refl _
  | unread _ _ _ => exact ages_textRead hd path s
  | studied _ _ _ => exact (ages_textRead hd path s).trans (ages_studying hd hs path _ s)

/-- A new analysis has the text of its file, unless the file was dated since the text was read. -/
theorem holds_learned {path f : Path} (hsame : path.same f = true) {s : Session σ (Knowledge ρ)}
    {text : String} (hread : (answer (p.storage.read path) s.world.store).toOption = some text)
    (version : Nat) {time : Timestamp} (hseen : time ≤ d.clock s.world.store) :
    d.Holds f time text (s.learned p analyst path version text).world.store := by
  have hold : d.Holds f time text (s.textRead p path).world.store := by
    intro file hf _
    have hc := content_textRead hd hsame s
    rw [hread, hf] at hc
    exact Option.some.inj hc
  exact hold.ages (ages_studying hd hs path text s)
    (Int.le_trans hseen (ages_textRead hd path s).clock)

theorem Fresh.analyzes {path f : Path} {s t : Session σ (Knowledge ρ)}
    {found : Option (Analysis ρ)} {entry : VersionEntry} (hf : Fresh d f entry s)
    (h : Analyzes p analyst path s found t) : Fresh d f entry t := by
  have ha := ages_analyzes hd hs h
  cases h with
  | untracked _ => exact hf
  | known _ _ => exact hf
  | unread _ _ _ => exact hf.ages ha rfl
  | @studied version text _ _ hread =>
      have hfind : (s.learned p analyst path version text).knowledge.analyses.find? f =
          if path.same f then some (s.newAnalysis p analyst path version text)
          else s.knowledge.analyses.find? f := by
        rw [learned, Knowledge.learn, Table.find?_set]
      cases hsame : path.same f with
      | false => exact hf.ages ha (by rw [hfind, hsame]; rfl)
      | true =>
          refine ⟨fun time ht => Int.le_trans (hf.seen time ht) ha.clock, fun time ht a hfa _ => ?_⟩
          rw [hfind, hsame, if_pos rfl] at hfa
          cases hfa
          exact holds_learned hd hs hsame hread version (hf.seen time ht)

/-- The analysis that an emission rests on has the text of the file, unless the file is dated after
the entered time. -/
theorem Fresh.found {path f : Path} (hsame : path.same f = true) {s t : Session σ (Knowledge ρ)}
    {found : Option (Analysis ρ)} {entry : VersionEntry} (hf : Fresh d f entry s)
    (hb : Behind analyst s.config.options f entry s.knowledge)
    (he : s.versions.entries.find? f = some entry) (h : Analyzes p analyst path s found t)
    {time : Timestamp} (ht : entry.modified = some time) {file : Memory.File}
    (hfile : d.file? t.world.store f = some file) (hm : file.modified ≤ time) :
    ∃ a, found = some a ∧ a.text = file.content ∧
      analyst.Finds s.config.options f file.content a.findings := by
  have hversion : s.versions.version? path = some entry.version := by
    rw [VersionTable.version?, Table.find?_congr _ hsame, he]
    rfl
  cases h with
  | untracked hv =>
      rw [hversion] at hv
      cases hv
  | @known version a hv hknown =>
      rw [hversion] at hv
      cases hv
      obtain ⟨hfind, hcur⟩ := Option.filter_eq_some_iff.1 hknown
      rw [Table.find?_congr _ hsame] at hfind
      have htext := hf.text time ht a hfind (beq_iff_eq.1 hcur) file hfile hm
      exact ⟨a, rfl, htext.symm, htext ▸ hb.found a hfind⟩
  | unread _ _ hread =>
      have hc := content_textRead hd hsame s
      rw [hread, hfile] at hc
      cases hc
  | @studied version text _ _ hread =>
      have htext := holds_learned hd hs hsame hread version (hf.seen time ht) file hfile hm
      exact ⟨_, rfl, htext.symm, htext ▸ ⟨_, _, _, rfl, hsame, rfl⟩⟩

end Analyses

/-! ## Sessions -/

/-- Every tracked file is fresh, and settled unless an emission of it is still owed. -/
def Good (d : Dating σ) (analyst : Analyst σ ρ) (owed : Path → Prop)
    (s : Session σ (Recorded (Knowledge ρ))) : Prop :=
  AllBehind analyst s.forget ∧ ∀ f entry, s.versions.entries.find? f = some entry →
    Fresh d f entry s.forget ∧ (¬ owed f → Settled d analyst f entry s)

section Steps

variable (hd : p.storage.Dated d) (hs : p.frontEnd.Serves analyst) {owed owed' : Path → Prop}

theorem Good.ages {s t : Session σ (Recorded (Knowledge ρ))} (h : Good d analyst owed s)
    (ha : d.Ages s.world.store t.world.store) (hv : t.versions = s.versions)
    (hk : t.knowledge = s.knowledge) (hc : t.config = s.config) : Good d analyst owed t := by
  have hf : t.forget.versions = s.forget.versions ∧ t.forget.knowledge = s.forget.knowledge ∧
      t.forget.config = s.forget.config := ⟨hv, congrArg Recorded.known hk, hc⟩
  refine ⟨fun f entry he => ?_, fun f entry he => ?_⟩
  · rw [hf.2.2, hf.2.1]
    exact h.1 f entry (hf.1 ▸ he)
  · obtain ⟨hfresh, hsettled⟩ := h.2 f entry (hv ▸ he)
    refine ⟨hfresh.ages ha (by rw [hf.2.1]), fun ho => (hsettled ho).ages hfresh.seen ha ?_ hc⟩
    rw [latest?, latest?, outputs, outputs, hk]

section Service

include hs

theorem forget_askOutput (path : Path) (s : Session σ (Recorded (Knowledge ρ))) :
    (after (askOutput p.recorded path) s).forget = s.forget.analyzed p analyst path :=
  after_askOutput hs path s.forget

theorem forget_askDiagnostics (path : Path) (s : Session σ (Recorded (Knowledge ρ))) :
    (after (askDiagnostics p.recorded path) s).forget = s.forget.analyzed p analyst path :=
  after_askDiagnostics hs path s.forget

theorem latest?_askOutput (path f : Path) (s : Session σ (Recorded (Knowledge ρ))) :
    (after (askOutput p.recorded path) s).latest? f =
      if path.same f then
        some (path, analyst.outputOf s.config.options path (s.forget.analysis? p analyst path))
      else s.latest? f := by
  have hanswer : answer (askOutput p path) s.forget =
      analyst.outputOf s.config.options path (s.forget.analysis? p analyst path) :=
    answer_askOutput hs path s.forget
  have hout : (after (askOutput p.recorded path) s).outputs =
      (path, answer (askOutput p path) s.forget) :: s.outputs := rfl
  rw [latest?, hout, hanswer, latest?]
  cases hsame : path.same f with
  | false => rw [List.find?_cons_of_neg (by simp [hsame]), if_neg (by decide)]
  | true => rw [List.find?_cons_of_pos (by simpa using hsame), if_pos rfl]

end Service

include hd

theorem Good.enter {path : Path} {s : Session σ (Recorded (Knowledge ρ))}
    (h : Good d analyst (fun _ => False) s) {entry : VersionEntry} {time : Timestamp}
    (hc : change? p.recorded path s = some (entry, time)) :
    Good d analyst (fun f => path.same f = true)
      (enter path entry time (timed p.recorded path s)) := by
  have hc' : change? p path s.forget = some (entry, time) := hc
  have hages : d.Ages s.world.store (timed p.recorded path s).world.store :=
    hd.modified _ path s.world.store (.refl _)
  obtain ⟨hanswer, hfound, _⟩ := change?_eq_some hc'
  refine ⟨allBehind_enter h.1 hc', fun f e he => ?_⟩
  have he : (s.versions.entries.set path ⟨entry.version + 1, some time⟩).find? f = some e := he
  rw [Table.find?_set] at he
  split at he
  · next hsame =>
    cases he
    rw [Table.find?_congr _ hsame] at hfound
    have hm := hd.answer_modified path s.world.store
    have hanswer : answer (p.storage.modified path) s.world.store = .ok time := hanswer
    rw [hanswer] at hm
    obtain ⟨file, hfile, htime⟩ := Option.map_eq_some_iff.1 hm.symm
    refine ⟨⟨fun time' ht => ?_, fun time' _ a ha hv => ?_⟩, fun hnot => absurd hsame hnot⟩
    · cases ht
      rw [← htime]
      exact d.modified_le _ path file hfile
    · have hle := (h.1 f entry hfound).version a ha
      rw [hv] at hle
      exact absurd hle (Nat.not_succ_le_self _)
  · next hsame =>
    obtain ⟨hfresh, hsettled⟩ := h.2 f e he
    exact ⟨hfresh.ages hages rfl, fun _ => (hsettled id).ages hfresh.seen hages rfl rfl⟩

include hs

/-- A question to the service ages the files, and leaves what is known of them fresh. -/
theorem Good.asked {path : Path} {s t : Session σ (Recorded (Knowledge ρ))}
    (h : Good d analyst owed s) (ht : t.forget = s.forget.analyzed p analyst path) :
    AllBehind analyst t.forget ∧ d.Ages s.world.store t.world.store ∧
      ∀ f entry, s.versions.entries.find? f = some entry → Fresh d f entry t.forget := by
  have hanalyzes := s.forget.analyzes p analyst path
  refine ⟨ht ▸ allBehind_analyzed path h.1, ?_, fun f entry he => ?_⟩
  · exact (congrArg (·.world.store) ht) ▸ ages_analyzes hd hs hanalyzes
  · exact ht ▸ (h.2 f entry he).1.analyzes hd hs hanalyzes

theorem Good.settled_askOutput {path f : Path} (hsame : path.same f = true)
    {s : Session σ (Recorded (Knowledge ρ))} (h : Good d analyst owed s) {entry : VersionEntry}
    (he : s.versions.entries.find? f = some entry) :
    Settled d analyst f entry (after (askOutput p.recorded path) s) := by
  intro time ht file hfile hm
  have hfile : d.file? (s.forget.analyzed p analyst path).world.store f = some file :=
    (congrArg (·.world.store) (forget_askOutput hs path s)) ▸ hfile
  obtain ⟨a, hfound, htext, hfinds⟩ := (h.2 f entry he).1.found hd hs hsame (h.1 f entry he) he
    (s.forget.analyzes p analyst path) ht hfile hm
  have hlatest := latest?_askOutput hs path f s
  rw [hsame, if_pos rfl, hfound] at hlatest
  exact ⟨_, hlatest, a.findings, hfinds, by rw [← htext]; rfl⟩

theorem emissionRule_good {path : Path} (howed : ∀ f, owed' f → owed f ∨ path.same f = true) :
    EmissionRule p.recorded path (Good d analyst owed') (Good d analyst owed) fun _ => True where
  output s h := by
    obtain ⟨hbehind, hages, hfresh⟩ := h.asked hd hs (forget_askOutput hs path s)
    refine ⟨hbehind, fun f entry he => ⟨hfresh f entry he, fun hnot => ?_⟩⟩
    cases hsame : path.same f with
    | true => exact h.settled_askOutput hd hs hsame he
    | false =>
        have hnot' : ¬ owed' f := fun hold => by
          rcases howed f hold with hold | hold
          · exact hnot hold
          · rw [hsame] at hold
            cases hold
        have hlatest := latest?_askOutput hs path f s
        rw [hsame, if_neg (by decide)] at hlatest
        obtain ⟨hfresh, hsettled⟩ := h.2 f entry he
        exact (hsettled hnot').ages hfresh.seen hages hlatest rfl
  artifacts _ _ _ _ := trivial
  diagnostics s h := by
    obtain ⟨hbehind, hages, hfresh⟩ := h.asked hd hs (forget_askDiagnostics hs path s)
    refine ⟨hbehind, fun f entry he => ⟨hfresh f entry he, fun hnot => ?_⟩⟩
    obtain ⟨hfresh, hsettled⟩ := h.2 f entry he
    exact (hsettled hnot).ages hfresh.seen hages rfl rfl
  write a _ s h := h.ages (hd.write _ a.path a.content s.world.store (.refl _)) rfl rfl rfl
  reports s journal events h := h.ages (.refl _) rfl rfl rfl

theorem keeps_check_good (path : Path) :
    Keeps (Good d analyst fun _ => False) (check p.recorded path) :=
  keeps_check (emissionRule_good hd hs fun _ hf => .inr hf)
    (fun s h _ => h.ages (hd.modified _ path s.world.store (.refl _)) rfl rfl rfl)
    fun _ _ _ h hc => h.enter hd hc

end Steps

/-! ## The start -/

/-- The entered times are not ahead of the clock. -/
def TimesSeen (d : Dating σ) (t : VersionTable) (s : σ) : Prop :=
  ∀ f entry, t.entries.find? f = some entry →
    ∀ time, entry.modified = some time → time ≤ d.clock s

theorem timesSeen_trackAll {storage : Storage σ} (hd : storage.Dated d) :
    ∀ (files : List Path) (t : VersionTable) (s : σ), TimesSeen d t s →
      TimesSeen d (answer (trackAll storage t files) s) (after (trackAll storage t files) s)
  | [], _, _, h => h
  | path :: rest, t, s, h => by
      refine timesSeen_trackAll hd rest (t.track path (answer (storage.modified path) s).toOption)
        (after (storage.modified path) s) fun f entry he time ht => ?_
      have hages : d.Ages s (after (storage.modified path) s) := hd.modified s path s (.refl s)
      rw [VersionTable.track, Table.find?_setNew] at he
      split at he
      · cases hold : t.entries.find? path with
        | some old =>
            rw [hold] at he
            cases he
            exact Int.le_trans (h path _ hold time ht) hages.clock
        | none =>
            rw [hold] at he
            cases he
            have ht : (answer (storage.modified path) s).toOption = some time := ht
            rw [hd.answer_modified] at ht
            obtain ⟨file, hfile, rfl⟩ := Option.map_eq_some_iff.1 ht
            exact d.modified_le _ path file hfile
      · exact Int.le_trans (h f entry he time ht) hages.clock

theorem same_of_trackAll (storage : Storage σ) (f : Path) :
    ∀ (files : List Path) (t : VersionTable) (s : σ),
      (answer (trackAll storage t files) s).entries.contains f = true →
        t.entries.contains f = true ∨ ∃ path ∈ files, path.same f = true
  | [], _, _, h => .inl h
  | path :: rest, t, s, h => by
      rcases same_of_trackAll storage f rest _ _ h with h | ⟨q, hq, hsame⟩
      · cases hsame : path.same f with
        | true => exact .inr ⟨path, List.mem_cons_self, hsame⟩
        | false =>
            refine .inl ?_
            rw [VersionTable.track, Table.contains, Table.find?_setNew, hsame] at h
            exact h
      · exact .inr ⟨q, List.mem_cons_of_mem _ hq, hsame⟩

section Runs

variable (hd : p.storage.Dated d) (hs : p.frontEnd.Serves analyst)

include hd hs

theorem good_emitAll : ∀ (files : List Path) (s : Session σ (Recorded (Knowledge ρ))),
    Good d analyst (fun f => ∃ path ∈ files, path.same f = true) s →
      Good d analyst (fun _ => False) (after (emitAll p.recorded files) s)
  | [], s, h => ⟨h.1, fun f entry he => ⟨(h.2 f entry he).1, fun _ => (h.2 f entry he).2 (by simp)⟩⟩
  | path :: rest, s, h => by
      rw [after_emitAll_cons]
      refine good_emitAll rest _ ((emissionRule_good hd hs fun f hf => ?_).emitLogged h)
      obtain ⟨q, hq, hsame⟩ := hf
      rcases List.mem_cons.1 hq with rfl | hq
      · exact .inr hsame
      · exact .inl ⟨q, hq, hsame⟩

theorem good_start {config : HostConfig} {options : WatchOptions} {world : World σ}
    {session : Session σ (Recorded (Knowledge ρ))}
    (hstart : (start p.recorded config options world).1 = .ok session) :
    Good d analyst (fun _ => False) session := by
  obtain ⟨files, found, journal, -, rfl⟩ := start_ok hstart
  rw [after_begin, after_armAll]
  refine Good.ages (good_emitAll hd hs files _ ?_) (.refl _) rfl rfl rfl
  have hnone : ∀ f a, p.frontEnd.initialKnowledge.analyses.find? f ≠ some a := by
    rw [hs.initialKnowledge]
    exact fun f a ha => by cases ha
  refine ⟨fun f entry _ => ⟨fun a ha => absurd ha (hnone f a), fun a ha => absurd ha (hnone f a)⟩,
    fun f entry he => ⟨⟨?_, fun _ _ a ha => absurd ha (hnone f a)⟩, fun hnot => absurd ?_ hnot⟩⟩
  · exact timesSeen_trackAll hd files {} found (fun _ _ he => by cases he) f entry he
  · have he : (answer (trackAll p.storage {} files) found).entries.find? f = some entry := he
    have hcontains : (answer (trackAll p.storage {} files) found).entries.contains f = true := by
      rw [Table.contains, he]
      rfl
    rcases same_of_trackAll p.storage f files {} found hcontains with h | h
    · cases h
    · exact h

theorem good_play {steps : List (Step σ)}
    (hout : ∀ change, .outside change ∈ steps → ∀ s, d.Ages s (change s))
    {s : Session σ (Recorded (Knowledge ρ))} (h : Good d analyst (fun _ => False) s) :
    Good d analyst (fun _ => False) (play p.recorded steps s) := by
  refine keeps_play (fun step hstep => ?_) s h
  refine keeps_act (fun s _ _ _ h => h.ages (.refl _) rfl rfl rfl)
    (fun s _ _ h => h.ages (.refl _) rfl rfl rfl) (keeps_check_good hd hs)
    (fun path s h => (emissionRule_good hd hs fun f hf => .inl hf).emitFile h) fun change heq => ?_
  exact fun s h => h.ages (hout change (heq ▸ hstep) s.world.store) rfl rfl rfl

end Runs

theorem keeps_check_ages {κ : Type} {p : Platform σ κ} (hd : p.storage.Dated d)
    (hfe : p.frontEnd.OnlyLooks) (s : σ) (path : Path) :
    Keeps (OnStore (d.Ages s)) (check p path) :=
  keeps_check (P := OnStore (d.Ages s))
    (emissionRule_onFiles (R := fun _ => d.Ages s) hfe (fun _ => hd.looks s) (fun _ => hd.write s)
      path)
    (fun t h _ => hd.modified s path t.world.store h)
    fun t _ _ h _ => hd.modified s path t.world.store h

theorem ages_play {κ : Type} {p : Platform σ κ} (hd : p.storage.Dated d)
    (hfe : p.frontEnd.OnlyLooks) {steps : List (Step σ)}
    (hout : ∀ change, .outside change ∈ steps → ∀ s, d.Ages s (change s)) (s : Session σ κ) :
    d.Ages s.world.store (play p steps s).world.store := by
  refine keeps_play (Q := OnStore (d.Ages s.world.store)) (fun step hstep => ?_) s (.refl _)
  refine keeps_act (fun _ _ _ _ h => h) (fun _ _ _ h => h) (keeps_check_ages hd hfe _)
    (fun path t h => ?_) fun change heq t h => h.trans (hout change (heq ▸ hstep) t.world.store)
  exact (emissionRule_onFiles (R := fun _ => d.Ages s.world.store) hfe (fun _ => hd.looks _)
    (fun _ => hd.write _) path).emitFile h

/-- Whatever happens until then, the next check of a file raises its version and emits it, if the
file still has a time; and so has the tick to which the check belongs when it is over. -/
def NextCheckEmits {κ : Type} (p : Platform σ κ) (others : (σ → σ) → Prop) (f : Path)
    (entry : VersionEntry) (s : Session σ (Recorded κ)) : Prop :=
  ∀ later, (∀ change, .outside change ∈ later → others change) →
    let t := play p.recorded later s
    t.versions.entries.find? f = some entry → ∀ now mid,
      (f, mid) ∈ polls p.recorded now (dueFiles now t) (opened now t) →
      ∀ time, answer (p.storage.modified f) mid.world.store = .ok time →
        (after (check p.recorded f) mid).versions.version? f = some (entry.version + 1) ∧
          (after (check p.recorded f) mid).outputs.map (·.1) = f :: mid.outputs.map (·.1) ∧
          (t.stopped = false →
            let ticked := after (tick p.recorded now) t
            ticked.versions.version? f = some (entry.version + 1) ∧
              ∃ more, ticked.outputs.map (·.1) = more ++ f :: mid.outputs.map (·.1))

theorem change?_eq_of_newer {κ : Type} {p : Platform σ κ} {f : Path} {s : Session σ κ}
    {entry : VersionEntry} {time : Timestamp}
    (ha : answer (p.storage.modified f) s.world.store = .ok time)
    (he : s.versions.entries.find? f = some entry) (hn : entry.isNewer time = true) :
    change? p f s = some (entry, time) := by
  unfold change?
  rw [ha, he]
  exact if_pos hn

/-- A file that is gone, or dated after its entered time, is emitted at its next check. -/
theorem nextCheckEmits {κ : Type} {p : Platform σ κ} (hd : p.storage.Dated d)
    (hfe : p.frontEnd.OnlyLooks) {others : (σ → σ) → Prop}
    (hothers : ∀ change, others change → ∀ s, d.Ages s (change s)) {f : Path}
    {entry : VersionEntry} {s : Session σ (Recorded κ)}
    (hseen : ∀ time, entry.modified = some time → time ≤ d.clock s.world.store)
    (hstale : ∀ time, entry.modified = some time → ∀ file, d.file? s.world.store f = some file →
      time < file.modified) : NextCheckEmits p others f entry s := by
  intro later hout t he now mid hm time hanswer
  have hrecorded : p.recorded.frontEnd.OnlyLooks := hfe.recorded
  have hplay : OnStore (d.Ages s.world.store) (opened now t) :=
    ages_play (p := p.recorded) hd hrecorded (fun change hc => hothers change (hout change hc)) s
  have hmid : d.Ages s.world.store mid.world.store :=
    of_mem_polls (Q := OnStore (d.Ages s.world.store))
      (fun path _ => keeps_check_ages (p := p.recorded) hd hrecorded _ path) hplay hm
  obtain ⟨hbefore, hafter⟩ := find?_of_mem_polls (pairwise_dueFiles now t) hm
  have hentry : mid.versions.entries.find? f = some entry := hbefore.trans he
  have hnewer : entry.isNewer time = true := by
    unfold VersionEntry.isNewer
    cases hmodified : entry.modified with
    | none => rfl
    | some seen =>
        have hread := hd.answer_modified f mid.world.store
        rw [hanswer] at hread
        obtain ⟨file, hfile, rfl⟩ := Option.map_eq_some_iff.1 hread.symm
        have hages := hmid.trans (hd.modified _ f mid.world.store (.refl _))
        rcases hages.file f file hfile with hold | hlt
        · exact decide_eq_true (hstale seen hmodified file hold)
        · exact decide_eq_true (Int.lt_of_le_of_lt (hseen seen hmodified) hlt)
  have hc : change? p.recorded f mid = some (entry, time) :=
    change?_eq_of_newer hanswer hentry hnewer
  have hself : f.same f = true := same_self _
  have hraised :
      (after (check p.recorded f) mid).versions.version? f = some (entry.version + 1) := by
    simp [VersionTable.version?, find?_check, hc, hself]
  have hemitted :
      (after (check p.recorded f) mid).outputs.map (·.1) = f :: mid.outputs.map (·.1) := by
    rw [outputs_check, hc]
    rfl
  refine ⟨hraised, hemitted, fun hrunning => ?_⟩
  rw [after_tick_of_running hrunning]
  refine ⟨?_, ?_⟩
  · rw [VersionTable.version?, hafter]
    exact hraised
  · rw [← hemitted]
    exact outputs_of_mem_polls hm

/-- In every session over dated files that others may edit before any of its calls and between any
two of its steps, each tracked file that is there was last emitted from the very text it has, or
was never dated or is dated after its entered time; and then the next check that still finds it
raises its version and emits it. -/
theorem no_edit_is_lost {inside : Storage σ} (hd : inside.Dated d)
    {p : Platform (Shared d) (Knowledge ρ)} (hp : p.storage = Shared.storage inside)
    {analyst : Analyst (Shared d) ρ} (hs : p.frontEnd.Serves analyst) {config : HostConfig}
    {options : WatchOptions} {world : World (Shared d)}
    {session : Session (Shared d) (Recorded (Knowledge ρ))}
    (hstart : (start p.recorded config options world).1 = .ok session)
    {steps : List (Step (Shared d))}
    (hout : ∀ change, .outside change ∈ steps → ∃ edit, change = Shared.edited edit) :
    let s := play p.recorded steps session
    ∀ f entry file, s.versions.entries.find? f = some entry →
      d.file? s.world.store.store f = some file →
        (∃ output, s.latest? f = some output ∧
            analyst.Gives s.config.options f file.content output) ∨
          (entry.modified = none ∨ ∃ time, entry.modified = some time ∧ time < file.modified) ∧
            NextCheckEmits p (fun change => ∃ edit, change = Shared.edited edit) f entry s := by
  intro s f entry file he hfile
  have hdated : p.storage.Dated (Shared.dating d) := hp ▸ Shared.storage_dated hd
  have hothers : ∀ change : Shared d → Shared d, (∃ edit, change = Shared.edited edit) →
      ∀ t, (Shared.dating d).Ages t (change t) := by
    rintro _ ⟨edit, rfl⟩ t
    exact Shared.ages_edited edit t
  have hgood : Good (Shared.dating d) analyst (fun _ => False) s :=
    good_play hdated hs (fun change hc => hothers change (hout change hc))
      (good_start hdated hs hstart)
  obtain ⟨hfresh, hsettled⟩ := hgood.2 f entry he
  have hnext := fun hstale => nextCheckEmits (f := f) (s := s) hdated hs.looks hothers hfresh.seen hstale
  cases hmodified : entry.modified with
  | none =>
      refine .inr ⟨.inl rfl, hnext fun time ht => ?_⟩
      rw [hmodified] at ht
      cases ht
  | some time =>
      by_cases hlt : time < file.modified
      · refine .inr ⟨.inr ⟨time, rfl, hlt⟩, hnext fun time' ht file' hfile' => ?_⟩
        rw [hmodified] at ht
        cases ht
        have hfile' : d.file? s.world.store.store f = some file' := hfile'
        rw [hfile] at hfile'
        cases hfile'
        exact hlt
      · exact .inl (hsettled id time hmodified file hfile (Int.not_lt.1 hlt))

/-- The line checker over files in memory that others may edit at any moment. -/
def sharedChecker : Platform (Shared Memory.exact.dating) LineChecker.Knowledge :=
  LineChecker.platform (Shared.storage Memory.exact.storage)

/-- A source that others replace in the middle of the first tick: before its time is read, before
its text is read, and again before its output is written. -/
def contested : World (Shared Memory.exact.dating) :=
  let replace text := Memory.Edit.seen Memory.exact Memory.exact (.insert ⟨"/p/a.ts"⟩ text)
  ⟨⟨Memory.exact.withFiles [(⟨"/p/a.ts"⟩, "let a")],
    List.replicate 6 .idle ++ [replace "let b", replace "let c", replace "let d"]⟩, []⟩

def contestedTick : Session (Shared Memory.exact.dating) (Recorded LineChecker.Knowledge) →
    Session (Shared Memory.exact.dating) (Recorded LineChecker.Knowledge) :=
  play sharedChecker.recorded [.tick 300]

theorem no_edit_is_lost_contested :
    ∃ session, (start sharedChecker.recorded (.plain "/p") {} contested).1 = .ok session ∧
      ∃ (entry : VersionEntry) (file : Memory.File),
        (contestedTick session).versions.entries.find? ⟨"/p/a.ts"⟩ = some entry ∧
        Memory.exact.file? (contestedTick session).world.store.store ⟨"/p/a.ts"⟩ = some file ∧
        file.content = "let d" ∧
        ((∃ output, (contestedTick session).latest? ⟨"/p/a.ts"⟩ = some output ∧
            (LineChecker.analyst (σ := Shared Memory.exact.dating)).Gives
              (contestedTick session).config.options ⟨"/p/a.ts"⟩ file.content output) ∨
          (entry.modified = none ∨ ∃ time, entry.modified = some time ∧ time < file.modified) ∧
            NextCheckEmits sharedChecker (fun change => ∃ edit, change = Shared.edited edit)
              ⟨"/p/a.ts"⟩ entry (contestedTick session)) := by
  obtain ⟨session, h, hsome⟩ := exists_start
    (show (start sharedChecker.recorded (.plain "/p") {} contested).1.toOption.any (fun session =>
      ((contestedTick session).versions.version? ⟨"/p/a.ts"⟩).isSome &&
        (Memory.exact.file? (contestedTick session).world.store.store ⟨"/p/a.ts"⟩).any
          (·.content == "let d")) = true by decide +kernel)
  rw [Bool.and_eq_true, VersionTable.version?, Option.isSome_map, Option.isSome_iff_exists,
    Option.any_eq_true] at hsome
  obtain ⟨⟨entry, he⟩, file, hfile, hcontent⟩ := hsome
  exact ⟨session, h, entry, file, he, hfile, beq_iff_eq.1 hcontent,
    no_edit_is_lost (Memory.storage_dated Memory.exact) (p := sharedChecker) rfl
      LineChecker.frontEnd_serves h (by simp) _ entry file he hfile⟩

end Session

end CompileWatch
