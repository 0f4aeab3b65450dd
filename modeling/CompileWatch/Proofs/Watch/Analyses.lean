import CompileWatch.Proofs.Watch.Steps

/-!
# What a keyed service knows

A keyed service keeps the latest analysis of each file and makes a new one only
when the version of the file is another. Asked for an output or for diagnostics
it comes to an analysis first, in one of four ways (`Analyzes`); which of them,
and what the session is afterwards, is all that the theory needs of it.

Two facts hold whatever the storage does: no analysis is ahead of the version of
its file, and the findings of each come from a study of the text that it names
(`Behind`).
-/

namespace CompileWatch

open CompileWatch.Path

variable {σ ρ : Type}

/-- A front end that is the keyed service of an analyst, and only looks. -/
structure FrontEnd.Serves (fe : FrontEnd σ (Knowledge ρ)) (analyst : Analyst σ ρ) : Prop where
  looks : fe.OnlyLooks
  study : analyst.OnlyLooks
  emitOutput : fe.emitOutput = analyst.emitOutput
  diagnostics : fe.diagnostics = analyst.diagnosticsOf
  initialKnowledge : fe.initialKnowledge = {}

/-- Whether a study of a text, under some spelling of the path of its file, can find something. -/
def Analyst.Finds (analyst : Analyst σ ρ) (options : CompilerOptions) (file : Path) (text : String)
    (findings : ρ) : Prop :=
  ∃ (host : AnalysisHost σ) (path : Path) (world : World σ), host.options = options ∧
    path.same file = true ∧ answer (analyst.study host path text) world = findings

theorem LineChecker.frontEnd_serves :
    (LineChecker.frontEnd (σ := σ)).Serves LineChecker.analyst :=
  ⟨frontEnd_onlyLooks, analyst_onlyLooks, rfl, rfl, rfl⟩

/-- What a service knows of a file is not ahead of its version, and was found in the text that it
names. -/
structure Behind (analyst : Analyst σ ρ) (options : CompilerOptions) (file : Path)
    (entry : VersionEntry) (k : Knowledge ρ) : Prop where
  version : ∀ a, k.analyses.find? file = some a → a.version ≤ entry.version
  found : ∀ a, k.analyses.find? file = some a → analyst.Finds options file a.text a.findings

namespace Session

variable {p : Platform σ (Knowledge ρ)} {analyst : Analyst σ ρ}

section Analyses

variable (p : Platform σ (Knowledge ρ)) (analyst : Analyst σ ρ) (path : Path)
  (s : Session σ (Knowledge ρ))

/-- The analysis of a file that an emission in a session rests on. -/
def analyzing : Exec σ (Option (Analysis ρ) × Knowledge ρ) :=
  (analyst.analyze (s.serviceHost p) path).run s.knowledge

def analysis? : Option (Analysis ρ) := (answer (s.analyzing p analyst path) s.world).1

/-- The session after that analysis. -/
def analyzed : Session σ (Knowledge ρ) :=
  { s with
    world := after (s.analyzing p analyst path) s.world
    knowledge := (answer (s.analyzing p analyst path) s.world).2 }

/-- The session that has read the text of a file. -/
def textRead : Session σ (Knowledge ρ) := after (onStore (p.storage.read path)) s

/-- What the study of a text finds in a session. -/
def studying (text : String) : Exec σ ρ := analyst.study (s.serviceHost p) path text

def newAnalysis (version : Nat) (text : String) : Analysis ρ :=
  ⟨version, text, answer (s.studying p analyst path text) (s.textRead p path).world⟩

/-- The session that has made a new analysis. -/
def learned (version : Nat) (text : String) : Session σ (Knowledge ρ) :=
  { s with
    world := after (s.studying p analyst path text) (s.textRead p path).world
    knowledge := s.knowledge.learn path (s.newAnalysis p analyst path version text) }

end Analyses

/-- How a session comes to an analysis of a file: the file is not tracked; its present version is
known; its text cannot be read; or the text is read and studied. -/
inductive Analyzes (p : Platform σ (Knowledge ρ)) (analyst : Analyst σ ρ) (path : Path)
    (s : Session σ (Knowledge ρ)) : Option (Analysis ρ) → Session σ (Knowledge ρ) → Prop
  | untracked : s.versions.version? path = none → Analyzes p analyst path s none s
  | known {version : Nat} {a : Analysis ρ} : s.versions.version? path = some version →
      s.knowledge.current? path version = some a → Analyzes p analyst path s (some a) s
  | unread {version : Nat} : s.versions.version? path = some version →
      s.knowledge.current? path version = none →
      (answer (p.storage.read path) s.world.store).toOption = none →
      Analyzes p analyst path s none (s.textRead p path)
  | studied {version : Nat} {text : String} : s.versions.version? path = some version →
      s.knowledge.current? path version = none →
      (answer (p.storage.read path) s.world.store).toOption = some text →
      Analyzes p analyst path s (some (s.newAnalysis p analyst path version text))
        (s.learned p analyst path version text)

theorem analyzes (p : Platform σ (Knowledge ρ)) (analyst : Analyst σ ρ) (path : Path)
    (s : Session σ (Knowledge ρ)) :
    Analyzes p analyst path s (s.analysis? p analyst path) (s.analyzed p analyst path) := by
  have hv : (s.serviceHost p).scriptVersion path = s.versions.version? path := rfl
  unfold analysis? analyzed analyzing
  rw [Analyst.run_analyze, hv]
  cases hversion : s.versions.version? path with
  | none => exact .untracked hversion
  | some version =>
      simp only
      cases hknown : s.knowledge.current? path version with
      | some a => exact .known hversion hknown
      | none =>
          have hread : answer ((s.serviceHost p).scriptSnapshot path) s.world =
              (answer (p.storage.read path) s.world.store).toOption := rfl
          simp only [answer_bind, after_bind, hread]
          cases htext : (answer (p.storage.read path) s.world.store).toOption with
          | none => exact .unread hversion hknown htext
          | some text => exact .studied hversion hknown htext

theorem Analyzes.unique {path : Path} {s t u : Session σ (Knowledge ρ)}
    {found other : Option (Analysis ρ)} (h : Analyzes p analyst path s found t)
    (h' : Analyzes p analyst path s other u) : other = found ∧ u = t := by
  cases h with
  | untracked hv =>
      cases h' with
      | untracked _ => exact ⟨rfl, rfl⟩
      | known hv' _ | unread hv' _ _ | studied hv' _ _ => cases hv.symm.trans hv'
  | known hv hknown =>
      cases h' with
      | untracked hv' => cases hv.symm.trans hv'
      | known hv' hknown' =>
          cases hv.symm.trans hv'
          exact ⟨hknown'.symm.trans hknown, rfl⟩
      | unread hv' hnew _ | studied hv' hnew _ =>
          cases hv.symm.trans hv'
          cases hnew.symm.trans hknown
  | unread hv hnew hnone =>
      cases h' with
      | untracked hv' => cases hv.symm.trans hv'
      | known hv' hknown =>
          cases hv.symm.trans hv'
          cases hnew.symm.trans hknown
      | unread _ _ _ => exact ⟨rfl, rfl⟩
      | studied _ _ hsome => cases hsome.symm.trans hnone
  | studied hv hnew hsome =>
      cases h' with
      | untracked hv' => cases hv.symm.trans hv'
      | known hv' hknown =>
          cases hv.symm.trans hv'
          cases hnew.symm.trans hknown
      | unread _ _ hnone => cases hsome.symm.trans hnone
      | studied hv' _ hsome' =>
          cases hv.symm.trans hv'
          cases hsome.symm.trans hsome'
          exact ⟨rfl, rfl⟩

/-! ## Asking the service -/

section Asking

variable (hs : p.frontEnd.Serves analyst) (path : Path) (s : Session σ (Knowledge ρ))

include hs

theorem after_askOutput : after (askOutput p path) s = s.analyzed p analyst path := by
  unfold askOutput
  rw [after_askService, hs.emitOutput, Analyst.run_emitOutput]
  rfl

theorem answer_askOutput : answer (askOutput p path) s =
    analyst.outputOf s.config.options path (s.analysis? p analyst path) := by
  unfold askOutput
  rw [answer_askService, hs.emitOutput, Analyst.run_emitOutput]
  rfl

theorem answer_askDiagnostics : answer (askDiagnostics p path) s =
    ((s.analysis? p analyst path).map fun a => analyst.report a.findings).getD [] := by
  unfold askDiagnostics
  rw [answer_askService, hs.diagnostics, Analyst.run_diagnosticsOf]
  rfl

theorem after_askDiagnostics : after (askDiagnostics p path) s = s.analyzed p analyst path := by
  unfold askDiagnostics
  rw [after_askService, hs.diagnostics, Analyst.run_diagnosticsOf]
  rfl

end Asking

/-! ## Analyses follow versions -/

theorem Behind.analyzes {path f : Path} {s t : Session σ (Knowledge ρ)}
    {found : Option (Analysis ρ)} (h : Analyzes p analyst path s found t) {entry : VersionEntry}
    (he : s.versions.entries.find? f = some entry)
    (hb : Behind analyst s.config.options f entry s.knowledge) :
    Behind analyst s.config.options f entry t.knowledge := by
  cases h with
  | untracked _ => exact hb
  | known _ _ => exact hb
  | unread _ _ _ => exact hb
  | @studied version text hv _ _ =>
      have hfind : ∀ a, (s.learned p analyst path version text).knowledge.analyses.find? f = some a →
          path.same f = true ∧ a = s.newAnalysis p analyst path version text ∨
            s.knowledge.analyses.find? f = some a := by
        intro a ha
        have ha : (s.knowledge.analyses.set path (s.newAnalysis p analyst path version text)).find? f =
          some a := ha
        rw [Table.find?_set] at ha
        split at ha
        · next hsame => exact .inl ⟨hsame, (Option.some.inj ha).symm⟩
        · exact .inr ha
      refine ⟨fun a ha => ?_, fun a ha => ?_⟩
      · rcases hfind a ha with ⟨hsame, rfl⟩ | hold
        · rw [VersionTable.version?, Table.find?_congr _ hsame, he]
            at hv
          cases hv
          exact Nat.le_refl _
        · exact hb.version a hold
      · rcases hfind a ha with ⟨hsame, rfl⟩ | hold
        · exact ⟨_, _, _, rfl, hsame, rfl⟩
        · exact hb.found a hold

/-- What is known of the tracked files is not ahead of their versions. -/
def AllBehind (analyst : Analyst σ ρ) (s : Session σ (Knowledge ρ)) : Prop :=
  ∀ f entry, s.versions.entries.find? f = some entry →
    Behind analyst s.config.options f entry s.knowledge

section Runs

variable (hs : p.frontEnd.Serves analyst)

theorem allBehind_analyzed (path : Path) {s : Session σ (Knowledge ρ)} (h : AllBehind analyst s) :
    AllBehind analyst (s.analyzed p analyst path) :=
  fun f entry he => Behind.analyzes (s.analyzes p analyst path) he (h f entry he)

theorem allBehind_enter {path : Path} {s : Session σ (Knowledge ρ)} (h : AllBehind analyst s)
    {entry : VersionEntry} {time : Timestamp} (hc : change? p path s = some (entry, time)) :
    AllBehind analyst (enter path entry time (timed p path s)) := by
  intro f e he
  have he : (s.versions.entries.set path ⟨entry.version + 1, some time⟩).find? f = some e := he
  rw [Table.find?_set] at he
  split at he
  · next hsame =>
    cases he
    obtain ⟨_, hfound, _⟩ := change?_eq_some hc
    rw [Table.find?_congr _ hsame] at hfound
    exact ⟨fun a ha => Nat.le_succ_of_le ((h f entry hfound).version a ha), (h f entry hfound).found⟩
  · exact h f e he

include hs

theorem emissionRule_allBehind (path : Path) :
    EmissionRule p path (AllBehind analyst) (AllBehind analyst) fun _ => True where
  output s h := after_askOutput hs path s ▸ allBehind_analyzed path h
  artifacts _ _ _ _ := trivial
  diagnostics s h := after_askDiagnostics hs path s ▸ allBehind_analyzed path h
  write _ _ _ h := h
  reports _ _ _ h := h

theorem keeps_check_allBehind (path : Path) : Keeps (AllBehind analyst) (check p path) :=
  keeps_check (emissionRule_allBehind hs path) (fun _ h _ => h) fun _ _ _ h hc => allBehind_enter h hc

theorem keeps_act_allBehind (step : Step σ) : Keeps (AllBehind analyst) (step.act p) :=
  keeps_act (fun _ _ _ _ h => h) (fun _ _ _ h => h) (keeps_check_allBehind hs)
    (fun path _ h => (emissionRule_allBehind hs path).emitFile h) fun _ _ _ h => h

theorem allBehind_of_initial {s : Session σ (Knowledge ρ)}
    (h : s.knowledge = p.frontEnd.initialKnowledge) : AllBehind analyst s := by
  intro f entry _
  have hnone : ∀ a, s.knowledge.analyses.find? f ≠ some a := by
    rw [h, hs.initialKnowledge]
    exact fun a ha => by cases ha
  exact ⟨fun a ha => absurd ha (hnone a), fun a ha => absurd ha (hnone a)⟩

/-- In every session over a keyed service, whatever its storage does. -/
theorem allBehind_play {config : HostConfig} {options : WatchOptions} {world : World σ}
    {session : Session σ (Knowledge ρ)} (hstart : (start p config options world).1 = .ok session)
    (steps : List (Step σ)) : AllBehind analyst (play p steps session) := by
  refine keeps_play (fun step _ => keeps_act_allBehind hs step) session ?_
  obtain ⟨files, found, journal, -, rfl⟩ := start_ok hstart
  exact keeps_begin (fun _ _ _ _ h => h) (fun _ _ _ h => h)
    (fun path _ s h => (emissionRule_allBehind hs path).emitLogged h) _ (allBehind_of_initial hs rfl)

end Runs

end Session

end CompileWatch
