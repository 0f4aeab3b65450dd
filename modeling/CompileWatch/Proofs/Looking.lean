import CompileWatch.FrontEnd.LineChecker
import CompileWatch.Platform
import CompileWatch.Proofs.Effect
import CompileWatch.Watch.Sources

/-!
# Who only looks

A front end comes from outside, so nothing can be said of what it finds out.
What the theory needs of it is modest: it asks after files, lists directories
and reads texts, and neither writes nor asks for times. `FrontEnd.OnlyLooks`
says this without naming the questions asked, by what they cannot change:
whatever predicate on file systems is kept by every single look is kept by all
the front end does.

The line checker only looks, a keyed service does if its analyst does, and so
does the search for the sources of a project.
-/

namespace CompileWatch

variable {σ κ ρ : Type} {P : σ → Prop}

/-- No look at the files of a storage takes a predicate away. -/
structure Storage.Looks (storage : Storage σ) (P : σ → Prop) : Prop where
  contains : ∀ path, Keeps P (storage.contains path)
  isDir : ∀ path, Keeps P (storage.isDir path)
  isSymlink : ∀ path, Keeps P (storage.isSymlink path)
  read : ∀ path, Keeps P (storage.read path)
  list : ∀ path, Keeps P (storage.list path)

theorem Storage.Looks.const (storage : Storage σ) (P : Prop) : storage.Looks fun _ => P :=
  ⟨fun _ _ h => h, fun _ _ h => h, fun _ _ h => h, fun _ _ h => h, fun _ _ h => h⟩

theorem Storage.Looks.all.{u} {ι : Sort u} {storage : Storage σ} {P : ι → σ → Prop}
    (h : ∀ i, storage.Looks (P i)) : storage.Looks fun s => ∀ i, P i s where
  contains path s hs i := (h i).contains path s (hs i)
  isDir path s hs i := (h i).isDir path s (hs i)
  isSymlink path s hs i := (h i).isSymlink path s (hs i)
  read path s hs i := (h i).read path s (hs i)
  list path s hs i := (h i).list path s (hs i)

/-- No question to a host takes a predicate away. -/
structure AnalysisHost.Looks (host : AnalysisHost σ) (P : σ → Prop) : Prop where
  scriptSnapshot : ∀ path, Keeps (OfStore P) (host.scriptSnapshot path)
  fileExists : ∀ path, Keeps (OfStore P) (host.fileExists path)
  readText : ∀ path, Keeps (OfStore P) (host.readText path)
  resolveImports : ∀ specifiers path, Keeps (OfStore P) (host.resolveImports specifiers path)

/-- A front end that acts on files through what it is given alone, and only looks. -/
structure FrontEnd.OnlyLooks (fe : FrontEnd σ κ) : Prop where
  resolveModule : ∀ {P : σ → Prop} {storage : Storage σ}, storage.Looks P →
    ∀ options specifier importer, Keeps P (fe.resolveModule options storage specifier importer)
  emitOutput : ∀ {P : σ → Prop} {host : AnalysisHost σ}, host.Looks P →
    ∀ path k, Keeps (OfStore P) ((fe.emitOutput host path).run k)
  diagnostics : ∀ {P : σ → Prop} {host : AnalysisHost σ}, host.Looks P →
    ∀ path k, Keeps (OfStore P) ((fe.diagnostics host path).run k)

def Analyst.OnlyLooks (analyst : Analyst σ ρ) : Prop :=
  ∀ {P : σ → Prop} {host : AnalysisHost σ}, host.Looks P →
    ∀ path text, Keeps (OfStore P) (analyst.study host path text)

/-! ## Module resolution -/

theorem ModuleResolver.keeps_firstExisting {storage : Storage σ} (h : storage.Looks P) :
    ∀ paths, Keeps P (firstExisting storage paths)
  | [] => Keeps.pure _
  | path :: rest => by
      refine (h.contains path).bind fun found => ?_
      cases found
      · exact keeps_firstExisting h rest
      · exact Keeps.pure _

section Resolver

variable {r : ModuleResolver σ} (h : r.storage.Looks P)
  (hnative : ∀ specifier importer, Keeps P (r.native r.options r.storage specifier importer))

include h hnative

theorem ModuleResolver.keeps_resolve (specifier : String) (importer : Path) :
    Keeps P (r.resolve specifier importer) := by
  refine (hnative specifier importer).bind fun found => ?_
  cases found with
  | none => exact (keeps_firstExisting h _).bind fun _ => Keeps.pure _
  | some path => exact Keeps.pure _

theorem ModuleResolver.keeps_resolveAll (importer : Path) :
    ∀ specifiers, Keeps P (r.resolveAll importer specifiers)
  | [] => Keeps.pure _
  | specifier :: rest =>
      (keeps_resolve h hnative specifier importer).bind fun _ =>
        (keeps_resolveAll importer rest).bind fun _ => Keeps.pure _

end Resolver

theorem SessionHost.looks_view (host : SessionHost σ κ) (h : host.storage.Looks P)
    (hfe : host.frontEnd.OnlyLooks) : host.view.Looks P where
  scriptSnapshot path := (Exec.keeps_onStore (h.read path)).bind fun _ => Keeps.pure _
  fileExists path := Exec.keeps_onStore (h.contains path)
  readText path := (Exec.keeps_onStore (h.read path)).bind fun _ => Keeps.pure _
  resolveImports specifiers path := Exec.keeps_onStore
    (ModuleResolver.keeps_resolveAll (r := host.resolver) h (hfe.resolveModule h host.config.options)
      path specifiers)

/-! ## Keyed services -/

/-- An analysis, as an action on the world that threads the knowledge through. -/
theorem Analyst.run_analyze (analyst : Analyst σ ρ) (host : AnalysisHost σ) (path : Path)
    (k : Knowledge ρ) :
    (analyst.analyze host path).run k =
      match host.scriptVersion path with
      | none => pure (none, k)
      | some version =>
        match k.current? path version with
        | some analysis => pure (some analysis, k)
        | none => host.scriptSnapshot path >>= fun
          | none => pure (none, k)
          | some text => analyst.study host path text >>= fun findings =>
            pure (some ⟨version, text, findings⟩, k.learn path ⟨version, text, findings⟩) := by
  unfold analyze
  cases host.scriptVersion path with
  | none => rfl
  | some version =>
      simp only [StateT.run_bind, StateT.run_get, pure_bind]
      cases k.current? path version with
      | some analysis => rfl
      | none =>
          simp only [StateT.run_bind, StateT.run_monadLift, bind_assoc, pure_bind]
          refine bind_congr fun text => ?_
          cases text with
          | none => rfl
          | some text => rfl

theorem Analyst.keeps_analyze {analyst : Analyst σ ρ} (ha : analyst.OnlyLooks)
    {host : AnalysisHost σ} (h : host.Looks P) (path : Path) (k : Knowledge ρ) :
    Keeps (OfStore P) ((analyst.analyze host path).run k) := by
  rw [run_analyze]
  split
  · exact Keeps.pure _
  · split
    · exact Keeps.pure _
    · refine (h.scriptSnapshot path).bind fun text => ?_
      cases text with
      | none => exact Keeps.pure _
      | some text => exact (ha h path text).bind fun _ => Keeps.pure _

def Analyst.outputOf (analyst : Analyst σ ρ) (options : CompilerOptions) (path : Path) :
    Option (Analysis ρ) → EmitOutput
  | none => .skipped
  | some analysis => analyst.output options path analysis.text analysis.findings

theorem Analyst.run_emitOutput (analyst : Analyst σ ρ) (host : AnalysisHost σ) (path : Path)
    (k : Knowledge ρ) :
    (analyst.emitOutput host path).run k = (analyst.analyze host path).run k >>= fun found =>
      pure (analyst.outputOf host.options path found.1, found.2) := by
  unfold emitOutput
  rw [StateT.run_bind]
  refine bind_congr fun found => ?_
  obtain ⟨analysis, k⟩ := found
  cases analysis <;> rfl

theorem Analyst.run_diagnosticsOf (analyst : Analyst σ ρ) (host : AnalysisHost σ) (path : Path)
    (k : Knowledge ρ) :
    (analyst.diagnosticsOf host path).run k = (analyst.analyze host path).run k >>= fun found =>
      pure ((found.1.map fun analysis => analyst.report analysis.findings).getD [], found.2) := rfl

theorem LineChecker.analyst_onlyLooks : (LineChecker.analyst (σ := σ)).OnlyLooks :=
  fun h _ _ => (h.resolveImports _ _).bind fun _ => Keeps.pure _

theorem LineChecker.frontEnd_onlyLooks : (LineChecker.frontEnd (σ := σ)).OnlyLooks where
  resolveModule {_ _} h options specifier importer := by
    show Keeps _ (LineChecker.resolveModule options _ specifier importer)
    unfold LineChecker.resolveModule
    split
    · exact ModuleResolver.keeps_firstExisting h _
    · exact Keeps.pure _
  emitOutput h path k := by
    show Keeps _ ((analyst.emitOutput _ path).run k)
    rw [Analyst.run_emitOutput]
    exact (Analyst.keeps_analyze analyst_onlyLooks h path k).bind fun _ => Keeps.pure _
  diagnostics h path k := by
    show Keeps _ ((analyst.diagnosticsOf _ path).run k)
    rw [Analyst.run_diagnosticsOf]
    exact (Analyst.keeps_analyze analyst_onlyLooks h path k).bind fun _ => Keeps.pure _

/-- The line checker over a storage, on a system without notices of change. -/
def LineChecker.platform (storage : Storage σ) : Platform σ LineChecker.Knowledge :=
  ⟨storage, LineChecker.frontEnd, ⟨"/"⟩, fun _ _ => false⟩

def HostConfig.plain (root : String) : HostConfig := ⟨{}, ⟨root⟩, {}⟩

/-! ## The search for sources -/

namespace Sources

variable {storage : Storage σ} (h : storage.Looks P)

include h

theorem keeps_classify (query : Query) : ∀ entries, Keeps P (classify storage query entries)
  | [] => Keeps.pure _
  | entry :: rest => by
      refine (h.isDir entry).bind fun isDir => ?_
      cases isDir
      · exact (keeps_classify query rest).bind fun _ => Keeps.pure _
      · exact (h.isSymlink entry).bind fun _ =>
          (keeps_classify query rest).bind fun _ => Keeps.pure _

theorem keeps_search (query : Query) :
    ∀ fuel pending found, Keeps (OfStore P) (search storage query fuel pending found)
  | 0, _, _ => Keeps.pure _
  | _ + 1, [], _ => Keeps.pure _
  | fuel + 1, dir :: pending, found => by
      refine (Exec.keeps_onStore (h.list dir)).bind fun listed => ?_
      cases listed with
      | error e =>
          exact (Exec.keeps_report _ _).bind fun _ => keeps_search query fuel _ _
      | ok entries =>
          exact (Exec.keeps_onStore (keeps_classify h query entries)).bind fun _ =>
            keeps_search query fuel _ _

theorem keeps_collect (root : Path) (extension : String) (outDir : Option Path) :
    Keeps (OfStore P) (collect storage root extension outDir) :=
  Keeps.get.bind fun _ => (keeps_search h _ _ _ _).bind fun _ => Keeps.pure _

end Sources

end CompileWatch
