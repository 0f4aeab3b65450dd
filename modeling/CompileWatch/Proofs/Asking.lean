import CompileWatch.Proofs.Storage.Traced

/-!
# Who only asks

The parties that only look (`FrontEnd.OnlyLooks`) are known there by what they
keep. Here they are known by what they ask: over a traced storage, what they
answer rests on the answers to their calls and on nothing else that a storage
holds. A host asks in this way if the native resolution does, and a keyed
service if its analyst does, which that of the line checker does.

Nothing is said here of which calls are made, but for their kinds. That is left
to the trace of each run.
-/

namespace CompileWatch

variable {σ κ ρ : Type} {inside : Storage σ} {may : Call → Prop}

/-- A native resolution that only asks. -/
def NativeResolution.OnlyAsks (inside : Storage σ) (may : Call → Prop)
    (native : NativeResolution (Traced σ)) : Prop :=
  ∀ options specifier importer,
    Asks inside may id (native options (Traced.storage inside) specifier importer)

section Probes

variable (hstill : inside.Still) (hprobe : ∀ call, call.IsProbe → may call)

include hstill hprobe

/-! ## Module resolution -/

namespace ModuleResolver

theorem asks_firstExisting :
    ∀ paths, Asks inside may id (firstExisting (Traced.storage inside) paths)
  | [] => .pure none
  | path :: rest => by
      refine (hstill.asks_contains path (hprobe _ trivial)).bind fun found => ?_
      cases found
      · exact asks_firstExisting rest
      · exact .pure _

section Resolver

variable {r : ModuleResolver (Traced σ)} (hr : r.storage = Traced.storage inside)

include hr

theorem asks_resolveFallback (specifier : String) :
    Asks inside may id (r.resolveFallback specifier) := by
  unfold resolveFallback
  rw [hr]
  exact (asks_firstExisting hstill hprobe _).bind fun _ => .pure _

variable (hnative : r.native.OnlyAsks inside may)

include hnative

theorem asks_resolve (specifier : String) (importer : Path) :
    Asks inside may id (r.resolve specifier importer) := by
  refine Asks.bind ?_ fun found => ?_
  · rw [hr]
    exact hnative r.options specifier importer
  · cases found with
    | none => exact asks_resolveFallback hstill hprobe hr specifier
    | some path => exact .pure _

theorem asks_resolveAll (importer : Path) : ∀ specifiers,
    Asks inside may id (r.resolveAll importer specifiers)
  | [] => .pure _
  | specifier :: rest =>
      (asks_resolve hstill hprobe hr hnative specifier importer).bind fun _ =>
        (asks_resolveAll importer rest).bind fun _ => .pure _

end Resolver

end ModuleResolver

/-! ## Hosts -/

section ProjectHost

variable {host : ProjectHost (Traced σ) κ} (hstorage : host.storage = Traced.storage inside)

include hstorage

theorem ProjectHost.asks_parse (file : Path) (target : ScriptTarget) :
    Asks inside may World.store (host.parse file target) := by
  unfold ProjectHost.parse ProjectHost.fileExists
  rw [hstorage]
  refine (hstill.asks_contains file (hprobe _ trivial)).onStore.bind fun found => ?_
  split
  · refine (hstill.asks_read file (hprobe _ trivial)).onStore.bind fun text => ?_
    cases text with
    | ok text => exact .pure _
    | error e => exact .pure _
  · exact .pure _

theorem ProjectHost.asks_readSource (file : Path) (target : ScriptTarget) :
    Asks inside may World.store (host.readSource file target) := by
  refine (ProjectHost.asks_parse hstill hprobe hstorage file target).bind fun parsed => ?_
  cases parsed with
  | ok unit? => exact .pure _
  | error e => exact (Asks.report _ _).bind fun _ => .pure _

theorem ProjectHost.asks_readSourceRelative (name : Path) (target : ScriptTarget) :
    Asks inside may World.store (host.readSourceRelative name target) := by
  refine (ProjectHost.asks_parse hstill hprobe hstorage _ target).bind fun parsed => ?_
  rcases parsed with e | (_ | unit)
  · exact .pure _
  · exact .pure _
  · exact .pure _

theorem ProjectHost.asks_resolveImports (hnative : host.frontEnd.resolveModule.OnlyAsks inside may)
    (specifiers : List String) (importer : Path) :
    Asks inside may World.store (host.resolveImports specifiers importer) :=
  (ModuleResolver.asks_resolveAll hstill hprobe (r := host.resolver) hstorage hnative importer
    specifiers).onStore

end ProjectHost

end Probes

/-- A host whose every question only asks. -/
structure AnalysisHost.OnlyAsks (inside : Storage σ) (may : Call → Prop)
    (host : AnalysisHost (Traced σ)) : Prop where
  scriptSnapshot : ∀ path, Asks inside may World.store (host.scriptSnapshot path)
  fileExists : ∀ path, Asks inside may World.store (host.fileExists path)
  readText : ∀ path, Asks inside may World.store (host.readText path)
  resolveImports : ∀ specifiers path,
    Asks inside may World.store (host.resolveImports specifiers path)

theorem SessionHost.onlyAsks_view (hstill : inside.Still) (hprobe : ∀ call, call.IsProbe → may call)
    {host : SessionHost (Traced σ) κ} (hstorage : host.storage = Traced.storage inside)
    (hnative : host.frontEnd.resolveModule.OnlyAsks inside may) :
    host.view.OnlyAsks inside may := by
  have hread : ∀ path, Asks inside may World.store (host.readText path) := by
    intro path
    unfold SessionHost.readText
    rw [hstorage]
    exact (hstill.asks_read path (hprobe _ trivial)).onStore.bind fun _ => .pure _
  refine ⟨hread, fun path => ?_, hread, fun specifiers path => ?_⟩
  · show Asks inside may World.store (host.fileExists path)
    unfold SessionHost.fileExists
    rw [hstorage]
    exact (hstill.asks_contains path (hprobe _ trivial)).onStore
  · exact (ModuleResolver.asks_resolveAll hstill hprobe (r := host.resolver) hstorage hnative path
      specifiers).onStore

/-! ## Front ends -/

/-- An analyst whose studies only ask. -/
def Analyst.OnlyAsks (inside : Storage σ) (may : Call → Prop) (analyst : Analyst (Traced σ) ρ) :
    Prop :=
  ∀ {host : AnalysisHost (Traced σ)}, host.OnlyAsks inside may →
    ∀ path text, Asks inside may World.store (analyst.study host path text)

namespace LineChecker

theorem asks_check {resolveImports : List String → Path →
      Exec (Traced σ) (List (Option ResolvedModule))}
    (h : ∀ specifiers path, Asks inside may World.store (resolveImports specifiers path))
    (file : Path) (text : String) :
    Asks inside may World.store (check resolveImports file text) :=
  (h _ file).bind fun _ => .pure _

theorem analyst_onlyAsks : (analyst (σ := Traced σ)).OnlyAsks inside may :=
  fun h path text => asks_check h.resolveImports path text

theorem resolveModule_onlyAsks (hstill : inside.Still)
    (hprobe : ∀ call, call.IsProbe → may call) :
    NativeResolution.OnlyAsks inside may (resolveModule (σ := Traced σ)) := by
  intro options specifier importer
  unfold resolveModule
  split
  · exact ModuleResolver.asks_firstExisting hstill hprobe _
  · exact .pure _

end LineChecker

end CompileWatch
