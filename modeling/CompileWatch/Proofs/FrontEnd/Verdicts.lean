import CompileWatch.Proofs.Build.Rebuilt

/-!
# What a source comes to

The line checker judges a source by its text and by the answers to the questions
that it asks about its imports. Over files in memory both rest on the store alone,
so a store fixes what is said of each of its files (`verdict`) and which artifacts
are made of it (`artifactsIn`). Builds and sessions ask in different ways, at different
times, and come to nothing else.
-/

namespace CompileWatch

open CompileWatch.Path Memory

theorem Call.Alike.symm {σ : Type} {inside : Storage σ} {s t : σ} {call : Call}
    (h : call.Alike inside s t) : call.Alike inside t s := by
  cases call with
  | write path made => exact fun content => (h content).symm
  | contains _ | isDir _ | isSymlink _ | read _ | list _ | modified _ => exact Eq.symm h

/-! ## Answers over a store -/

/-- Over a store an action gives an answer, and it changes no file. -/
def Answers {α : Type} (s : Store) (x : Exec (Traced Store) α) (a : α) : Prop :=
  ∀ w : World (Traced Store), w.store.inner = s → answer x w = a ∧ (after x w).store.inner = s

namespace Answers

variable {α β : Type} {s : Store} {x : Exec (Traced Store) α} {a : α}

protected theorem pure (a : α) : Answers s (pure a) a := fun _ hw => ⟨rfl, hw⟩

protected theorem bind {f : α → Exec (Traced Store) β} {b : β} (hx : Answers s x a)
    (hf : Answers s (f a) b) : Answers s (x >>= f) b := by
  intro w hw
  obtain ⟨hanswer, hafter⟩ := hx w hw
  rw [answer_bind, after_bind, hanswer]
  exact hf _ hafter

theorem of_asks {h : Handle} {may : Call → Prop} (hx : Asks h.storage may World.store x)
    {w : World (Traced Store)} (hw : w.store.inner = s) : Answers s x (answer x w) := by
  obtain ⟨asked, hasked⟩ := hx w
  intro v hv
  obtain ⟨hanswer, hafter⟩ := hasked.again v fun call _ => by
    rw [hv, hw]
    exact .refl _ _ call
  refine ⟨hanswer, ?_⟩
  rw [hafter]
  exact hv

end Answers

namespace LineChecker

section Verdicts

variable (h : Handle) (config : HostConfig)

/-- The modules of a project with files in memory. -/
def resolver : ModuleResolver (Traced Store) :=
  ⟨resolveModule, Traced.storage h.storage, config.options, config.fallback⟩

/-- The check of a text with the modules of a project. -/
def checking (file : Path) (text : String) : Exec (Traced Store) (List Diagnostic) :=
  check
    (fun specifiers importer => Exec.onStore ((resolver h config).resolveAll importer specifiers))
    file text

theorem asks_checking (file : Path) (text : String) :
    Asks h.storage Call.IsProbe World.store (checking h config file text) :=
  asks_check (fun specifiers importer =>
    (ModuleResolver.asks_resolveAll (fun _ => h.looks_storage _) (fun _ hcall => hcall)
      (r := resolver h config) rfl
      (resolveModule_onlyAsks (fun _ => h.looks_storage _) fun _ hcall => hcall)
      importer specifiers).onStore) file text

variable (s : Store) (file : Path)

/-- The text of a file that is there. -/
def textIn : String := (h.read file s).toOption.getD ""

/-- What there is to say about a file of a store. -/
def verdict : List Diagnostic := answer (checking h config file (textIn h s file)) ⟨⟨s, []⟩, []⟩

/-- The artifacts of a file of a store. -/
def artifactsIn : List Artifact := artifacts config.options file (textIn h s file)

/-- Whether a file of a store can be read, and is not refused. -/
structure Passes : Prop where
  read : h.read file s = .ok (textIn h s file)
  passed : refuses config.options (textIn h s file) (verdict h config s file) = false

end Verdicts

variable {h : Handle} {config : HostConfig} {s : Store} {file : Path}

theorem textIn_eq {text : String} (hread : h.read file s = .ok text) : textIn h s file = text := by
  rw [textIn, hread]
  rfl

theorem answers_checking :
    Answers s (checking h config file (textIn h s file)) (verdict h config s file) :=
  .of_asks (asks_checking h config file _) rfl

/-- A check finds what it would find over a store, wherever its questions are answered as they are
there. -/
theorem exists_checking (h : Handle) (config : HostConfig) (s : Store) (file : Path) (text : String)
    (w : World (Traced Store)) : ∃ asked : List Call,
    (after (checking h config file text) w).store = ⟨w.store.inner, w.store.calls ++ asked⟩ ∧
      ((∀ call ∈ asked, call.IsProbe → call.Alike h.storage s w.store.inner) →
        answer (checking h config file text) w =
          answer (checking h config file text) ⟨⟨s, []⟩, []⟩) := by
  obtain ⟨asked, hasked⟩ := asks_checking h config file text w
  refine ⟨asked, hasked.store_after, fun halike => ?_⟩
  obtain ⟨hanswer, -⟩ := hasked.again ⟨⟨s, []⟩, []⟩ fun call hcall =>
    (halike call hcall (hasked.allowed call hcall)).symm
  exact hanswer.symm

end LineChecker

end CompileWatch
