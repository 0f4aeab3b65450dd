import CompileWatch.Proofs.Storage.Ledger
import CompileWatch.Proofs.Watch.Steps

/-!
# What an emission tells

An emission tells its diagnostics first and then exactly one thing more: what it
has emitted, or that a write has failed. Which of the two it is depends on the
writes alone, so a block of events is given together with the writes that belong
to it, the failed one included.

The notes of a ledger and the events of a session are two records that do not
mention each other. `Between` reads both over the same stretch of a run, so that
a block and its writes can be compared without knowing when either was made.

Nothing else makes an emission fail. A text that cannot be read is no text to the
language service, which then has no output to give, and the emission is told as a
skipped one.
-/

namespace CompileWatch

open CompileWatch.Path

/-- The writes among some notes in the order of time, and whether each has failed. -/
def writes (notes : List Note) : List (Path × Bool) :=
  notes.reverse.filterMap fun
    | .write path failed => some (path, failed)
    | _ => none

theorem writes_append (later earlier : List Note) :
    writes (later ++ earlier) = writes earlier ++ writes later := by
  rw [writes, List.reverse_append, List.filterMap_append]
  rfl

theorem mem_writes {path : Path} {failed : Bool} {notes : List Note} :
    (path, failed) ∈ writes notes ↔ .write path failed ∈ notes := by
  simp only [writes, List.mem_filterMap, List.mem_reverse]
  constructor
  · rintro ⟨note, hn, h⟩
    split at h
    · cases h
      exact hn
    · cases h
  · exact fun h => ⟨_, h, rfl⟩

/-- Whether the writes noted since some first notes are the given ones. -/
def Ledger.Wrote {σ : Type} (base : List Note) (made : List (Path × Bool)) (l : Ledger σ) : Prop :=
  ∃ later, l.notes = later ++ base ∧ writes later = made

namespace Ledger.Wrote

variable {σ : Type} {base mid : List Note} {made more : List (Path × Bool)} {l : Ledger σ}

theorem refl (l : Ledger σ) : Wrote l.notes [] l := ⟨[], rfl, rfl⟩

theorem note (h : Wrote base made l) (note : Note) (inner : σ) :
    Wrote base (made ++ writes [note]) ⟨inner, note :: l.notes⟩ := by
  obtain ⟨later, hn, hm⟩ := h
  refine ⟨note :: later, congrArg (note :: ·) hn, ?_⟩
  rw [← hm]
  exact writes_append [note] later

theorem trans {k : Ledger σ} (h : Wrote base made k) (h' : Wrote k.notes more l) :
    Wrote base (made ++ more) l := by
  obtain ⟨later, hn, hm⟩ := h
  obtain ⟨later', hn', hm'⟩ := h'
  refine ⟨later' ++ later, ?_, ?_⟩
  · rw [hn', hn, List.append_assoc]
  · rw [writes_append, hm, hm']

end Ledger.Wrote

theorem Ledger.looks_wrote {σ : Type} (inside : Storage σ) (base : List Note)
    (made : List (Path × Bool)) : (storage inside).Looks (Wrote base made) where
  contains _ _ h := h
  isDir _ _ h := h
  isSymlink _ _ h := h
  read path l h := by
    have hnote := h.note (.read path (failed (answer (inside.read path) l.inner)))
      (after (inside.read path) l.inner)
    rwa [show writes [.read path _] = [] from rfl, List.append_nil] at hnote
  list _ _ h := h

/-! ## Blocks -/

/-- How an emission ends. -/
inductive Outcome where
  /-- The front end has given nothing to write. -/
  | skipped
  /-- All artifacts are written. -/
  | emitted (written : List Path)
  /-- The write of an artifact has failed after others had been written. -/
  | failed (written : List Path) (path : Path) (cause : FsError)

/-- One emission of a file: what there was to say of it, and how it ended. -/
structure Block where
  file : Path
  diagnostics : List Diagnostic
  outcome : Outcome

namespace Block

def closing (b : Block) : WatchEvent :=
  match b.outcome with
  | .skipped => .emitted b.file.text [] true
  | .emitted written => .emitted b.file.text (written.map (·.text)) false
  | .failed _ path cause => .error s!"{b.file.text}: {(HostError.write path cause).message}"

def told (b : Block) : List WatchEvent := b.diagnostics.map .ofDiagnostic ++ [b.closing]

/-- The writes of a block, and whether each has failed. -/
def made (b : Block) : List (Path × Bool) :=
  match b.outcome with
  | .skipped => []
  | .emitted written => written.map (·, false)
  | .failed written path _ => written.map (·, false) ++ [(path, true)]

end Block

namespace Session

variable {σ κ : Type} {p : Platform (Ledger σ) κ} {inside : Storage σ}

/-- From one session to a later one: the events told meanwhile, and the writes made. -/
structure Between (s t : Session (Ledger σ) κ) (told : List WatchEvent)
    (made : List (Path × Bool)) : Prop where
  events : t.events = s.events ++ told
  wrote : Ledger.Wrote s.world.store.notes made t.world.store

namespace Between

variable {s t u : Session (Ledger σ) κ} {told more : List WatchEvent}
  {made further : List (Path × Bool)}

theorem refl (s : Session (Ledger σ) κ) : Between s s [] [] :=
  ⟨(List.append_nil _).symm, .refl _⟩

theorem trans (h : Between s t told made) (h' : Between t u more further) :
    Between s u (told ++ more) (made ++ further) where
  events := by rw [h'.events, h.events, List.append_assoc]
  wrote := h.wrote.trans h'.wrote

/-- Some writes of which nothing is told. -/
theorem quietly (h : Between s t told made) (h' : Between t u [] further) :
    Between s u told (made ++ further) := by
  have htrans := h.trans h'
  rwa [List.append_nil] at htrans

theorem tell (h : Between s t told made) (event : WatchEvent) :
    Between s (after (notify event) t) (told ++ [event]) made where
  events := by
    show t.events ++ [event] = _
    rw [h.events, List.append_assoc]
  wrote := h.wrote

theorem report (h : Between s t told made) (level : LogLevel) (message : String) :
    Between s (after (onWorld (Exec.report level message)) t) told made := ⟨h.events, h.wrote⟩

end Between

/-! ## The parts of an emission -/

theorem between_surface {s : Session (Ledger σ) κ} :
    ∀ {diagnostics : List Diagnostic} {t : Session (Ledger σ) κ} {told : List WatchEvent}
      {made : List (Path × Bool)}, Between s t told made →
        Between s (after (surface diagnostics) t) (told ++ diagnostics.map .ofDiagnostic) made
  | [], _, _, _, h => by
      rw [List.map_nil, List.append_nil]
      exact h
  | d :: rest, _, _, _, h => by
      rw [List.map_cons, List.append_cons]
      exact between_surface ((h.report _ _).tell (.ofDiagnostic d))

section Parts

variable (hp : p.storage = Ledger.storage inside)

include hp

theorem looks_wrote {base : List Note} {made : List (Path × Bool)} :
    p.storage.Looks (Ledger.Wrote base made) := hp ▸ Ledger.looks_wrote inside base made

theorem between_writeArtifacts : ∀ (artifacts : List Artifact) (s : Session (Ledger σ) κ),
    (∃ written, answer (writeArtifacts p.storage artifacts) s = .ok written ∧
      Between s (after (writeArtifacts p.storage artifacts) s) [] (written.map (·, false))) ∨
    ∃ (written : List Path) (path : Path) (cause : FsError),
      answer (writeArtifacts p.storage artifacts) s = .error (.write path cause) ∧
      Between s (after (writeArtifacts p.storage artifacts) s) []
        (written.map (·, false) ++ [(path, true)])
  | [], s => .inl ⟨[], rfl, .refl s⟩
  | a :: rest, s => by
      have hfirst : Between s (after (onStore (p.storage.write a.path a.content)) s) []
          [(a.path, Ledger.failed (answer (onStore (p.storage.write a.path a.content)) s))] := by
        rw [hp]
        exact ⟨(List.append_nil _).symm, (Ledger.Wrote.refl _).note (.write a.path _) _⟩
      unfold writeArtifacts
      rw [answer_bind, after_bind]
      cases ha : answer (onStore (p.storage.write a.path a.content)) s with
      | error cause =>
          rw [ha] at hfirst
          exact .inr ⟨[], a.path, cause, rfl, hfirst⟩
      | ok _ =>
          rw [ha] at hfirst
          rcases between_writeArtifacts rest (after (onStore (p.storage.write a.path a.content)) s)
            with ⟨written, hw, hb⟩ | ⟨written, path, cause, hw, hb⟩
          · refine .inl ⟨a.path :: written, ?_, hfirst.trans hb⟩
            show (answer (writeArtifacts p.storage rest) _).map _ = _
            rw [hw]
            rfl
          · refine .inr ⟨a.path :: written, path, cause, ?_, hfirst.trans hb⟩
            show (answer (writeArtifacts p.storage rest) _).map _ = _
            rw [hw]
            rfl

/-- An output is skipped, or written to its end, or written until a write fails. -/
theorem between_deliver (output : EmitOutput) (s : Session (Ledger σ) κ) :
    (output.emitSkipped = true ∧ answer (deliver p output) s = .ok [] ∧
      Between s (after (deliver p output) s) [] []) ∨
    (output.emitSkipped = false ∧ ∃ written : List Path, answer (deliver p output) s = .ok written ∧
      Between s (after (deliver p output) s) [] (written.map (·, false))) ∨
    ∃ (written : List Path) (path : Path) (cause : FsError),
      answer (deliver p output) s = .error (.write path cause) ∧
      Between s (after (deliver p output) s) [] (written.map (·, false) ++ [(path, true)]) := by
  unfold deliver
  cases hskip : output.emitSkipped with
  | true => exact .inl ⟨rfl, rfl, (Between.refl s).report _ _⟩
  | false =>
      rcases between_writeArtifacts hp output.artifacts s with
        ⟨written, ha, hb⟩ | ⟨written, path, cause, ha, hb⟩
      · exact .inr (.inl ⟨rfl, written, ha, hb⟩)
      · exact .inr (.inr ⟨written, path, cause, ha, hb⟩)

variable (hfe : p.frontEnd.OnlyLooks)

include hfe

theorem between_askOutput (path : Path) (s : Session (Ledger σ) κ) :
    Between s (after (askOutput p path) s) [] [] where
  events := (List.append_nil _).symm
  wrote := keeps_askOutput (looks_wrote hp) hfe path s (Ledger.Wrote.refl s.world.store)

theorem between_askDiagnostics (path : Path) {s t : Session (Ledger σ) κ} {told : List WatchEvent}
    {made : List (Path × Bool)} (h : Between s t told made) :
    Between s (after (askDiagnostics p path) t) told made where
  events := h.events
  wrote := keeps_askDiagnostics (looks_wrote hp) hfe path t h.wrote

theorem between_surfaced (file : Path) (s : Session (Ledger σ) κ) :
    Between s (surfaced p file s) ((said p file s).map .ofDiagnostic) [] :=
  between_surface (between_askDiagnostics hp hfe file (between_askOutput hp hfe file s))

theorem block_emitLogged (file : Path) (s : Session (Ledger σ) κ) :
    ∃ b : Block, b.file = file ∧ Between s (after (emitLogged p file) s) b.told b.made := by
  have hsaid := between_surfaced hp hfe file s
  rw [after_emitLogged]
  rcases between_deliver hp (answer (askOutput p file) s) (surfaced p file s) with
    ⟨hskip, ha, hb⟩ | ⟨hskip, written, ha, hb⟩ | ⟨written, path, cause, ha, hb⟩
  · refine ⟨⟨file, said p file s, .skipped⟩, rfl, ?_⟩
    rw [ha, hskip]
    exact (hsaid.quietly hb).tell _
  · refine ⟨⟨file, said p file s, .emitted written⟩, rfl, ?_⟩
    rw [ha, hskip]
    exact (hsaid.quietly hb).tell _
  · refine ⟨⟨file, said p file s, .failed written path cause⟩, rfl, ?_⟩
    rw [ha]
    exact ((hsaid.quietly hb).report _ _).tell _

end Parts

end Session

end CompileWatch
