import CompileWatch.Proofs.Storage.Writing
import CompileWatch.Proofs.Watch.Steps

/-!
# Emissions as one change

An emission asks the service twice, reports, writes and tells. Only the questions
and the writes touch anything that a later step can see, so what an emission comes
to is the session after the questions, with the artifacts written to its store and
the events told. What it does to its journal is left open.
-/

namespace CompileWatch.Session

variable {σ κ : Type} {p : Platform σ κ}

theorem exists_surface : ∀ (diagnostics : List Diagnostic) (s : Session σ κ), ∃ journal,
    after (surface diagnostics) s =
      { s with
        world := ⟨s.world.store, journal⟩
        events := s.events ++ diagnostics.map .ofDiagnostic }
  | [], s => ⟨s.world.journal, by rw [List.map_nil, List.append_nil]; rfl⟩
  | d :: rest, s => by
      obtain ⟨journal, h⟩ := exists_surface rest
        (after (notify (.ofDiagnostic d)) (after (onWorld (Diagnostic.reportAll [d])) s))
      refine ⟨journal, h.trans ?_⟩
      rw [List.map_cons, List.append_cons]
      rfl

theorem writeArtifacts_eq (storage : Storage σ) : ∀ artifacts : List Artifact,
    (writeArtifacts storage artifacts : Action σ κ _) = onStore (writeEach storage artifacts)
  | [] => rfl
  | a :: rest => by
      have hbind : ∀ {α β : Type} (x : StateM σ α) (f : α → StateM σ β),
          (onStore (x >>= f) : Action σ κ β) = onStore x >>= fun answer => onStore (f answer) :=
        fun _ _ => rfl
      rw [writeArtifacts, writeEach, hbind, writeArtifacts_eq storage rest]
      refine bind_congr fun written => ?_
      cases written with
      | error e => rfl
      | ok _ => rfl

/-- What the delivery of an output does to a store. -/
def writing (p : Platform σ κ) (output : EmitOutput) : StateM σ (Except HostError (List Path)) :=
  if output.emitSkipped then pure (.ok []) else writeEach p.storage output.artifacts

theorem exists_deliver (output : EmitOutput) (s : Session σ κ) :
    answer (deliver p output) s = answer (writing p output) s.world.store ∧ ∃ journal,
      after (deliver p output) s =
        { s with world := ⟨after (writing p output) s.world.store, journal⟩ } := by
  unfold deliver writing
  split
  · exact ⟨rfl, _, rfl⟩
  · rw [writeArtifacts_eq]
    exact ⟨rfl, s.world.journal, rfl⟩

section Asked

variable (p : Platform σ κ) (file : Path) (s : Session σ κ)

/-- A session in which the service has been asked all that an emission asks. -/
def asked : Session σ κ := after (askDiagnostics p file) (after (askOutput p file) s)

/-- How the writes of an emission end. -/
def written : Except HostError (List Path) :=
  answer (writing p (answer (askOutput p file) s)) (asked p file s).world.store

/-- The session that an emission leaves, when it has told some events. -/
def emission (told : List WatchEvent) (journal : List LogEntry) : Session σ κ :=
  { asked p file s with
    world := ⟨after (writing p (answer (askOutput p file) s)) (asked p file s).world.store, journal⟩
    events := s.events ++ told }

theorem exists_delivered :
    answer (deliver p (answer (askOutput p file) s)) (surfaced p file s) = written p file s ∧
      ∃ journal, delivered p file s =
        emission p file s ((said p file s).map .ofDiagnostic) journal := by
  obtain ⟨journal, hsurface⟩ := exists_surface (said p file s) (asked p file s)
  have hsurfaced : surfaced p file s = after (surface (said p file s)) (asked p file s) := rfl
  rw [delivered, hsurfaced, hsurface]
  obtain ⟨hanswer, journal', hafter⟩ := exists_deliver (p := p) (answer (askOutput p file) s)
    { asked p file s with
      world := ⟨(asked p file s).world.store, journal⟩
      events := (asked p file s).events ++ (said p file s).map .ofDiagnostic }
  exact ⟨hanswer, journal', hafter⟩

theorem notify_emission (told : List WatchEvent) (journal : List LogEntry) (event : WatchEvent) :
    after (notify event) (emission p file s told journal) =
      emission p file s (told ++ [event]) journal := by
  unfold emission
  rw [← List.append_assoc]
  rfl

/-- What is told of an output that was written, if it was. -/
def success (result : Except HostError (List Path)) : List WatchEvent :=
  result.toOption.toList.map fun written =>
    .emitted file.text (written.map (·.text)) (answer (askOutput p file) s).emitSkipped

theorem exists_emitFile : ∃ journal, after (emitFile p file) s =
    emission p file s
      ((said p file s).map .ofDiagnostic ++ success p file s (written p file s)) journal := by
  obtain ⟨hwritten, journal, hdelivered⟩ := exists_delivered p file s
  rw [after_emitFile, hwritten, hdelivered]
  refine ⟨journal, ?_⟩
  cases written p file s with
  | error e => exact congrArg (emission p file s · journal) (List.append_nil _).symm
  | ok written => exact notify_emission p file s _ journal _

/-- What is told at the end of an emission. -/
def closing : Except HostError (List Path) → WatchEvent
  | .error e => .error s!"{file.text}: {e.message}"
  | .ok written =>
    .emitted file.text (written.map (·.text)) (answer (askOutput p file) s).emitSkipped

theorem exists_emitLogged : ∃ journal, after (emitLogged p file) s =
    emission p file s
      ((said p file s).map .ofDiagnostic ++ [closing p file s (written p file s)]) journal := by
  obtain ⟨hwritten, journal, hdelivered⟩ := exists_delivered p file s
  rw [after_emitLogged, hwritten, hdelivered]
  cases written p file s with
  | error e => exact ⟨_, notify_emission p file s _ _ _⟩
  | ok written => exact ⟨journal, notify_emission p file s _ journal _⟩

end Asked

/-! ## Times of files in memory -/

section Times

variable {h : Memory.Handle} {p : Platform (Traced Memory.Store) κ}
  (hp : p.storage = Traced.storage h.storage) (file : Path) (s : Session (Traced Memory.Store) κ)

include hp

theorem answer_modified : answer (p.storage.modified file) s.world.store =
    h.modified file s.world.store.inner := by
  rw [hp]
  rfl

theorem world_timed : (timed p file s).world =
    ⟨⟨s.world.store.inner, s.world.store.calls ++ [.modified file]⟩, s.world.journal⟩ := by
  unfold timed
  rw [hp]
  rfl

end Times

end CompileWatch.Session
