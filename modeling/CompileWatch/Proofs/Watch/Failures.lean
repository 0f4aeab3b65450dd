import CompileWatch.Proofs.Watch.Blocks
import CompileWatch.Proofs.Watch.Recovery

/-!
# Which failures are told

An emission reads its source and writes its artifacts, and both can fail. A write
that fails is told: the emission then ends in an error and in nothing else, and
without a failed write it ends in what it has emitted (`error_iff_write_failed`).

A read that fails is not told. The host of a session gives its language service
the text of a file or none, and the reason why there is none is lost on the way.
The service has nothing to emit then, and the emission is told as a skipped one,
which is also what an emission is that a setting has turned off
(`unread_source_is_skipped`, `unread_source_is_not_told`).
-/

namespace CompileWatch

open CompileWatch.Path

/-- Whether an event says how an emission has ended. -/
def WatchEvent.isOutcome : WatchEvent → Bool
  | emitted _ _ _ | error _ => true
  | _ => false

theorem Block.filter_told (b : Block) : b.told.filter (·.isOutcome) = [b.closing] := by
  have hdiagnostics : (b.diagnostics.map WatchEvent.ofDiagnostic).filter (·.isOutcome) = [] :=
    List.filter_eq_nil_iff.2 fun event he => by
      obtain ⟨d, _, rfl⟩ := List.mem_map.1 he
      exact Bool.false_ne_true
  have hclosing : [b.closing].filter (·.isOutcome) = [b.closing] := by
    unfold closing
    cases b.outcome <;> rfl
  rw [told, List.filter_append, hdiagnostics, hclosing]
  rfl

/-- A write of a block has failed just when the block ends in an error. -/
theorem Block.mem_made_iff (b : Block) :
    (∃ path, (path, true) ∈ b.made) ↔ ∃ written path cause, b.outcome = .failed written path cause := by
  unfold made
  cases b.outcome with
  | skipped => simp
  | emitted written => simp
  | failed written path cause =>
      exact ⟨fun _ => ⟨written, path, cause, rfl⟩, fun _ => ⟨path, by simp⟩⟩

namespace Session

variable {σ κ : Type} {p : Platform (Ledger σ) κ} {inside : Storage σ}

/-- An emission, in whatever session, has one outcome: an error that names its file if a write of
it has failed, and what it has emitted otherwise. The session goes on with the books it had. -/
theorem error_iff_write_failed (hp : p.storage = Ledger.storage inside)
    (hfe : p.frontEnd.OnlyLooks) (file : Path) (s : Session (Ledger σ) κ) :
    let t := after (emitLogged p file) s
    SameBooks s t ∧ ∃ told later,
      t.events = s.events ++ told ∧ t.world.store.notes = later ++ s.world.store.notes ∧
        ((∃ path, .write path true ∈ later) →
          ∃ message : String, told.filter (·.isOutcome) = [.error s!"{file.text}: {message}"]) ∧
        ((∀ path, .write path true ∉ later) →
          ∃ artifacts skipped, told.filter (·.isOutcome) = [.emitted file.text artifacts skipped]) := by
  intro t
  obtain ⟨b, rfl, hevents, later, hnotes, hmade⟩ := block_emitLogged hp hfe file s
  refine ⟨sameBooks_emitLogged p b.file s, b.told, later, hevents, hnotes, fun hfailed => ?_,
    fun hnone => ?_⟩
  · obtain ⟨path, hpath⟩ := hfailed
    obtain ⟨written, path, cause, hb⟩ :=
      b.mem_made_iff.1 ⟨path, hmade ▸ mem_writes.2 hpath⟩
    refine ⟨(HostError.write path cause).message, ?_⟩
    rw [b.filter_told, Block.closing, hb]
  · rw [b.filter_told, Block.closing]
    cases hb : b.outcome with
    | skipped => exact ⟨_, _, rfl⟩
    | emitted written => exact ⟨_, _, rfl⟩
    | failed written path cause =>
        obtain ⟨failed, hf⟩ := b.mem_made_iff.2 ⟨written, path, cause, hb⟩
        exact absurd (mem_writes.1 (hmade ▸ hf)) (hnone failed)

/-- The next write of an artifact of the only source fails. -/
def fullDiskAhead : List (Step (Ledger (Rehearsed Memory.Store))) :=
  [.outside fun l => { l with inner := { l.inner with
    faults := [⟨.write, some ⟨"/p/dist/a.js"⟩, .io, "disk full", some 1⟩] } }]

theorem error_iff_write_failed_fullDisk :
    ∃ session, (start failingChecker distConfig {} oneSource).1 = .ok session ∧
      ∃ (told : List WatchEvent) (message : String),
        (after (emitLogged failingChecker ⟨"/p/a.ts"⟩)
          (play failingChecker fullDiskAhead session)).events =
            (play failingChecker fullDiskAhead session).events ++ told ∧
        told.filter (·.isOutcome) = [.error s!"/p/a.ts: {message}"] := by
  obtain ⟨session, h, hrun⟩ := exists_start
    (show (start failingChecker distConfig {} oneSource).1.toOption.any (fun session =>
      let s := play failingChecker fullDiskAhead session
      (after (emitLogged failingChecker ⟨"/p/a.ts"⟩) s).world.store.notes ==
        [.write ⟨"/p/dist/a.js"⟩ true] ++ s.world.store.notes) = true by decide +kernel)
  obtain ⟨_, told, later, hevents, hnotes, hfailed, _⟩ :=
    error_iff_write_failed (p := failingChecker) rfl LineChecker.frontEnd_onlyLooks ⟨"/p/a.ts"⟩
      (play failingChecker fullDiskAhead session)
  have hlater : [.write ⟨"/p/dist/a.js"⟩ true] = later :=
    List.append_cancel_right ((beq_iff_eq.1 hrun).symm.trans hnotes)
  obtain ⟨message, htold⟩ := hfailed ⟨⟨"/p/dist/a.js"⟩, hlater ▸ List.mem_cons_self⟩
  exact ⟨session, h, told, message, hevents, htold⟩

/-- A keyed service that needs the text of a file and cannot read it has the emission skipped,
whatever has kept it from reading. -/
theorem unread_source_is_skipped {ρ : Type} {p : Platform (Ledger σ) (Knowledge ρ)}
    {analyst : Analyst (Ledger σ) ρ} (hs : p.frontEnd.Serves analyst)
    (hp : p.storage = Ledger.storage inside) {file : Path} {s : Session (Ledger σ) (Knowledge ρ)}
    {version : Nat} (hversion : s.versions.version? file = some version)
    (hnew : s.knowledge.current? file version = none) {e : FsError}
    (hread : answer (inside.read file) s.world.store.inner = .error e) :
    (after (emitLogged p file) s).events =
      s.events ++ (said p file s).map .ofDiagnostic ++ [.emitted file.text [] true] := by
  have hfound : s.analysis? p analyst file = none := by
    have hanalyzes := s.analyzes p analyst file
    generalize s.analyzed p analyst file = t at hanalyzes
    generalize s.analysis? p analyst file = found at hanalyzes ⊢
    cases hanalyzes with
    | untracked => rfl
    | known hv hknown =>
        cases hversion.symm.trans hv
        rw [hnew] at hknown
        cases hknown
    | unread => rfl
    | studied _ _ htext =>
        have hsame : answer (p.storage.read file) s.world.store =
            answer (inside.read file) s.world.store.inner := by rw [hp]; rfl
        rw [hsame, hread] at htext
        cases htext
  have hskipped : answer (askOutput p file) s = .skipped := by
    rw [answer_askOutput hs, hfound]
    rfl
  have hsaid := between_surfaced hp hs.looks file s
  rw [after_emitLogged, delivered, hskipped, ← hsaid.events]
  rfl

/-- A project whose only source cannot be read. -/
def unreadable : World (Ledger (Rehearsed Memory.Store)) :=
  ⟨⟨{ inner := Memory.exact.withFiles [(⟨"/p/a.ts"⟩, "v1")]
      faults := [⟨.read, some ⟨"/p/a.ts"⟩, .io, "bad sector", none⟩] }, []⟩, []⟩

/-- Every read of the source fails, and its emission is told as if nothing had. -/
theorem unread_source_is_not_told :
    ∃ session, (start failingChecker (.plain "/p") {} unreadable).1 = .ok session ∧
      session.world.store.notes =
        [.read ⟨"/p/a.ts"⟩ true, .read ⟨"/p/a.ts"⟩ true, .modified ⟨"/p/a.ts"⟩] ∧
      session.events = [.watchStarted "/p" 1, .emitted "/p/a.ts" [] true] := by
  obtain ⟨session, h, hrun⟩ := exists_start
    (show (start failingChecker (.plain "/p") {} unreadable).1.toOption.any (fun session =>
      session.world.store.notes ==
        [.read ⟨"/p/a.ts"⟩ true, .read ⟨"/p/a.ts"⟩ true, .modified ⟨"/p/a.ts"⟩] &&
      session.events == [.watchStarted "/p" 1, .emitted "/p/a.ts" [] true]) = true by
      decide +kernel)
  simp only [Bool.and_eq_true, beq_iff_eq] at hrun
  exact ⟨session, h, hrun.1, hrun.2⟩

end Session

end CompileWatch
