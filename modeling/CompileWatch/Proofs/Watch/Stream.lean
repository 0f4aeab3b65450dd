import Mathlib.Data.List.Defs
import CompileWatch.Proofs.Sources.Memory
import CompileWatch.Proofs.Watch.Blocks
import CompileWatch.Proofs.Watch.Recovery

/-!
# The stream of events

A session tells that it has started, then a block for every path that its search
has found, and after that nothing but changes: each is the new version of a file
followed by the block of its emission. A session that is ended tells so, and
nothing afterwards. This is the grammar of its events (`events_follow_grammar`).

What is tracked is what was found, each path once. A file that two directories
list is told of twice and tracked once (`found_twice_tracked_once`).

The blocks are those of emissions that really took place. An emission is known by
the session in which it begins, so the sessions of a start (`emissions`) and of a
tick (`polls`) are what the blocks are compared with, one by one, and the artifacts
that a block names are the writes noted between the two ends of its emission.

The numbers of the changes of one file are a property of the events alone
(`versionsTold`): whatever happens, they are those from one up to the version of
the file (`Numbered`).
-/

namespace CompileWatch

open CompileWatch.Path

/-- A change of a file: its new version, and the emission that follows. -/
structure Change where
  version : Nat
  block : Block

def Change.told (c : Change) : List WatchEvent :=
  .fileChanged c.block.file.text c.version :: c.block.told

/-- The versions of a file that some events tell. -/
def versionsTold (file : Path) (events : List WatchEvent) : List Nat :=
  events.filterMap fun
    | .fileChanged path version => if path = file.text then some version else none
    | _ => none

theorem versionsTold_append (file : Path) (events later : List WatchEvent) :
    versionsTold file (events ++ later) = versionsTold file events ++ versionsTold file later :=
  List.filterMap_append

theorem Block.versionsTold_told (b : Block) (file : Path) : versionsTold file b.told = [] := by
  have hdiagnostics : versionsTold file (b.diagnostics.map .ofDiagnostic) = [] :=
    List.filterMap_eq_nil_iff.2 fun event he => by
      obtain ⟨d, _, rfl⟩ := List.mem_map.1 he
      rfl
  have hclosing : versionsTold file [b.closing] = [] := by
    unfold closing
    cases b.outcome <;> rfl
  rw [told, versionsTold_append, hdiagnostics, hclosing]
  rfl

theorem Change.versionsTold_told (c : Change) (file : Path) :
    versionsTold file c.told = if c.block.file = file then [c.version] else [] := by
  have hpath : c.block.file.text = file.text ↔ c.block.file = file :=
    ⟨fun h => congrArg Path.mk h, congrArg Path.text⟩
  have hcons : versionsTold file c.told =
      versionsTold file [.fileChanged c.block.file.text c.version] ++ versionsTold file c.block.told :=
    versionsTold_append file [_] _
  rw [hcons, Block.versionsTold_told, List.append_nil]
  simp only [versionsTold, List.filterMap_cons, List.filterMap_nil, hpath]
  split <;> simp_all

namespace Session

variable {σ κ : Type} {p : Platform (Ledger σ) κ} {inside : Storage σ}

/-! ## Emissions and checks -/

theorem map_eq_of_forall₂ {α β γ : Type} {R : α → β → Prop} {f : α → γ} {g : β → γ}
    (hR : ∀ a b, R a b → g b = f a) {as : List α} {bs : List β} (h : List.Forall₂ R as bs) :
    bs.map g = as.map f := by
  induction h with
  | nil => rfl
  | cons hab _ ih => rw [List.map_cons, List.map_cons, hR _ _ hab, ih]

/-- Files that are emitted one after the other, each with the session before its emission. -/
def emissions (p : Platform σ κ) : List Path → Session σ κ → List (Path × Session σ κ)
  | [], _ => []
  | path :: rest, s => (path, s) :: emissions p rest (after (emitLogged p path) s)

theorem map_fst_emissions {p : Platform σ κ} : ∀ (files : List Path) (s : Session σ κ),
    (emissions p files s).map (·.1) = files
  | [], _ => rfl
  | path :: rest, s => congrArg (path :: ·) (map_fst_emissions rest (after (emitLogged p path) s))

/-- Whether a block is what the emission of a file tells and writes. -/
structure Emits (p : Platform (Ledger σ) κ) (emission : Path × Session (Ledger σ) κ) (b : Block) :
    Prop where
  file : b.file = emission.1
  between : Between emission.2 (after (emitLogged p emission.1) emission.2) b.told b.made

/-- Whether a change is what the check of a file tells and writes. -/
structure Finds (p : Platform (Ledger σ) κ) (poll : Path × Session (Ledger σ) κ) (c : Change) :
    Prop where
  file : c.block.file = poll.1
  raised : ∃ v, poll.2.versions.version? poll.1 = some v ∧ c.version = v + 1
  after : (after (check p poll.1) poll.2).versions.version? poll.1 = some c.version
  between : Between poll.2 (CompileWatch.after (check p poll.1) poll.2) c.told c.block.made

section Parts

variable (hp : p.storage = Ledger.storage inside)

include hp

theorem between_timed (file : Path) (s : Session (Ledger σ) κ) :
    Between s (timed p file s) [] [] := by
  have hwrote := (Ledger.Wrote.refl s.world.store).note (.modified file)
    (after (inside.modified file) s.world.store.inner)
  refine ⟨(List.append_nil _).symm, ?_⟩
  show Ledger.Wrote _ [] (after (p.storage.modified file) s.world.store)
  rw [hp]
  exact hwrote

theorem between_check_of_none {file : Path} {s : Session (Ledger σ) κ}
    (hc : change? p file s = none) : Between s (after (check p file) s) [] [] := by
  rw [after_check, hc]
  exact between_timed hp file s

variable (hfe : p.frontEnd.OnlyLooks)

include hfe

theorem exists_emits (emission : Path × Session (Ledger σ) κ) : ∃ b, Emits p emission b := by
  obtain ⟨b, hfile, hb⟩ := block_emitLogged hp hfe emission.1 emission.2
  exact ⟨b, hfile, hb⟩

theorem exists_finds (poll : Path × Session (Ledger σ) κ)
    (hc : (change? p poll.1 poll.2).isSome = true) : ∃ c, Finds p poll c := by
  obtain ⟨⟨entry, time⟩, hc⟩ := Option.isSome_iff_exists.1 hc
  obtain ⟨_, hfound, _⟩ := change?_eq_some hc
  obtain ⟨b, hfile, hb⟩ := block_emitLogged hp hfe poll.1
    (enter poll.1 entry time (timed p poll.1 poll.2))
  refine ⟨⟨entry.version + 1, b⟩, hfile, ?_, ?_, ?_⟩
  · rw [VersionTable.version?, hfound]
    exact ⟨entry.version, rfl, rfl⟩
  · rw [VersionTable.version?, find?_check, hc]
    simp [same_self]
  · rw [after_check, hc]
    have hentered := ((between_timed hp poll.1 poll.2).report .info "file changed").tell
      (.fileChanged poll.1.text (entry.version + 1))
    have htold : (Change.mk (entry.version + 1) b).told =
        .fileChanged poll.1.text (entry.version + 1) :: b.told := by rw [Change.told, hfile]
    rw [htold]
    have henter : Between poll.2 (enter poll.1 entry time (timed p poll.1 poll.2))
        [.fileChanged poll.1.text (entry.version + 1)] [] := ⟨hentered.events, hentered.wrote⟩
    exact henter.trans hb

/-! ## Starts -/

theorem exists_opening : ∀ (files : List Path) (s : Session (Ledger σ) κ),
    ∃ opening, List.Forall₂ (Emits p) (emissions p files s) opening ∧
      Between s (after (emitAll p files) s) (opening.flatMap Block.told) (opening.flatMap Block.made)
  | [], s => ⟨[], .nil, .refl s⟩
  | file :: rest, s => by
      obtain ⟨b, hb⟩ := exists_emits hp hfe (file, s)
      obtain ⟨opening, hrest, hbetween⟩ := exists_opening rest (after (emitLogged p file) s)
      exact ⟨b :: opening, .cons hb hrest, hb.between.trans hbetween⟩

/-! ## Ticks -/

theorem exists_changes (now : Moment) : ∀ (files : List Path) (s : Session (Ledger σ) κ),
    ∃ changes, List.Forall₂ (Finds p)
        ((polls p now files s).filter fun poll => (change? p poll.1 poll.2).isSome) changes ∧
      Between s (after (checkAll p now files) s) (changes.flatMap Change.told)
        (changes.flatMap (·.block.made))
  | [], s => ⟨[], .nil, .refl s⟩
  | file :: rest, s => by
      obtain ⟨changes, hrest, hbetween⟩ := exists_changes now rest (polled p now file s)
      show ∃ changes, List.Forall₂ (Finds p) (List.filter _ ((file, s) :: _)) changes ∧ _
      rw [List.filter_cons]
      split
      · next hc =>
        obtain ⟨c, hfinds⟩ := exists_finds hp hfe (file, s) hc
        have hpolled : Between s (polled p now file s) c.told c.block.made :=
          ⟨hfinds.between.events, hfinds.between.wrote⟩
        exact ⟨c :: changes, .cons hfinds hrest, hpolled.trans hbetween⟩
      · next hc =>
        have hquiet := between_check_of_none hp (by simpa using hc : change? p file s = none)
        have hpolled : Between s (polled p now file s) [] [] := ⟨hquiet.events, hquiet.wrote⟩
        exact ⟨changes, hrest, hpolled.trans hbetween⟩

end Parts

/-- The checks of a tick, each with the session before it. A session that was ended checks none. -/
def checksOf (p : Platform σ κ) (now : Moment) (s : Session σ κ) : List (Path × Session σ κ) :=
  if s.stopped then [] else polls p now (dueFiles now s) (opened now s)

/-- The tick that a step is, if it is one, with the session before it. -/
def Step.pass (s : Session σ κ) : Step σ → List (Moment × Session σ κ)
  | tick now => [(now, s)]
  | _ => []

/-- The ticks of a run, each with the session before it. -/
def ticks (p : Platform σ κ) : List (Step σ) → Session σ κ → List (Moment × Session σ κ)
  | [], _ => []
  | step :: rest, s => step.pass s ++ ticks p rest (after (step.act p) s)

/-- Whether changes are those of a tick: one, in path order, for each file whose version the tick
has raised, and each is what the check of the file tells and writes. -/
structure Raises (p : Platform (Ledger σ) κ) (pass : Moment × Session (Ledger σ) κ)
    (changes : List Change) : Prop where
  files : changes.map (·.block.file) = pass.2.versions.files.filter fun f =>
    (after (tick p pass.1) pass.2).versions.version? f != pass.2.versions.version? f
  finds : List.Forall₂ (Finds p)
    ((checksOf p pass.1 pass.2).filter fun poll => (change? p poll.1 poll.2).isSome) changes

section Ticks

variable (hp : p.storage = Ledger.storage inside) (hfe : p.frontEnd.OnlyLooks)
  {files waiting : List Path} {interval : Nat} {s : Session (Ledger σ) κ}

/-- A check raises the version of its file just when it finds a change. -/
theorem isSome_change?_iff {σ : Type} {p : Platform σ κ} (file : Path) (s : Session σ κ) :
    (change? p file s).isSome =
      ((after (check p file) s).versions.version? file != s.versions.version? file) := by
  rw [VersionTable.version?, VersionTable.version?, find?_check]
  cases hc : change? p file s with
  | none => simp
  | some found =>
      obtain ⟨entry, time⟩ := found
      obtain ⟨_, hfound, _⟩ := change?_eq_some hc
      rw [hfound]
      simp [same_self]

/-- The checks of a tick that find a change are of the files whose version the tick raises. -/
theorem map_fst_changed {σ : Type} {p : Platform σ κ} {s : Session σ κ}
    (h : Timed files interval waiting s) (now : Moment) :
    ((checksOf p now s).filter fun poll => (change? p poll.1 poll.2).isSome).map (·.1) =
      s.versions.files.filter fun f =>
        (after (tick p now) s).versions.version? f != s.versions.version? f := by
  have hrunning : checksOf p now s = polls p now (dueFiles now s) (opened now s) := by
    rw [checksOf, h.running, if_neg (by decide)]
  have hd := pairwise_dueFiles now s
  have hversions : (opened now s).versions = s.versions := rfl
  have hpolls : ∀ poll ∈ polls p now (dueFiles now s) (opened now s),
      (change? p poll.1 poll.2).isSome =
        ((after (tick p now) s).versions.version? poll.1 != s.versions.version? poll.1) := by
    intro poll hm
    obtain ⟨hbefore, hafter⟩ := find?_of_mem_polls hd hm
    rw [isSome_change?_iff, after_tick_of_running h.running]
    simp only [VersionTable.version?, hbefore, hafter, hversions]
  have hraised : ∀ f ∈ files, ((after (tick p now) s).versions.version? f !=
      s.versions.version? f) = true → s.isDue now waiting f = true := by
    intro f hf hne
    cases hdue : s.isDue now waiting f with
    | true => rfl
    | false =>
        have hsame : ∀ path ∈ dueFiles now s, path.same f = false := by
          intro path hpath
          rw [h.dueFiles_eq, List.mem_filter] at hpath
          rw [Bool.eq_false_iff]
          intro hs
          have : path = f := Table.eq_of_mem_keys (h.timers.symm ▸ hpath.1) (h.timers.symm ▸ hf) hs
          rw [this, hdue] at hpath
          cases hpath.2
        rw [after_tick_of_running h.running, VersionTable.version?, VersionTable.version?,
          find?_checkAll now f _ _ hsame, hversions, bne_self_eq_false] at hne
        cases hne
  rw [hrunning, List.filter_congr hpolls]
  have hmap := List.filter_map (f := Prod.fst) (p := fun f : Path =>
    (after (tick p now) s).versions.version? f != s.versions.version? f)
    (l := polls p now (dueFiles now s) (opened now s))
  refine hmap.symm.trans ?_
  rw [map_fst_polls, h.dueFiles_eq, h.tracked, List.filter_filter]
  refine List.filter_congr fun f hf => ?_
  cases hb : (after (tick p now) s).versions.version? f != s.versions.version? f with
  | false => rfl
  | true => rw [hraised f hf hb]; rfl

include hp hfe

theorem exists_raises (h : Timed files interval waiting s) (now : Moment) :
    ∃ changes, Raises p (now, s) changes ∧
      Between s (after (tick p now) s) (changes.flatMap Change.told)
        (changes.flatMap (·.block.made)) := by
  obtain ⟨changes, hfinds, hbetween⟩ := exists_changes hp hfe now (dueFiles now s) (opened now s)
  have hchecks : List.Forall₂ (Finds p)
      ((checksOf p now s).filter fun poll => (change? p poll.1 poll.2).isSome) changes := by
    rw [checksOf, h.running, if_neg (by decide)]
    exact hfinds
  refine ⟨changes, ⟨?_, hchecks⟩, ?_⟩
  · rw [map_eq_of_forall₂ (fun _ _ hc => hc.file) hchecks]
    exact map_fst_changed h now
  · rw [after_tick_of_running h.running]
    exact ⟨hbetween.events, hbetween.wrote⟩

end Ticks

/-! ## Runs -/

/-- Whether a step asks for no emission, and changes no notes if it comes from outside. -/
def Step.Unasked : Step (Ledger σ) → Prop
  | emit _ => False
  | outside change => ∀ l, (change l).notes = l.notes
  | _ => True

/-- Whether the changes of the ticks of a run, and then its ending, are all that it tells, and all
that it writes. -/
structure Tells (p : Platform (Ledger σ) κ) (s t : Session (Ledger σ) κ)
    (run : List (Moment × Session (Ledger σ) κ)) (ending : List WatchEvent)
    (passes : List (List Change)) : Prop where
  raises : List.Forall₂ (Raises p) run passes
  between : Between s t (passes.flatten.flatMap Change.told ++ ending)
    (passes.flatten.flatMap (·.block.made))

namespace Tells

variable {s t u : Session (Ledger σ) κ} {run later : List (Moment × Session (Ledger σ) κ)}
  {ending : List WatchEvent} {changes : List Change} {passes more : List (List Change)}

theorem quietly (hb : Between s t [] []) (h : Tells p t u run ending passes) :
    Tells p s u run ending passes := ⟨h.raises, hb.trans h.between⟩

theorem cons {pass : Moment × Session (Ledger σ) κ} (hr : Raises p pass changes)
    (hb : Between s t (changes.flatMap Change.told) (changes.flatMap (·.block.made)))
    (h : Tells p t u run ending passes) :
    Tells p s u (pass :: run) ending (changes :: passes) := by
  refine ⟨.cons hr h.raises, ?_⟩
  rw [List.flatten_cons, List.flatMap_append, List.flatMap_append, List.append_assoc]
  exact hb.trans h.between

end Tells

/-- Waking a file and changes from outside are not told. -/
theorem between_act {step : Step (Ledger σ)} (hstep : step.Unasked) (s : Session (Ledger σ) κ)
    (htick : ∀ now, step ≠ .tick now) (hshut : step ≠ .shutdown) :
    Between s (after (step.act p) s) [] [] := by
  cases step with
  | tick now => exact absurd rfl (htick now)
  | wake path => exact ⟨(List.append_nil _).symm, .refl _⟩
  | emit path => exact hstep.elim
  | shutdown => exact absurd rfl hshut
  | outside change =>
      have hnotes := hstep s.world.store
      exact ⟨(List.append_nil _).symm, hnotes ▸ .refl (change s.world.store)⟩

/-! ### After the end -/

section Stopped

variable {s : Session (Ledger σ) κ} (hs : s.stopped = true)

include hs

theorem act_of_stopped {step : Step (Ledger σ)} (hstep : step.Unasked) :
    (after (step.act p) s).stopped = true ∧ (after (step.act p) s).versions = s.versions ∧
      Between s (after (step.act p) s) [] [] := by
  cases step with
  | tick now =>
      have hsame : after (Step.act p (.tick now)) s = s := after_tick_of_stopped hs
      rw [hsame]
      exact ⟨hs, rfl, .refl s⟩
  | shutdown =>
      have hsame : after (Step.act p .shutdown) s = s := by
        rw [Step.act, after_shutdown, hs, if_pos rfl]
      rw [hsame]
      exact ⟨hs, rfl, .refl s⟩
  | emit path => exact hstep.elim
  | wake path => exact ⟨hs, rfl, between_act (p := p) hstep s (by simp) (by simp)⟩
  | outside change => exact ⟨hs, rfl, between_act (p := p) hstep s (by simp) (by simp)⟩

theorem raises_of_stopped (now : Moment) : Raises p (now, s) [] where
  files := by
    rw [after_tick_of_stopped hs]
    simp
  finds := by
    rw [checksOf, hs, if_pos rfl]
    exact .nil

omit hs in
theorem tells_of_stopped : ∀ {steps : List (Step (Ledger σ))} {s : Session (Ledger σ) κ},
    s.stopped = true → (∀ step ∈ steps, step.Unasked) →
      (play p steps s).stopped = true ∧ (play p steps s).versions = s.versions ∧
        ∃ passes, passes.flatten = [] ∧ Tells p s (play p steps s) (ticks p steps s) [] passes
  | [], s, hs, _ => ⟨hs, rfl, [], rfl, .nil, .refl s⟩
  | step :: rest, s, hs, hsteps => by
      obtain ⟨hstopped, hversions, hquiet⟩ :=
        act_of_stopped (p := p) hs (hsteps step List.mem_cons_self)
      have hrest : ∀ other ∈ rest, other.Unasked :=
        fun other hm => hsteps other (List.mem_cons_of_mem _ hm)
      obtain ⟨hlast, hsame, passes, hnone, htells⟩ := tells_of_stopped hstopped hrest
      refine ⟨hlast, hsame.trans hversions, ?_⟩
      cases step with
      | tick now => exact ⟨[] :: passes, hnone, .cons (raises_of_stopped hs now) hquiet htells⟩
      | _ => exact ⟨_, hnone, htells.quietly hquiet⟩

end Stopped

/-! ### Numbers of changes -/

/-- Whether the numbers of the changes told of every tracked file are those up to its version. -/
structure Numbered (files : List Path) (s : Session σ κ) : Prop where
  tracked : s.versions.files = files
  told : ∀ f ∈ files, ∀ v, s.versions.version? f = some v →
    versionsTold f s.events = List.range' 1 v

theorem Numbered.congr {files : List Path} {s t : Session σ κ} (h : Numbered files s)
    (hv : t.versions = s.versions) (he : ∀ f, versionsTold f t.events = versionsTold f s.events) :
    Numbered files t where
  tracked := hv ▸ h.tracked
  told f hf v ht := (he f).trans (h.told f hf v (hv ▸ ht))

section Numbers

variable (hp : p.storage = Ledger.storage inside) (hfe : p.frontEnd.OnlyLooks)
  {files waiting : List Path} {interval : Nat} {s : Session (Ledger σ) κ}

include hp hfe

theorem keeps_check_numbered {file : Path} (hfile : file ∈ files) :
    Keeps (Numbered files) (check p file) := by
  intro s h
  cases hc : change? p file s with
  | none =>
      have hquiet := between_check_of_none hp hc
      refine h.congr (by rw [after_check, hc]; rfl) fun f => ?_
      rw [hquiet.events, List.append_nil]
  | some found =>
      obtain ⟨c, hfinds⟩ := exists_finds hp hfe (file, s) (by rw [hc]; rfl)
      refine ⟨(books_check file s).1.trans h.tracked, fun f hf v hv => ?_⟩
      rw [hfinds.between.events, versionsTold_append, c.versionsTold_told, hfinds.file]
      by_cases heq : file = f
      · rw [if_pos heq]
        obtain ⟨old, hold, hversion⟩ := hfinds.raised
        have hv' := hfinds.after
        subst heq
        rw [h.told file hf old hold, hversion, ← Option.some.inj (hv'.symm.trans hv), hversion,
          List.range'_concat, Nat.one_mul, Nat.add_comm]
      · have hsame : file.same f = false := by
          rw [Bool.eq_false_iff]
          have htracked : s.versions.entries.keys = files := h.tracked
          exact fun hs => heq (Table.eq_of_mem_keys (htracked.symm ▸ hfile) (htracked.symm ▸ hf) hs)
        rw [VersionTable.version?, find?_check, hc] at hv
        simp only [hsame] at hv
        rw [if_neg heq, List.append_nil]
        exact h.told f hf v hv

theorem numbered_act (htimed : Timed files interval waiting s) (h : Numbered files s)
    {step : Step (Ledger σ)} (hstep : step.Unasked) : Numbered files (after (step.act p) s) := by
  cases step with
  | tick now =>
      show Numbered files (after (tick p now) s)
      rw [after_tick_of_running htimed.running]
      refine keeps_checkAll (fun _ _ _ _ hn => ⟨hn.tracked, hn.told⟩) now (fun path hpath => ?_) _
        ⟨h.tracked, h.told⟩
      rw [htimed.dueFiles_eq, List.mem_filter] at hpath
      exact keeps_check_numbered hp hfe hpath.1
  | wake path => exact ⟨h.tracked, h.told⟩
  | emit path => exact hstep.elim
  | shutdown =>
      show Numbered files (after shutdown s)
      rw [after_shutdown, htimed.running, if_neg (by decide)]
      refine h.congr rfl fun f => ?_
      show versionsTold f (s.events ++ [.shutdown]) = _
      rw [versionsTold_append]
      exact List.append_nil _
  | outside change => exact ⟨h.tracked, h.told⟩

/-! ### Whole runs -/

/-- A session that was not ended tells its changes, and its end when it comes. -/
theorem tells_play : ∀ {steps : List (Step (Ledger σ))} {waiting : List Path}
    {s : Session (Ledger σ) κ}, Timed files interval waiting s → Numbered files s →
      (∀ step ∈ steps, step.Unasked) →
        Numbered files (play p steps s) ∧ ∃ passes, Tells p s (play p steps s) (ticks p steps s)
          (if (play p steps s).stopped then [.shutdown] else []) passes
  | [], _, s, htimed, h, _ => by
      refine ⟨h, [], .nil, ?_⟩
      show Between s s ([] ++ if s.stopped = true then _ else _) []
      rw [htimed.running]
      exact .refl s
  | step :: rest, waiting, s, htimed, h, hsteps => by
      have hstep := hsteps step List.mem_cons_self
      have hrest := fun other hm => hsteps other (List.mem_cons_of_mem step hm)
      have hnumbered := numbered_act hp hfe htimed h hstep
      by_cases hshut : step = .shutdown
      · subst hshut
        have hended : after (Step.act p .shutdown) s = s.ended := by
          rw [Step.act, after_shutdown, htimed.running, if_neg (by decide)]
        have hshutdown : Between s s.ended [.shutdown] [] := ⟨rfl, .refl _⟩
        rw [hended] at hnumbered
        obtain ⟨hstopped, hsame, passes, hnone, hraises, hbetween⟩ :=
          tells_of_stopped (p := p) (s := s.ended) rfl hrest
        rw [hnone, List.append_nil] at hbetween
        have hplay : play p (.shutdown :: rest) s = play p rest s.ended := by rw [← hended]; rfl
        have hticks : ticks p (.shutdown :: rest) s = ticks p rest s.ended := by rw [← hended]; rfl
        rw [hplay, hticks, hstopped, if_pos rfl]
        refine ⟨hnumbered.congr hsame fun f => ?_, passes, hraises, ?_⟩
        · rw [hbetween.events]
          exact congrArg (versionsTold f) (List.append_nil _)
        · rw [hnone]
          exact hshutdown.trans hbetween
      · have hnext := htimed.act (p := p) hshut
        obtain ⟨hlast, passes, htells⟩ := tells_play hnext hnumbered hrest
        refine ⟨hlast, ?_⟩
        cases step with
        | tick now =>
            obtain ⟨changes, hraises, hbetween⟩ := exists_raises hp hfe htimed now
            exact ⟨_, .cons hraises hbetween htells⟩
        | shutdown => exact absurd rfl hshut
        | emit path => exact hstep.elim
        | wake path => exact ⟨_, htells.quietly (between_act hstep s (by simp) (by simp))⟩
        | outside change => exact ⟨_, htells.quietly (between_act hstep s (by simp) (by simp))⟩

end Numbers

/-! ### Starts -/

theorem versions_begin {σ κ : Type} {p : Platform σ κ} (files : List Path) (s : Session σ κ) :
    (after (begin p files) s).versions = s.versions := by
  rw [after_begin, after_armAll]
  exact (sameBooks_emitAll p files (announced files s)).versions

/-- What is tracked was tracked before, or is met for the first time. -/
theorem mem_files_trackAll {σ : Type} (storage : Storage σ) {q : Path} :
    ∀ (files : List Path) (table : VersionTable) (store : σ),
      q ∈ (answer (trackAll storage table files) store).files ↔
        q ∈ table.files ∨ q ∈ (files.filter fun f => !table.contains f).eraseDupsBy same
  | [], _, _ => (or_iff_left List.not_mem_nil).symm
  | path :: rest, table, store => by
      refine (mem_files_trackAll storage rest
        (table.track path (answer (storage.modified path) store).toOption)
        (after (storage.modified path) store)).trans ?_
      generalize (answer (storage.modified path) store).toOption = modified
      have hfiles : (table.track path modified).files =
          (table.entries.set path ⟨0, modified⟩).keys := Table.keys_setNew table.entries path _
      have hcontains : ∀ f, (table.track path modified).contains f =
          (path.same f || table.contains f) := by
        intro f
        rw [VersionTable.contains, Table.contains, VersionTable.track, Table.find?_setNew]
        cases path.same f <;> rfl
      simp only [hcontains]
      rw [eraseDupsBy_filter_cons, hfiles]
      cases hpath : table.contains path with
      | true =>
          have hsame : ∀ f ∈ rest, (!(path.same f || table.contains f)) = !table.contains f := by
            intro f _
            rw [Bool.or_eq_right_iff_imp.2]
            intro hf
            rw [← hpath, VersionTable.contains, VersionTable.contains, Table.contains,
              Table.contains, table.entries.find?_congr hf]
          rw [Table.keys_set_of_contains _ hpath, if_pos rfl, List.filter_congr hsame]
          rfl
      | false =>
          rw [Table.mem_keys_set _ hpath, if_neg Bool.false_ne_true, List.mem_cons,
            or_comm (a := q = path), or_assoc]
          rfl

/-- Files that are met in path order are tracked in path order, each once. -/
theorem files_trackAll {σ : Type} (storage : Storage σ) {files : List Path}
    (h : files.Pairwise (compare · · ≠ .gt)) (store : σ) :
    (answer (trackAll storage {} files) store).files = files.eraseDupsBy same := by
  refine Table.eq_of_mem_iff (Table.pairwise_keys _) (ascending_eraseDupsBy h) fun q => ?_
  have hall : files.filter (fun f => !({} : VersionTable).contains f) = files :=
    List.filter_eq_self.2 fun _ _ => rfl
  have hmem := mem_files_trackAll storage (q := q) files {} store
  rw [hall] at hmem
  exact hmem.trans (or_iff_right List.not_mem_nil)

theorem version_trackAll {σ : Type} (storage : Storage σ) : ∀ (files : List Path)
    (table : VersionTable) (store : σ), (∀ f v, table.version? f = some v → v = 0) →
      ∀ f v, (answer (trackAll storage table files) store).version? f = some v → v = 0
  | [], _, _, h => h
  | path :: rest, table, store, h => by
      refine version_trackAll storage rest _ _ fun f v hv => ?_
      rw [VersionTable.version?, VersionTable.track, Table.find?_setNew] at hv
      split at hv
      · cases hfind : table.entries.find? path with
        | none =>
            rw [hfind] at hv
            exact (Option.some.inj hv).symm
        | some entry =>
            rw [hfind] at hv
            exact h path v (by rw [VersionTable.version?, hfind]; exact hv)
      · exact h f v hv

section Files

variable {σ κ : Type} {p : Platform σ κ} {config : HostConfig} {options : WatchOptions}
  {world : World σ} {session : Session σ κ}
  (hstart : (start p config options world).1 = .ok session)

include hstart

/-- A session tracks what its search has found, each path once. -/
theorem files_start :
    session.versions.files = (collected p config options world).1.eraseDupsBy same := by
  obtain ⟨_, journal, rfl⟩ := start_collected hstart
  rw [versions_begin]
  exact files_trackAll p.storage (pairwise_sort _) _

/-- Where the entries of a directory are listed once, a session tracks what its search has found. -/
theorem files_start_of_lists {I : σ → Prop} {place : Path → List Component}
    (hlists : p.storage.Lists I place) (hworld : I world.store) :
    session.versions.files = (collected p config options world).1 := by
  rw [files_start hstart]
  exact eraseDupsBy_of_ascending (Sources.ascending_collect hlists config.projectRoot
    options.extension config.options.outDir (atRoot p config world)
    (hlists.looks.isDir _ _ hworld))

end Files

section Start

variable (hp : p.storage = Ledger.storage inside) (hfe : p.frontEnd.OnlyLooks)
  {config : HostConfig} {options : WatchOptions} {world : World (Ledger σ)}
  {session : Session (Ledger σ) κ} (hstart : (start p config options world).1 = .ok session)

include hp hfe hstart

/-- A session that starts tells how many files were found, and then a block for each. -/
theorem tells_start : Numbered session.versions.files session ∧
    ∃ (first : Session (Ledger σ) κ) (opening : List Block),
      let found := (collected p config options world).1
      session = after (begin p found) first ∧ opening.map (·.file) = found ∧
      List.Forall₂ (Emits p) (emissions p found (announced found first)) opening ∧
      session.events = .watchStarted config.projectRoot.text found.length ::
        opening.flatMap Block.told := by
  obtain ⟨_, journal, hsession⟩ := start_collected hstart
  generalize collected p config options world = found at hsession
  obtain ⟨files, left⟩ := found
  dsimp only at hsession
  generalize hversions : answer (trackAll p.storage {} files) left.store = versions at hsession
  generalize hfirst : fresh p config options versions
    ⟨after (trackAll p.storage {} files) left.store, journal⟩ = first at hsession
  have hbooks : session.versions = versions := by
    rw [hsession, versions_begin, ← hfirst]
    rfl
  obtain ⟨opening, hemits, hbetween⟩ := exists_opening hp hfe files (announced files first)
  have hevents : session.events = .watchStarted config.projectRoot.text files.length ::
      opening.flatMap Block.told := by
    rw [hsession, after_begin, after_armAll]
    show (after (emitAll p files) (announced files first)).events = _
    rw [hbetween.events, ← hfirst]
    rfl
  refine ⟨⟨rfl, fun f _ v hv => ?_⟩, first, opening, hsession, ?_, hemits, hevents⟩
  · rw [hbooks, ← hversions] at hv
    have hnew : ∀ g w, ({} : VersionTable).version? g = some w → w = 0 := fun _ _ hw => by cases hw
    rw [version_trackAll p.storage files {} left.store hnew f v hv, hevents]
    have htold : ∀ opening : List Block, versionsTold f (opening.flatMap Block.told) = [] := by
      intro opening
      induction opening with
      | nil => rfl
      | cons b rest ih => rw [List.flatMap_cons, versionsTold_append, b.versionsTold_told, ih]; rfl
    exact htold opening
  · rw [map_eq_of_forall₂ (fun _ _ hb => hb.file) hemits, map_fst_emissions]

/-- The events of a session: its start with the number of paths that its search has found, a block
for each of them in path order, then for each tick in turn the changes of the files whose versions
it raises, again in path order, and the end of the session if it was ended. The blocks are those of
the emissions that were made, and the changes of a file are numbered from one up to its version.

What is tracked is what was found, each path once. A storage that lists no entry twice, and none in
two directories, has no path found twice, so the number told is then that of the tracked files. -/
theorem events_follow_grammar {steps : List (Step (Ledger σ))}
    (hsteps : ∀ step ∈ steps, step.Unasked) :
    let found := (collected p config options world).1
    let files := session.versions.files
    let last := play p steps session
    ∃ (first : Session (Ledger σ) κ) (opening : List Block) (passes : List (List Change)),
      last.events = .watchStarted config.projectRoot.text found.length ::
        (opening.flatMap Block.told ++ (passes.flatten.flatMap Change.told ++
          if last.stopped then [.shutdown] else [])) ∧
      found.Pairwise (compare · · ≠ .gt) ∧ opening.map (·.file) = found ∧
      session = after (begin p found) first ∧
      List.Forall₂ (Emits p) (emissions p found (announced found first)) opening ∧
      List.Forall₂ (Raises p) (ticks p steps session) passes ∧
      files = found.eraseDupsBy same ∧ files.Pairwise (compare · · = .lt) ∧
      (∀ (I : σ → Prop) (place : Path → List Component), inside.Lists I place →
        I world.store.inner → files = found) ∧
      ∀ f ∈ files, ∃ n, last.versions.version? f = some n ∧
        versionsTold f last.events = List.range' 1 n := by
  intro found files last
  obtain ⟨hnumbered, first, opening, hsession, hfiles, hemits, hevents⟩ :=
    tells_start hp hfe hstart
  obtain ⟨hlast, passes, htells⟩ := tells_play hp hfe (Timed.start hstart) hnumbered hsteps
  have hsorted : found.Pairwise (compare · · ≠ .gt) := pairwise_sort _
  have htracked : files = found.eraseDupsBy same := files_start hstart
  refine ⟨first, opening, passes, ?_, hsorted, hfiles, hsession, hemits, htells.raises, htracked,
    htracked ▸ ascending_eraseDupsBy hsorted, fun I place hlists hworld => ?_, fun f hf => ?_⟩
  · rw [htells.between.events, hevents, List.cons_append]
  · exact files_start_of_lists hstart (hp ▸ Ledger.storage_lists hlists) hworld
  · have htracked : last.versions.entries.keys = files := hlast.tracked
    have hcontains := Table.contains_of_mem_keys (htracked.symm ▸ hf : f ∈ last.versions.entries.keys)
    obtain ⟨entry, he⟩ := Option.isSome_iff_exists.1 hcontains
    have hversion : last.versions.version? f = some entry.version := by
      rw [VersionTable.version?, he]
      rfl
    exact ⟨entry.version, hversion, hlast.told f hf _ hversion⟩

end Start

/-- A write fails once, the source is replaced again, and the session is ended before its last
tick. -/
def endedAfterFailure : List (Step (Ledger (Rehearsed Memory.Store))) :=
  failedWrite ++ [replaceSource "v3", .tick 600, .shutdown, .tick 900]

theorem events_follow_grammar_ended :
    ∃ session, (start failingChecker distConfig {} oneSource).1 = .ok session ∧
      ∃ (opening : List Block) (passes : List (List Change)),
        (play failingChecker endedAfterFailure session).events = .watchStarted "/p" 1 ::
          (opening.flatMap Block.told ++ (passes.flatten.flatMap Change.told ++ [.shutdown])) ∧
        opening.map (·.file) = [⟨"/p/a.ts"⟩] ∧
        versionsTold ⟨"/p/a.ts"⟩ (play failingChecker endedAfterFailure session).events = [1, 2] := by
  obtain ⟨session, h, hrun⟩ := exists_start
    (show (start failingChecker distConfig {} oneSource).1.toOption.any (fun session =>
      session.versions.files == [⟨"/p/a.ts"⟩] &&
        (play failingChecker endedAfterFailure session).stopped &&
        (play failingChecker endedAfterFailure session).versions.version? ⟨"/p/a.ts"⟩ == some 2) =
          true by decide +kernel)
  simp only [Bool.and_eq_true, beq_iff_eq] at hrun
  obtain ⟨⟨hfiles, hstopped⟩, hversion⟩ := hrun
  have hsteps : ∀ step ∈ endedAfterFailure, step.Unasked := by
    simp [endedAfterFailure, failedWrite, replaceSource, Step.Unasked]
  obtain ⟨_, opening, passes, hevents, _, hopening, _, _, _, _, _, honce, hnumbers⟩ :=
    events_follow_grammar (p := failingChecker) rfl LineChecker.frontEnd_onlyLooks h hsteps
  have hfound := honce _ _ (Rehearsed.storage_lists (Memory.Handle.storage_lists Memory.exact))
    (Memory.Handle.keyed_withFiles Memory.exact _)
  rw [← hfound, hfiles] at hopening
  rw [← hfound, hfiles, hstopped, if_pos rfl] at hevents
  rw [hfiles] at hnumbers
  obtain ⟨n, hn, htold⟩ := hnumbers ⟨"/p/a.ts"⟩ (List.mem_singleton_self _)
  cases hversion.symm.trans hn
  exact ⟨session, h, opening, passes, hevents, hopening, htold⟩

/-- The line checker over files in memory, when letter case does not count. -/
def foldingChecker : Platform (Ledger Memory.Store) LineChecker.Knowledge :=
  LineChecker.platform (Ledger.storage Memory.folding.storage)

/-- Two folders that were filled when letter case counted. -/
def twinFolders : World (Ledger Memory.Store) :=
  ⟨⟨Memory.exact.withFiles [(⟨"/P/b.ts"⟩, ""), (⟨"/p/a.ts"⟩, "")], []⟩, []⟩

def twinConfig : HostConfig := ⟨{ outDir := some ⟨"/dist"⟩ }, ⟨"/"⟩, {}⟩

/-- A file that two folders list is told of twice and tracked once. -/
theorem found_twice_tracked_once :
    ∃ session, (start foldingChecker twinConfig {} twinFolders).1 = .ok session ∧
      session.versions.files = [⟨"/p/a.ts"⟩] ∧
      session.events = [.watchStarted "/" 2, .emitted "/p/a.ts" ["/dist/a.js"] false,
        .emitted "/p/a.ts" ["/dist/a.js"] false] := by
  obtain ⟨session, h, hrun⟩ := exists_start
    (show (start foldingChecker twinConfig {} twinFolders).1.toOption.any (fun session =>
      session.versions.files == [⟨"/p/a.ts"⟩] && session.events == [.watchStarted "/" 2,
        .emitted "/p/a.ts" ["/dist/a.js"] false, .emitted "/p/a.ts" ["/dist/a.js"] false]) = true by
      decide +kernel)
  simp only [Bool.and_eq_true, beq_iff_eq] at hrun
  exact ⟨session, h, hrun.1, hrun.2⟩

end Session

end CompileWatch
