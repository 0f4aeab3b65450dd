import CompileWatch.Proofs.Watch.Deeds
import CompileWatch.Proofs.Watch.Reanalysis
import CompileWatch.Proofs.Watch.Timers

/-!
# Files are independent

When no write that is made for one file touches what is asked for another, each
file has its own deed, which is the same in whatever order the files come. What a
session has come to by some deeds can then be said without their order: a value is
the one that some deed has given it, and otherwise the old one (`Patched`). Only the
events keep the order, and each file has told its own in one piece.

Waking several files and ticking once checks them in path order; waking and ticking
them one at a time checks them as they are woken. Both are rounds of a session in
which no timer is due, and a round leaves none due (`Idle.round`).
-/

namespace CompileWatch

open CompileWatch.Path Memory

/-! ## Values given by some -/

/-- Whether new values are the old ones, but where some of many changes have given others. -/
structure Patched {ι κ β : Type} (change : ι → κ → Option β) (made : List ι) (old new : κ → Option β) :
    Prop where
  given : ∀ i ∈ made, ∀ k b, change i k = some b → new k = some b
  kept : ∀ k, (∀ i ∈ made, change i k = none) → new k = old k

namespace Patched

variable {ι κ β : Type} {change : ι → κ → Option β} {made made' : List ι} {old mid new new' : κ → Option β}

theorem nil (change : ι → κ → Option β) (old : κ → Option β) : Patched change [] old old :=
  ⟨fun _ hi => (List.not_mem_nil hi).elim, fun _ _ => rfl⟩

/-- One change more, of values that none of the others has given. -/
theorem concat (h : Patched change made old mid) {i : ι}
    (hapart : ∀ j ∈ made, ∀ k b, change j k = some b → change i k = none)
    (hnew : ∀ k, new k = (change i k).or (mid k)) : Patched change (made ++ [i]) old new where
  given j hj k b hb := by
    rw [hnew]
    rcases List.mem_append.1 hj with hj | hj
    · rw [hapart j hj k b hb, Option.none_or]
      exact h.given j hj k b hb
    · rw [← List.mem_singleton.1 hj, hb, Option.some_or]
  kept k hk := by
    rw [hnew, hk i (List.mem_append_right _ (List.mem_singleton_self i)), Option.none_or]
    exact h.kept k fun j hj => hk j (List.mem_append_left _ hj)

/-- The order of the changes does not matter. -/
theorem eq_of_mem_iff (h : Patched change made old new) (h' : Patched change made' old new')
    (hmem : ∀ i, i ∈ made ↔ i ∈ made') (k : κ) : new k = new' k := by
  by_cases hk : ∀ i ∈ made, change i k = none
  · rw [h.kept k hk, h'.kept k fun i hi => hk i ((hmem i).2 hi)]
  · obtain ⟨i, hi⟩ := not_forall.1 hk
    obtain ⟨hi, hgiven⟩ := Classical.not_imp.1 hi
    obtain ⟨b, hb⟩ := Option.ne_none_iff_exists'.1 hgiven
    rw [h.given i hi k b hb, h'.given i ((hmem i).1 hi) k b hb]

end Patched

namespace Memory

theorem exists_of_laid {h : Handle} {key : Path} {text : String} : ∀ {artifacts : List Artifact},
    laid h key artifacts = some text → ∃ a ∈ artifacts, h.place a.path = key.components
  | a :: rest, hl => by
      rw [laid, Option.or_eq_some_iff] at hl
      rcases hl with hrest | ⟨-, hfirst⟩
      · obtain ⟨b, hb, hkey⟩ := exists_of_laid hrest
        exact ⟨b, List.mem_cons_of_mem a hb, hkey⟩
      · split at hfirst
        · next hsame => exact ⟨a, List.mem_cons_self, same_iff.1 hsame⟩
        · cases hfirst

end Memory

/-- Whether nothing that is asked in some calls is touched by the writes that were made in others, and
no file is written in both. -/
def Unaffected (h : Handle) (s : Store) (writes calls : List Call) : Prop :=
  ∀ written ∈ writes, written.isMade = true → ∀ call ∈ calls,
    call.Spared h s (h.place written.path) ∧
      (call.isMade = true → h.place call.path ≠ h.place written.path)

instance (h : Handle) (s : Store) (writes calls : List Call) :
    Decidable (Unaffected h s writes calls) :=
  inferInstanceAs (Decidable (∀ written ∈ writes, _))

namespace Session

/-! ## Sessions reached by deeds -/

section Reached

variable {ρ : Type} {h : Handle} {p : Platform (Traced Store) (Knowledge ρ)} {deed : Path → Deed ρ}
  {s t : Session (Traced Store) (Knowledge ρ)} {done : List Path}

/-- Whether a session is what the deeds of some files, done in order, make of another. -/
structure Reached (h : Handle) (deed : Path → Deed ρ) (s : Session (Traced Store) (Knowledge ρ))
    (done : List Path) (t : Session (Traced Store) (Knowledge ρ)) : Prop where
  config : t.config = s.config
  files : t.versions.files = s.versions.files
  entries : Patched (fun f => (deed f).entryAt? f) done s.versions.entries.find?
    t.versions.entries.find?
  known : Patched (fun f => (deed f).analysisAt? f) done s.knowledge.analyses.find?
    t.knowledge.analyses.find?
  texts : Patched (fun f key => laid h key (deed f).made) done s.world.store.inner.text?
    t.world.store.inner.text?
  added : Added (fun place => ∃ f ∈ done, ∃ a ∈ (deed f).made, h.place a.path = place)
    s.world.store.inner t.world.store.inner
  calls : t.world.store.calls = s.world.store.calls ++ done.flatMap fun f => (deed f).calls
  events : t.events = s.events ++ done.flatMap fun f => (deed f).told

/-- Whether the deed of one file has nothing to do with that of another. -/
def Apart (h : Handle) (deed : Path → Deed ρ) (s : Session (Traced Store) (Knowledge ρ))
    (f g : Path) : Prop :=
  f.same g = false ∧ Unaffected h s.world.store.inner (deed f).calls (deed g).calls

/-- What is given to a path by one file is not given by another. -/
theorem none_of_other {β : Type} {f g path : Path} (hfg : f.same g = false) {x y : Option β} {b : β}
    (hb : (if f.same path then x else none) = some b) : (if g.same path then y else none) = none := by
  refine if_neg fun hg => ?_
  split at hb
  · next hf =>
    have hsame : f.same g = true := same_iff.2 ((same_iff.1 hf).trans (same_iff.1 hg).symm)
    cases hfg.symm.trans hsame
  · cases hb

namespace Reached

theorem refl (h : Handle) (deed : Path → Deed ρ) (s : Session (Traced Store) (Knowledge ρ)) :
    Reached h deed s [] s where
  config := rfl
  files := rfl
  entries := .nil _ _
  known := .nil _ _
  texts := .nil _ _
  added := .refl _ _
  calls := (List.append_nil _).symm
  events := (List.append_nil _).symm

theorem ignoresTimers : IgnoresTimers (Reached h deed s done) := fun _ _ _ _ hr =>
  ⟨hr.config, hr.files, hr.entries, hr.known, hr.texts, hr.added, hr.calls, hr.events⟩

theorem agreesOn (hr : Reached h deed s done t) {file : Path}
    (hapart : ∀ f ∈ done, Apart h deed s f file) : AgreesOn file s t where
  config := hr.config
  files := hr.files
  entry := hr.entries.kept file fun f hf => by
    rw [Deed.entryAt?, (hapart f hf).1]
    rfl
  known := hr.known.kept file fun f hf => by
    rw [Deed.analysisAt?, (hapart f hf).1]
    rfl

theorem versions_eq {done' : List Path} {u : Session (Traced Store) (Knowledge ρ)}
    (hr : Reached h deed s done t) (hr' : Reached h deed s done' u)
    (hmem : ∀ f, f ∈ done ↔ f ∈ done') : t.versions = u.versions :=
  congrArg VersionTable.mk (Table.eq_of_find?_eq (hr.files.trans hr'.files.symm)
    (hr.entries.eq_of_mem_iff hr'.entries hmem))

variable (hdeed : ∀ f, Does h s f (deed f) (Session.check p f))

include hdeed

/-- A check of one more file, which has nothing to do with the others. -/
theorem check (hr : Reached h deed s done t) {file : Path}
    (hapart : ∀ f ∈ done, Apart h deed s f file) :
    Reached h deed s (done ++ [file]) (after (Session.check p file) t) := by
  -- nothing that was written so far touches what this check asks
  have hwritten : ∀ f ∈ done, ∀ a ∈ (deed f).made, ∀ call ∈ (deed file).calls,
      call.Spared h s.world.store.inner (h.place a.path) ∧
        (call.isMade = true → h.place call.path ≠ h.place a.path) := fun f hf a ha =>
    (hapart f hf).2 (.write a.path true) ((hdeed f).made a ha) rfl
  have hdone := (hdeed file).again _ t (hr.agreesOn hapart) hr.added (by
    rintro call hc place ⟨f, hf, a, ha, rfl⟩
    exact (hwritten f hf a ha call hc).1)
  refine ⟨hdone.config.trans hr.config, hdone.files.trans hr.files, ?_, ?_, ?_, ?_, ?_, ?_⟩
  · exact hr.entries.concat (fun f hf g entry hentry => none_of_other (hapart f hf).1 hentry)
      hdone.entries
  · exact hr.known.concat (fun f hf g analysis hknown => none_of_other (hapart f hf).1 hknown)
      hdone.known
  · refine hr.texts.concat (fun f hf key text htext => ?_) fun key => ?_
    · -- a key that both had written would be one place of two writes
      obtain ⟨a, ha, hkey⟩ := exists_of_laid htext
      refine Option.eq_none_iff_forall_ne_some.2 fun other hother => ?_
      obtain ⟨b, hb, hkey'⟩ := exists_of_laid hother
      exact (hwritten f hf a ha _ ((hdeed file).made b hb)).2 rfl (hkey'.trans hkey.symm)
    · rw [hdone.store]
      exact Store.text?_lay key _ _
  · rw [hdone.store]
    refine (hr.added.mono fun place => ?_).lay fun a ha => ?_
    · rintro ⟨f, hf, hmade⟩
      exact ⟨f, List.mem_append_left _ hf, hmade⟩
    · exact ⟨file, List.mem_append_right _ (List.mem_singleton_self file), a, ha, rfl⟩
  · rw [hdone.store, hr.calls, List.append_assoc, List.flatMap_append, List.flatMap_singleton]
  · rw [hdone.events, hr.events, List.append_assoc, List.flatMap_append, List.flatMap_singleton]

/-- Checks of more files, no two of which have to do with each other. -/
theorem checkAll (now : Moment) : ∀ {rest done : List Path}
    {t : Session (Traced Store) (Knowledge ρ)}, Reached h deed s done t →
      (done ++ rest).Pairwise (Apart h deed s) →
      Reached h deed s (done ++ rest) (after (Session.checkAll p now rest) t)
  | [], done, t, hr, _ => by
      rw [List.append_nil]
      exact hr
  | file :: rest, done, t, hr, hpairwise => by
      have hapart := (List.pairwise_append.1 hpairwise).2.2
      have hfirst := hr.check hdeed fun f hf => hapart f hf file List.mem_cons_self
      have hpolled := keeps_arm ignoresTimers file now _ hfirst
      rw [List.append_cons] at hpairwise ⊢
      exact checkAll now hpolled hpairwise

end Reached

end Reached

/-! ## Rounds -/

section Rounds

variable {σ κ : Type} {p : Platform σ κ}

theorem any_waiting (files waiting : List Path) (path : Path) :
    ((files.map Step.wake).foldl (fun paths (step : Step σ) => step.waiting paths) waiting).any
      (·.same path) = (files.any (·.same path) || waiting.any (·.same path)) := by
  induction files generalizing waiting with
  | nil => rfl
  | cons file rest ih =>
      rw [List.map_cons, List.foldl_cons, ih, Step.waiting, List.any_cons, List.any_cons,
        Bool.or_left_comm, Bool.or_assoc]

theorem keeps_wakes {Q : Session σ κ → Prop} (ht : IgnoresTimers Q) (files : List Path) :
    ∀ s, Q s → Q (play p (files.map .wake) s) := by
  refine keeps_play fun step hstep => ?_
  obtain ⟨file, -, rfl⟩ := List.mem_map.1 hstep
  exact keeps_wake ht file

theorem schedule_wakes (files : List Path) (s : Session σ κ) :
    (play p (files.map .wake) s).schedule = s.schedule := by
  refine keeps_play (Q := fun t => t.schedule = s.schedule) (fun step hstep t ht => ?_) s rfl
  obtain ⟨file, -, rfl⟩ := List.mem_map.1 hstep
  exact ht

/-- A session that goes on, with timers of which none is due. -/
structure Idle (tracked : List Path) (interval : Nat) (now : Moment) (s : Session σ κ) : Prop where
  timed : ∃ waiting, Timed tracked interval waiting s
  quiet : dueFiles now s = []

namespace Idle

variable {tracked : List Path} {interval : Nat} {now : Moment} {s : Session σ κ}
  (hi : Idle tracked interval now s) {files : List Path} (hfiles : ∀ f ∈ files, f ∈ tracked)

include hi hfiles

theorem isDue_woken {waiting : List Path} (ht : Timed tracked interval waiting s) {file : Path}
    (hfile : file ∈ tracked) :
    (play p (files.map .wake) s).isDue now
        ((files.map Step.wake).foldl (fun paths (step : Step σ) => step.waiting paths) waiting) file =
      decide (file ∈ files) := by
  have hquiet : s.isDue now waiting file = false := by
    have hnone := hi.quiet
    rw [ht.dueFiles_eq, List.filter_eq_nil_iff] at hnone
    exact Bool.eq_false_iff.2 (hnone file hfile)
  rw [isDue, Bool.or_eq_false_iff] at hquiet
  rw [isDue, schedule_wakes, any_waiting, hquiet.1, hquiet.2, Bool.false_or, Bool.or_false,
    Bool.eq_iff_iff, List.any_eq_true, decide_eq_true_iff]
  constructor
  · rintro ⟨f, hf, hsame⟩
    obtain rfl := ht.tracked
    rwa [← Table.eq_of_mem_keys (hfiles f hf) hfile hsame]
  · exact fun hf => ⟨file, hf, same_self file⟩

/-- The files that were woken are checked, in path order, and then no timer is due again. -/
theorem round (hpositive : 0 < interval) :
    let woken := play p (files.map .wake) s
    after (tick p now) woken =
        after (checkAll p now (tracked.filter (· ∈ files))) (opened now woken) ∧
      Idle tracked interval now (after (tick p now) woken) := by
  intro woken
  obtain ⟨waiting, ht⟩ := hi.timed
  have htimed := ht.play (p := p) (files.map .wake) (by simp)
  have hdue : ∀ f ∈ tracked, woken.isDue now _ f = decide (f ∈ files) := fun f hf =>
    hi.isDue_woken hfiles ht hf
  have hchecked : dueFiles now woken = tracked.filter (· ∈ files) := by
    rw [htimed.dueFiles_eq]
    exact List.filter_congr hdue
  refine ⟨?_, ⟨[], htimed.tick now⟩, ?_⟩
  · rw [after_tick_of_running htimed.running, hchecked]
  · rw [(htimed.tick now).dueFiles_eq, List.filter_eq_nil_iff]
    intro f hf
    -- a file that was checked is armed for a later time, and any other was not due
    rw [isDue, List.any_nil, Bool.or_false, htimed.find?_schedule_tick now hf]
    split
    · rw [Option.any_some, decide_eq_true_iff]
      exact Nat.not_le.2 (Nat.lt_add_of_pos_right hpositive)
    · next hnot =>
      rw [isDue, Bool.or_eq_true, not_or] at hnot
      exact hnot.1

end Idle

end Rounds

/-! ## Runs of one file alone -/

section Alone

variable {σ κ : Type} (p : Platform σ κ) (now : Moment) (s : Session σ κ) (file : Path)

/-- A session in which one file was woken, and then looked at. -/
def alone : Session σ κ := play p [.wake file, .tick now] s

/-- What is told of a file that is woken alone. -/
def toldAlone : List WatchEvent := (alone p now s file).events.drop s.events.length

/-- The calls that are made for a file that is woken alone. -/
def callsAlone {κ : Type} (p : Platform (Traced Store) κ) (now : Moment)
    (s : Session (Traced Store) κ) (file : Path) : List Call :=
  (alone p now s file).world.store.calls.drop s.world.store.calls.length

end Alone

section Reached

variable {ρ : Type} {h : Handle} {p : Platform (Traced Store) (Knowledge ρ)} {deed : Path → Deed ρ}
  {s t : Session (Traced Store) (Knowledge ρ)} {tracked : List Path} {interval : Nat} {now : Moment}
  (hdeed : ∀ f, Does h s f (deed f) (Session.check p f)) (hpositive : 0 < interval)

include hdeed hpositive

/-- A round of files that have nothing to do with each other, nor with those that came before. -/
theorem Reached.round {done files : List Path} (hr : Reached h deed s done t)
    (hi : Idle tracked interval now t) (hfiles : ∀ f ∈ files, f ∈ tracked)
    (hpairwise : (done ++ tracked.filter (· ∈ files)).Pairwise (Apart h deed s)) :
    let last := play p (files.map .wake ++ [.tick now]) t
    Reached h deed s (done ++ tracked.filter (· ∈ files)) last ∧ Idle tracked interval now last := by
  intro last
  obtain ⟨hchecked, hidle⟩ := hi.round (p := p) hfiles hpositive
  have hlast : last = after (tick p now) (play p (files.map .wake) t) := play_append _ _ t
  rw [hlast]
  refine ⟨?_, hidle⟩
  rw [hchecked]
  have hwoken := keeps_wakes (p := p) ignoresTimers files t hr
  exact checkAll hdeed now (keeps_opened ignoresTimers hwoken) hpairwise

/-- Files that are woken and looked at one at a time. -/
theorem Reached.rounds (hnodup : tracked.Nodup) : ∀ {order done : List Path}
    {t : Session (Traced Store) (Knowledge ρ)}, Reached h deed s done t →
      Idle tracked interval now t → (∀ f ∈ order, f ∈ tracked) →
      (done ++ order).Pairwise (Apart h deed s) →
      Reached h deed s (done ++ order)
        (play p (order.flatMap fun f => [.wake f, .tick now]) t)
  | [], done, t, hr, _, _, _ => by
      rw [List.append_nil]
      exact hr
  | file :: rest, done, t, hr, hi, htracked, hpairwise => by
      have hfile := htracked file List.mem_cons_self
      have honly : tracked.filter (· ∈ [file]) = [file] := by
        simp only [List.mem_singleton]
        rw [List.filter_eq, List.count_eq_one_of_mem hnodup hfile]
        rfl
      have halone : ∀ f ∈ [file], f ∈ tracked := fun f hf => List.mem_singleton.1 hf ▸ hfile
      rw [List.append_cons] at hpairwise
      have hround := hr.round hdeed hpositive hi halone
      rw [honly] at hround
      obtain ⟨hfirst, hidle⟩ := hround (List.pairwise_append.1 hpairwise).1
      rw [List.flatMap_cons, play_append, List.append_cons]
      exact rounds hnodup hfirst hidle (fun f hf => htracked f (List.mem_cons_of_mem _ hf)) hpairwise

omit hdeed

/-- Files that have nothing to do with each other have the same deeds, in whatever order they come. -/
theorem exists_reached {analyst : Analyst (Traced Store) ρ} (hp : p.Reads h analyst)
    (hi : Idle tracked interval now s) (hsorted : tracked.Nodup) {files order : List Path}
    (hnodup : files.Nodup) (hfiles : ∀ f ∈ files, f ∈ tracked) (horder : order.Perm files)
    (hindependent : ∀ f ∈ files, ∀ g ∈ files, f ≠ g →
      Unaffected h s.world.store.inner (callsAlone p now s f) (callsAlone p now s g)) :
    ∃ deed : Path → Deed ρ, (∀ f ∈ files, toldAlone p now s f = (deed f).told) ∧
      Reached h deed s (tracked.filter (· ∈ files)) (play p (files.map .wake ++ [.tick now]) s) ∧
      Reached h deed s order (play p (order.flatMap fun f => [.wake f, .tick now]) s) := by
  -- the deeds are those of the present session, whatever comes in between
  choose deed hdeed using fun f => exists_deed hp f s
  have hnone : Reached h deed s [] s := .refl h deed s
  have halone : ∀ f ∈ files, Reached h deed s [f] (alone p now s f) := fun f hf =>
    hnone.rounds hdeed hpositive hsorted hi (fun g hg => List.mem_singleton.1 hg ▸ hfiles f hf)
      (List.pairwise_singleton _ _)
  have hcalls : ∀ f ∈ files, callsAlone p now s f = (deed f).calls := by
    intro f hf
    rw [callsAlone, (halone f hf).calls, List.flatMap_singleton, List.drop_left]
  have htold : ∀ f ∈ files, toldAlone p now s f = (deed f).told := by
    intro f hf
    rw [toldAlone, (halone f hf).events, List.flatMap_singleton, List.drop_left]
  have hapart : ∀ f ∈ files, ∀ g ∈ files, f ≠ g → Apart h deed s f g := by
    intro f hf g hg hne
    refine ⟨Bool.eq_false_iff.2 fun hsame => hne ?_, ?_⟩
    · obtain ⟨_, htimed⟩ := hi.timed
      obtain rfl := htimed.tracked
      exact Table.eq_of_mem_keys (hfiles f hf) (hfiles g hg) hsame
    · rw [← hcalls f hf, ← hcalls g hg]
      exact hindependent f hf g hg hne
  have hpairwise : ∀ {paths : List Path}, paths.Nodup → (∀ f ∈ paths, f ∈ files) →
      paths.Pairwise (Apart h deed s) := fun hn hpaths =>
    hn.pairwise_of_forall_ne fun f hf g hg hne => hapart f (hpaths f hf) g (hpaths g hg) hne
  refine ⟨deed, htold, ?_, ?_⟩
  · have hchecked : ∀ f ∈ tracked.filter (· ∈ files), f ∈ files := fun f hf => by
      simpa using (List.mem_filter.1 hf).2
    exact (hnone.round hdeed hpositive hi hfiles (hpairwise (hsorted.filter _) hchecked)).1
  · exact hnone.rounds hdeed hpositive hsorted hi (fun f hf => hfiles f (horder.mem_iff.1 hf))
      (hpairwise (horder.nodup_iff.2 hnodup) fun f hf => horder.mem_iff.1 hf)

end Reached

/-! ## Ended sessions -/

section Ended

variable {σ κ : Type} {p : Platform σ κ}

/-- A session that was ended, and in which nothing has happened since. -/
structure Ended (s t : Session σ κ) : Prop where
  stopped : t.stopped = true
  versions : t.versions = s.versions
  world : t.world = s.world
  events : t.events = s.events

theorem Ended.play {s : Session σ κ} (h : s.stopped = true) {steps : List (Step σ)}
    (hsteps : ∀ step ∈ steps, step.IsRoutine) : Ended s (play p steps s) := by
  obtain ⟨pending, hplay⟩ := play_of_stopped steps h hsteps
  rw [hplay]
  exact ⟨h, rfl, rfl, rfl⟩

end Ended

/-- In every session over files in memory, whatever was done to it and to its files before, at every
moment at which a tick finds no timer due: if no write that is made for one of some tracked files
touches what is asked for another, or goes to a file that is written for another, then it is the same
whether they are woken together or one at a time, in any order. Versions, times and texts come out the
same, and each file has its own events told in one piece: those it has told when it is woken alone. -/
theorem files_are_independent {ρ : Type} {h : Handle} {p : Platform (Traced Store) (Knowledge ρ)}
    {analyst : Analyst (Traced Store) ρ} (hp : p.Reads h analyst) {config : HostConfig}
    {options : WatchOptions} {world : World (Traced Store)}
    {session : Session (Traced Store) (Knowledge ρ)}
    (hstart : (start p config options world).1 = .ok session) (hpositive : 0 < options.interval)
    (steps : List (Step (Traced Store))) (now : Moment) {files order : List Path}
    (hnodup : files.Nodup) (htracked : ∀ f ∈ files, f ∈ session.versions.files)
    (horder : order.Perm files) :
    let s := play p steps session
    dueFiles now s = [] →
    (∀ f ∈ files, ∀ g ∈ files, f ≠ g →
      Unaffected h s.world.store.inner (callsAlone p now s f) (callsAlone p now s g)) →
    let once := play p (files.map .wake ++ [.tick now]) s
    let singly := play p (order.flatMap fun f => [.wake f, .tick now]) s
    once.versions = singly.versions ∧
      (∀ key, once.world.store.inner.text? key = singly.world.store.inner.text? key) ∧
      once.events = s.events ++
        (session.versions.files.filter (· ∈ files)).flatMap (toldAlone p now s) ∧
      singly.events = s.events ++ order.flatMap (toldAlone p now s) := by
  intro s hquiet hindependent once singly
  have hsorted : session.versions.files.Nodup := by
    refine session.versions.entries.pairwise_keys.imp fun {f g} hlt heq => ?_
    rw [heq] at hlt
    exact Table.not_lt_self g hlt
  rcases timed_or_stopped hstart steps with htimed | hstopped
  · obtain ⟨deed, htold, honce, hsingly⟩ := exists_reached hpositive hp ⟨htimed, hquiet⟩ hsorted
      hnodup htracked horder hindependent
    have hmem : ∀ f, f ∈ session.versions.files.filter (· ∈ files) ↔ f ∈ files := by
      intro f
      rw [List.mem_filter, decide_eq_true_iff]
      exact and_iff_right_of_imp (htracked f)
    have hsame : ∀ f, f ∈ session.versions.files.filter (· ∈ files) ↔ f ∈ order := fun f =>
      (hmem f).trans horder.mem_iff.symm
    refine ⟨honce.versions_eq hsingly hsame, honce.texts.eq_of_mem_iff hsingly.texts hsame, ?_, ?_⟩
    · exact honce.events.trans (congrArg _ (List.flatMap_congr fun f hf =>
        (htold f ((hmem f).1 hf)).symm))
    · exact hsingly.events.trans (congrArg _ (List.flatMap_congr fun f hf =>
        (htold f (horder.mem_iff.1 hf)).symm))
  · -- an ended session does nothing but collect the notices
    have honce : Ended s once := .play hstopped (by simp [or_imp, forall_and])
    have hsingly : Ended s singly := .play hstopped (by simp +contextual [or_imp])
    have htold : ∀ f, toldAlone p now s f = [] := by
      intro f
      have halone : Ended s (alone p now s f) := .play hstopped (by simp [or_imp, forall_and])
      rw [toldAlone, halone.events, List.drop_length]
    refine ⟨honce.versions.trans hsingly.versions.symm, fun key => ?_, ?_, ?_⟩
    · rw [honce.world, hsingly.world]
    · rw [honce.events, List.flatMap_eq_nil_iff.2 fun f _ => htold f, List.append_nil]
    · rw [hsingly.events, List.flatMap_eq_nil_iff.2 fun f _ => htold f, List.append_nil]

/-- Two sources are edited, one of which imports the other. -/
def editedSteps : List (Step (Traced Store)) :=
  [editTraced (.insert ⟨"/p/a.ts"⟩ "let a2"),
    editTraced (.insert ⟨"/p/b.ts"⟩ "import y from \"./a\"")]

def toldEdited (source output : String) : List WatchEvent :=
  [.fileChanged source 1, .emitted source [output] false]

theorem files_are_independent_imported :
    ∃ session, (start tracedChecker (.plain "/p") {} tracedSources).1 = .ok session ∧
      let s := play tracedChecker editedSteps session
      let once := play tracedChecker [.wake ⟨"/p/a.ts"⟩, .wake ⟨"/p/b.ts"⟩, .tick 10] s
      let singly := play tracedChecker
        [.wake ⟨"/p/b.ts"⟩, .tick 10, .wake ⟨"/p/a.ts"⟩, .tick 10] s
      once.versions = singly.versions ∧
        once.events = s.events ++
          (toldEdited "/p/a.ts" "/p/a.js" ++ toldEdited "/p/b.ts" "/p/b.js") ∧
        singly.events = s.events ++
          (toldEdited "/p/b.ts" "/p/b.js" ++ toldEdited "/p/a.ts" "/p/a.js") := by
  obtain ⟨session, hstart, hrun⟩ := exists_start
    (show (start tracedChecker (.plain "/p") {} tracedSources).1.toOption.any (fun session =>
      let s := play tracedChecker editedSteps session
      let store := s.world.store.inner
      let calls := callsAlone tracedChecker 10 s
      session.versions.files == [⟨"/p/a.ts"⟩, ⟨"/p/b.ts"⟩] && dueFiles 10 s == [] &&
        decide (Unaffected exact store (calls ⟨"/p/a.ts"⟩) (calls ⟨"/p/b.ts"⟩)) &&
        decide (Unaffected exact store (calls ⟨"/p/b.ts"⟩) (calls ⟨"/p/a.ts"⟩)) &&
        toldAlone tracedChecker 10 s ⟨"/p/a.ts"⟩ == toldEdited "/p/a.ts" "/p/a.js" &&
        toldAlone tracedChecker 10 s ⟨"/p/b.ts"⟩ == toldEdited "/p/b.ts" "/p/b.js") = true by
      decide +kernel)
  simp only [Bool.and_eq_true, beq_iff_eq, decide_eq_true_iff] at hrun
  obtain ⟨⟨⟨⟨⟨hfiles, hquiet⟩, hfirst⟩, hsecond⟩, ha⟩, hb⟩ := hrun
  have htracked : ∀ f ∈ ([⟨"/p/a.ts"⟩, ⟨"/p/b.ts"⟩] : List Path), f ∈ session.versions.files := by
    simp [hfiles]
  have horder : ([⟨"/p/b.ts"⟩, ⟨"/p/a.ts"⟩] : List Path).Perm [⟨"/p/a.ts"⟩, ⟨"/p/b.ts"⟩] :=
    .swap _ _ _
  have hreads : tracedChecker.Reads exact LineChecker.analyst := LineChecker.reads exact
  have hone := files_are_independent hreads hstart (by decide) editedSteps 10 (by decide) htracked
    horder
  refine ⟨session, hstart, ?_⟩
  dsimp only at hone ⊢
  -- the run is long, and nothing of it is needed any more
  generalize play tracedChecker editedSteps session = s at *
  obtain ⟨hversions, -, honce, hsingly⟩ := hone hquiet fun f hf g hg hne => by
    simp only [List.mem_cons, List.not_mem_nil, or_false] at hf hg
    rcases hf with rfl | rfl <;> rcases hg with rfl | rfl
    · exact absurd rfl hne
    · exact hfirst
    · exact hsecond
    · exact absurd rfl hne
  refine ⟨hversions, honce.trans ?_, hsingly.trans ?_⟩
  · simp [hfiles, ha, hb]
  · simp [ha, hb]

end Session

end CompileWatch
