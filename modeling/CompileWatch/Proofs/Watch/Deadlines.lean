import CompileWatch.Proofs.Watch.Timers
import Mathlib.Data.List.Induction

/-!
# Timers fire when they are due, and once

Timers are armed, woken, taken and cleared in any order, at moments that need not
go forward. When the timer of a file is due can still be told from the log: the
last time it was armed counts, unless it was taken or cleared since, and then it
is due one interval later, or at the moment at which it was woken last since then
(`Deadline`). A schedule holds exactly these moments (`find?_history`), because no
use changes them in any other way (`find?_act`).

All else is read off the deadlines (`timers_fire_when_due`). A file is not taken
twice without being armed in between, since taking it ends its deadline and only
arming makes a new one: this is what keeps the checks of one file apart.
-/

namespace CompileWatch

open CompileWatch.Path

namespace PollSchedule

/-! ## Uses of timers -/

/-- What is done to timers. -/
inductive Use where
  | arm (path : Path) (now : Moment)
  | wake (path : Path) (now : Moment)
  | takeDue (now : Moment)
  | clear

/-- A use as an action. It answers with the files that it takes. -/
def Use.act : Use → StateM PollSchedule (List Path)
  | arm path now => fun s => ([], s.arm path now)
  | wake path now => fun s => ([], s.wake path now)
  | takeDue now => fun s => s.takeDue now
  | clear => fun s => ([], s.clear)

/-- The timers that some uses have made from none. -/
def history (interval : Nat) (uses : List Use) : PollSchedule :=
  Run.play Use.act uses { interval }

/-- A use with its answer. -/
abbrev Entry := Use × List Path

abbrev Log := List Entry

def log (interval : Nat) (uses : List Use) : Log := Run.log Use.act uses { interval }

/-! ## Deadlines -/

section Entries

variable (path : Path)

/-- The moment at which an entry of a log arms the timer of a file. -/
def armedAt? : Entry → Option Moment
  | (.arm q now, _) => if q.same path then some now else none
  | _ => none

/-- The moment at which an entry of a log wakes a file. -/
def wokenAt? : Entry → Option Moment
  | (.wake q now, _) => if q.same path then some now else none
  | _ => none

/-- Whether an entry of a log takes a file, or clears all timers. -/
def isEnd : Entry → Bool
  | (.takeDue _, taken) => taken.any (·.same path)
  | (.clear, _) => true
  | _ => false

end Entries

/-- Whether an entry arms the timer of a file, and those after it leave it armed and due at a
moment. -/
def RunsTo (interval : Nat) (path : Path) (moment : Moment) (e : Entry) (since : Log) : Prop :=
  ∃ start, armedAt? path e = some start ∧
    (∀ l ∈ since, armedAt? path l = none ∧ isEnd path l = false) ∧
    (since.filterMap (wokenAt? path)).getLast?.getD (start + interval) = moment

/-- The moment at which a file comes due after a log, if its timer was armed and neither taken nor
cleared since. -/
def Deadline (interval : Nat) (path : Path) (log : Log) (moment : Moment) : Prop :=
  ∃ earlier e since, log = earlier ++ e :: since ∧ RunsTo interval path moment e since

variable {interval : Nat} {path : Path} {moment : Moment}

theorem runsTo_nil {e : Entry} : RunsTo interval path moment e [] ↔
    ∃ start, armedAt? path e = some start ∧ start + interval = moment := by
  simp [RunsTo]

theorem runsTo_concat {e last : Entry} {since : Log} :
    RunsTo interval path moment e (since ++ [last]) ↔
      armedAt? path last = none ∧ isEnd path last = false ∧
        ∃ old, RunsTo interval path old e since ∧ (wokenAt? path last).getD old = moment := by
  have hlatest : ∀ start,
      ((since ++ [last]).filterMap (wokenAt? path)).getLast?.getD start =
        (wokenAt? path last).getD ((since.filterMap (wokenAt? path)).getLast?.getD start) := by
    intro start
    cases h : wokenAt? path last <;> simp [List.filterMap_append, h]
  constructor
  · rintro ⟨start, harmed, hsince, rfl⟩
    obtain ⟨hnone, hend⟩ := hsince last List.mem_concat_self
    exact ⟨hnone, hend, _, ⟨start, harmed, fun l hl => hsince l (List.mem_append_left _ hl), rfl⟩,
      (hlatest _).symm⟩
  · rintro ⟨hnone, hend, _, ⟨start, harmed, hsince, rfl⟩, rfl⟩
    refine ⟨start, harmed, fun l hl => ?_, hlatest _⟩
    obtain hl | hl := List.mem_append.1 hl
    · exact hsince l hl
    · rw [List.mem_singleton.1 hl]
      exact ⟨hnone, hend⟩

/-- An entry arms a timer anew or ends it, and otherwise moves its deadline at most. -/
theorem deadline_concat {log : Log} {e : Entry} :
    Deadline interval path (log ++ [e]) moment ↔
      (∃ start, armedAt? path e = some start ∧ start + interval = moment) ∨
      armedAt? path e = none ∧ isEnd path e = false ∧
        ∃ old, Deadline interval path log old ∧ (wokenAt? path e).getD old = moment := by
  rw [Deadline, Run.split_concat_iff, runsTo_nil]
  refine or_congr_right ?_
  simp only [runsTo_concat]
  constructor
  · rintro ⟨earlier, arming, since, hlog, hnone, hend, old, hruns, hold⟩
    exact ⟨hnone, hend, old, ⟨earlier, arming, since, hlog, hruns⟩, hold⟩
  · rintro ⟨hnone, hend, old, ⟨earlier, arming, since, hlog, hruns⟩, hold⟩
    exact ⟨earlier, arming, since, hlog, hnone, hend, old, hruns, hold⟩

/-! ## What a schedule holds -/

/-- What a use does to the timer of a file can be told from its entry in the log. -/
theorem find?_act (s : PollSchedule) (use : Use) (path : Path) :
    let e := (use, answer use.act s)
    (after use.act s).due.find? path =
      match armedAt? path e with
      | some start => some (start + s.interval)
      | none =>
        if isEnd path e then none
        else (s.due.find? path).map fun old => (wokenAt? path e).getD old := by
  cases use with
  | arm q now =>
      show (s.due.set q (now + s.interval)).find? path = _
      rw [Table.find?_set]
      cases h : q.same path <;> simp [armedAt?, isEnd, wokenAt?, h]
  | wake q now =>
      show (s.wake q now).due.find? path = _
      rw [find?_wake]
      cases h : q.same path <;> simp [armedAt?, isEnd, wokenAt?, h]
  | takeDue now =>
      show (s.takeDue now).2.due.find? path = if (s.dueAt now).any (·.same path) then _ else _
      rw [find?_takeDue, any_dueAt]
      cases s.due.find? path with
      | none => rfl
      | some t => by_cases hle : t ≤ now <;> simp [wokenAt?, hle]
  | clear => rfl

theorem interval_act (s : PollSchedule) (use : Use) :
    (after use.act s).interval = s.interval := by
  cases use with
  | wake q now => exact s.wake_interval q now
  | arm _ _ | takeDue _ | clear => rfl

theorem interval_history (interval : Nat) (uses : List Use) :
    (history interval uses).interval = interval := by
  induction uses using List.reverseRecOn with
  | nil => rfl
  | append_singleton uses use ih => rw [history, Run.play_concat, ← history, interval_act, ih]

/-- A schedule holds the deadlines of its log, and nothing else. -/
theorem find?_history (uses : List Use) :
    (history interval uses).due.find? path = some moment ↔
      Deadline interval path (log interval uses) moment := by
  induction uses using List.reverseRecOn generalizing moment with
  | nil =>
      have hnone : (history interval []).due.find? path = none := rfl
      simp [hnone, log, Run.log, Deadline]
  | append_singleton uses use ih =>
      rw [log, Run.log_concat, ← log, deadline_concat, history, Run.play_concat, ← history,
        find?_act, interval_history]
      simp only [← ih]
      generalize (use, answer use.act (history interval uses)) = e
      cases armedAt? path e with
      | some start => simp
      | none => cases isEnd path e <;> simp

/-! ## Outcome -/

theorem any_takeDue_iff (uses : List Use) (now : Moment) (path : Path) :
    ((history interval uses).takeDue now).1.any (·.same path) = true ↔
      ∃ moment, Deadline interval path (log interval uses) moment ∧ moment ≤ now := by
  rw [takeDue, any_dueAt, Option.any_eq_true]
  simp only [find?_history, decide_eq_true_eq]

theorem dueAt_ne_nil_iff (s : PollSchedule) (now : Moment) :
    s.dueAt now ≠ [] ↔ ∃ next, s.nextDue? = some next ∧ next ≤ now := by
  have hdue : s.dueAt now ≠ [] ↔ ∃ t ∈ s.due.values, t ≤ now := by
    simp [dueAt, Table.entries, Table.values]
  rw [hdue, nextDue?]
  constructor
  · rintro ⟨t, ht, hle⟩
    obtain ⟨next, hnext⟩ := Option.isSome_iff_exists.1 (List.isSome_min?_of_mem ht)
    exact ⟨next, hnext, Nat.le_trans ((List.min?_eq_some_iff.1 hnext).2 t ht) hle⟩
  · rintro ⟨next, hnext, hle⟩
    exact ⟨next, (List.min?_eq_some_iff.1 hnext).1, hle⟩

theorem armedAt?_of_isEnd : ∀ {e : Entry}, isEnd path e = true → armedAt? path e = none
  | (.takeDue _, _), _ | (.clear, _), _ => rfl
  | (.arm _ _, _), h | (.wake _ _, _), h => by cases h

/-- A deadline after an entry that has ended the one before it comes from a later arming. -/
theorem Deadline.armed_since {earlier since : Log} {e : Entry}
    (hend : isEnd path e = true) (h : Deadline interval path (earlier ++ e :: since) moment) :
    ∃ l ∈ since, (armedAt? path l).isSome := by
  induction since using List.reverseRecOn generalizing moment with
  | nil =>
      obtain ⟨start, harmed, -⟩ | ⟨-, hgoes, -⟩ := deadline_concat.1 h
      · rw [armedAt?_of_isEnd hend] at harmed
        cases harmed
      · rw [hend] at hgoes
        cases hgoes
  | append_singleton since l ih =>
      rw [← List.cons_append, ← List.append_assoc] at h
      obtain ⟨start, harmed, -⟩ | ⟨-, -, old, hold, -⟩ := deadline_concat.1 h
      · exact ⟨l, List.mem_concat_self, by rw [harmed]; rfl⟩
      · obtain ⟨arming, hmem, harmed⟩ := ih hold
        exact ⟨arming, List.mem_append_left _ hmem, harmed⟩

/-- What holds of timers after some uses, whatever is done next. -/
structure FiresWhenDue (interval : Nat) (uses : List Use) : Prop where
  ordered : ∀ now, ((history interval uses).takeDue now).1.Pairwise (compare · · = .lt)
  taken : ∀ now path, ((history interval uses).takeDue now).1.any (·.same path) = true ↔
    ∃ moment, Deadline interval path (log interval uses) moment ∧ moment ≤ now
  /-- Between two takings of a file there is an arming of it. -/
  rearmed : ∀ {earlier now taken between now' taken' later},
    log interval uses =
        earlier ++ (.takeDue now, taken) :: between ++ (.takeDue now', taken') :: later →
      ∀ path, taken.any (·.same path) = true → taken'.any (·.same path) = true →
        ∃ e ∈ between, (armedAt? path e).isSome
  /-- A wake makes no timer. -/
  woken : ∀ path now, ((history interval uses).wake path now).due.keys =
    (history interval uses).due.keys
  next : ∀ moment, (history interval uses).nextDue? = some moment ↔
    (∃ path, Deadline interval path (log interval uses) moment) ∧
      ∀ other path, Deadline interval path (log interval uses) other → moment ≤ other
  nonempty : ∀ now, ((history interval uses).takeDue now).1 ≠ [] ↔
    ∃ next, (history interval uses).nextDue? = some next ∧ next ≤ now

/-- For any interval and any uses of timers, at moments that may also go back: the files taken are
those whose deadlines have come, in path order and each once, no file is taken twice without being
armed in between, and the next moment at which a timer is due is the least of all deadlines. -/
theorem timers_fire_when_due (interval : Nat) (uses : List Use) : FiresWhenDue interval uses := by
  constructor
  case ordered =>
    intro now
    show ((history interval uses).dueAt now).Pairwise _
    rw [dueAt_eq]
    exact (Table.pairwise_keys _).filter _
  case taken => exact any_takeDue_iff uses
  case rearmed =>
    intro earlier now taken between now' taken' later hlog path htaken htaken'
    obtain ⟨before, hbefore, hanswer⟩ := Run.of_log_eq hlog
    have hbefore : log interval before = earlier ++ (.takeDue now, taken) :: between := hbefore
    have hanswer : taken' = ((history interval before).takeDue now').1 := hanswer
    rw [hanswer, any_takeDue_iff, hbefore] at htaken'
    obtain ⟨moment, hdeadline, -⟩ := htaken'
    have hend : isEnd path (.takeDue now, taken) = true := htaken
    exact hdeadline.armed_since hend
  case woken => exact keys_wake _
  case next =>
    intro moment
    simp only [nextDue?, List.min?_eq_some_iff, Table.mem_values_iff, find?_history,
      forall_exists_index]
  case nonempty => exact dueAt_ne_nil_iff _

end PollSchedule

end CompileWatch
