import CompileWatch.Proofs.Effect
import CompileWatch.Watch.Versions
import Mathlib.Data.List.Induction

/-!
# A version counts the records of its file

A version table is fed with whatever times there are to read, in any order and for
any files. A reading is a record if it is later than the time with which its file
came into the table and than every reading since. The version of a file is the
number of its records, and only these are answered, with the version that each
makes (`versions_count_records`).

The table keeps one time of each file, the latest, and that is enough: what is
later than all times is what is later than the latest (`isNewer_iff`). The rest is
one equation for the entry of a file after any uses (`find?_history`).
-/

namespace CompileWatch

open CompileWatch.Path

namespace VersionTable

/-! ## Uses of a table -/

/-- What is done to a version table. -/
inductive Use where
  | track (path : Path) (modified : Option Timestamp)
  | observe (path : Path) (time : Timestamp)

namespace Use

def path : Use → Path
  | track path _ | observe path _ => path

/-- A use with its answer, which is a version or nothing. -/
def act : Use → StateM VersionTable (Option Nat)
  | track path modified => fun t => (none, t.track path modified)
  | observe path time => fun t => t.observe path time

section Act

variable (t : VersionTable) (path : Path)

@[simp]
theorem answer_act_track (modified : Option Timestamp) :
    answer (track path modified).act t = none := rfl

@[simp]
theorem after_act_track (modified : Option Timestamp) :
    after (track path modified).act t = t.track path modified := rfl

@[simp]
theorem answer_act_observe (time : Timestamp) :
    answer (observe path time).act t = (t.observe path time).1 := rfl

@[simp]
theorem after_act_observe (time : Timestamp) :
    after (observe path time).act t = (t.observe path time).2 := rfl

end Act

/-- Whether a use is one of the entry of a file. -/
def concerns (file : Path) (use : Use) : Bool := use.path.same file

/-- Whether a use is a request to track a file. -/
def tracks (file : Path) : Use → Bool
  | track path _ => path.same file
  | observe _ _ => false

end Use

/-- The table that some uses have made from nothing. -/
def history (uses : List Use) : VersionTable := Run.play Use.act uses {}

/-- The uses with their answers. -/
def log (uses : List Use) : List (Use × Option Nat) := Run.log Use.act uses {}

/-! ## What there is to count -/

/-- The times of a file, in order. -/
def readings (file : Path) (uses : List Use) : List Timestamp :=
  uses.filterMap fun
    | .track _ _ => none
    | .observe path time => if path.same file then some time else none

/-- What is known of a tracked file: the time with which it was first tracked, if there was one, and
the readings since then. -/
structure Course where
  first : Option Timestamp
  readings : List Timestamp

/-- The course of a file, if it was ever tracked. -/
def course? (file : Path) : List Use → Option Course
  | [] => none
  | .track path modified :: rest =>
    if path.same file then some ⟨modified, readings file rest⟩ else course? file rest
  | .observe _ _ :: rest => course? file rest

namespace Course

def times (c : Course) : List Timestamp := c.first.toList ++ c.readings

/-- Whether a time is strictly later than all times of a file so far. -/
def IsRecord (c : Course) (time : Timestamp) : Prop := ∀ t ∈ c.times, t < time

instance (c : Course) (time : Timestamp) : Decidable (c.IsRecord time) :=
  inferInstanceAs (Decidable (∀ t ∈ c.times, t < time))

/-- The course up to a reading. -/
def take (c : Course) (n : Nat) : Course := ⟨c.first, c.readings.take n⟩

/-- Whether the reading of a number was a record when it was taken. -/
def isRecordAt (c : Course) (n : Nat) : Bool :=
  c.readings[n]?.any fun time => (c.take n).IsRecord time

/-- The number of records. -/
def records (c : Course) : Nat := (List.range c.readings.length).countP c.isRecordAt

/-- The course with one more reading. -/
def read (c : Course) (time : Timestamp) : Course := ⟨c.first, c.readings ++ [time]⟩

/-- What a table keeps of a course. -/
def entry (c : Course) : VersionEntry := ⟨c.records, c.times.max?⟩

section Read

variable (c : Course) (time : Timestamp)

theorem times_read : (c.read time).times = c.times ++ [time] := by
  rw [times, read, times, List.append_assoc]

theorem isRecordAt_read_of_lt {n : Nat} (h : n < c.readings.length) :
    (c.read time).isRecordAt n = c.isRecordAt n := by
  have htake : (c.read time).take n = c.take n := by
    rw [take, read, List.take_append_of_le_length (Nat.le_of_lt h), take]
  rw [isRecordAt, htake, read, List.getElem?_append_left h, isRecordAt]

theorem isRecordAt_read_length :
    (c.read time).isRecordAt c.readings.length = decide (c.IsRecord time) := by
  have htake : (c.read time).take c.readings.length = c := by
    rw [take, read, List.take_left]
  rw [isRecordAt, htake, read, List.getElem?_concat_length]
  rfl

/-- A further reading is one record more, or none. -/
theorem records_read :
    (c.read time).records = c.records + if c.IsRecord time then 1 else 0 := by
  have hlength : (c.read time).readings.length = c.readings.length + 1 := List.length_append
  have hbefore : (List.range c.readings.length).countP (c.read time).isRecordAt = c.records :=
    List.countP_congr fun n hn => by
      rw [c.isRecordAt_read_of_lt time (List.mem_range.1 hn)]
  rw [records, hlength, List.range_succ, List.countP_append, hbefore, List.countP_singleton,
    isRecordAt_read_length]
  simp only [decide_eq_true_eq]

/-- Later than the latest of all times is later than all of them. -/
theorem isNewer_iff : c.entry.isNewer time = true ↔ c.IsRecord time := by
  rw [VersionEntry.isNewer, entry]
  cases h : c.times.max? with
  | none => simp [IsRecord, List.max?_eq_none_iff.1 h]
  | some latest =>
      obtain ⟨hmem, hle⟩ := List.max?_eq_some_iff.1 h
      rw [decide_eq_true_eq]
      exact ⟨fun hlt t ht => Int.lt_of_le_of_lt (hle t ht) hlt, fun hr => hr latest hmem⟩

theorem max?_times_read :
    (c.read time).times.max? = if c.IsRecord time then some time else c.times.max? := by
  rw [times_read]
  split
  · next hr =>
    refine List.max?_eq_some_iff.2 ⟨List.mem_concat_self, fun t ht => ?_⟩
    obtain ht | ht := List.mem_append.1 ht
    · exact Int.le_of_lt (hr t ht)
    · exact Int.le_of_eq (List.mem_singleton.1 ht)
  · next hr =>
    cases h : c.times.max? with
    | none => exact absurd (fun t ht => by simp [List.max?_eq_none_iff.1 h] at ht) hr
    | some latest =>
        obtain ⟨hmem, hle⟩ := List.max?_eq_some_iff.1 h
        have hlatest : time ≤ latest :=
          Int.not_lt.1 fun hlt => hr fun t ht => Int.lt_of_le_of_lt (hle t ht) hlt
        refine List.max?_eq_some_iff.2 ⟨List.mem_append_left _ hmem, fun t ht => ?_⟩
        obtain ht | ht := List.mem_append.1 ht
        · exact hle t ht
        · rw [List.mem_singleton.1 ht]
          exact hlatest

/-- A table keeps the time of a record, and of any other reading nothing. -/
theorem entry_read : (c.read time).entry =
    if c.entry.isNewer time then ⟨c.entry.version + 1, some time⟩ else c.entry := by
  simp only [c.isNewer_iff time]
  rw [entry, records_read, max?_times_read]
  split <;> rfl

end Read

end Course

section Concat

variable (file path : Path) (uses : List Use)

theorem readings_concat_observe (time : Timestamp) :
    readings file (uses ++ [.observe path time]) =
      readings file uses ++ if path.same file then [time] else [] := by
  rw [readings, List.filterMap_append, ← readings]
  cases h : path.same file <;> simp [h]

theorem readings_concat_track (modified : Option Timestamp) :
    readings file (uses ++ [.track path modified]) = readings file uses := by
  rw [readings, List.filterMap_append, ← readings]
  exact List.append_nil _

/-- Only the first use that tracks a file makes a course of it. -/
theorem course?_concat_track (modified : Option Timestamp) :
    course? file (uses ++ [.track path modified]) =
      ((course? file uses).or (if path.same file then some ⟨modified, []⟩ else none)) := by
  induction uses with
  | nil => cases h : path.same file <;> simp [course?, readings, h]
  | cons use rest ih =>
      cases use with
      | track first time =>
          rw [List.cons_append, course?, course?, readings_concat_track, ih]
          split <;> rfl
      | observe _ _ => exact ih

theorem course?_concat_observe (time : Timestamp) :
    course? file (uses ++ [.observe path time]) =
      (course? file uses).map fun c => if path.same file then c.read time else c := by
  induction uses with
  | nil => rfl
  | cons use rest ih =>
      cases use with
      | track first modified =>
          rw [List.cons_append, course?, course?, readings_concat_observe, ih]
          cases first.same file <;> cases path.same file <;> simp [Course.read]
      | observe _ _ => exact ih

theorem isSome_course? : (course? file uses).isSome = uses.any (·.tracks file) := by
  induction uses with
  | nil => rfl
  | cons use rest ih =>
      cases use with
      | track first modified =>
          rw [course?, List.any_cons, Use.tracks, ← ih]
          cases first.same file <;> rfl
      | observe _ _ => exact ih

end Concat

/-! ## The entry of a file -/

section Entry

variable (t : VersionTable) (path file : Path)

theorem find?_track (modified : Option Timestamp) :
    (t.track path modified).entries.find? file =
      (t.entries.find? file).or (if path.same file then some ⟨0, modified⟩ else none) := by
  rw [track, Table.find?_setNew]
  split
  · next h =>
    rw [t.entries.find?_congr h]
    cases t.entries.find? file <;> rfl
  · cases t.entries.find? file <;> rfl

theorem answer_observe (time : Timestamp) :
    (t.observe path time).1 = (t.entries.find? path).bind fun entry =>
      if entry.isNewer time then some (entry.version + 1) else none := by
  unfold observe
  cases t.entries.find? path with
  | none => rfl
  | some entry => cases h : entry.isNewer time <;> simp [h]

theorem find?_observe (time : Timestamp) :
    (t.observe path time).2.entries.find? file = (t.entries.find? file).map fun entry =>
      if path.same file ∧ entry.isNewer time then ⟨entry.version + 1, some time⟩ else entry := by
  unfold observe
  cases hsame : path.same file with
  | true =>
      rw [t.entries.find?_congr hsame]
      cases hfound : t.entries.find? file with
      | none => exact hfound
      | some entry =>
          cases hnewer : entry.isNewer time
          · simp [hnewer, hfound]
          · simp [hnewer, Table.find?_set, hsame]
  | false =>
      cases t.entries.find? path with
      | none => simp
      | some entry =>
          cases hnewer : entry.isNewer time
          · simp [hnewer]
          · simp [hnewer, Table.find?_set, hsame]

end Entry

section History

variable (file : Path) (uses : List Use)

/-- A table keeps of each file what its course comes to. -/
theorem find?_history :
    (history uses).entries.find? file = (course? file uses).map Course.entry := by
  induction uses using List.reverseRecOn with
  | nil => rfl
  | append_singleton uses use ih =>
      rw [history, Run.play_concat, ← history]
      cases use with
      | track path modified =>
          rw [Use.after_act_track, find?_track, ih, course?_concat_track]
          cases course? file uses with
          | some c => rfl
          | none => cases path.same file <;> cases modified <;> rfl
      | observe path time =>
          rw [Use.after_act_observe, find?_observe, ih, course?_concat_observe, Option.map_map,
            Option.map_map]
          congr 1
          funext c
          cases path.same file with
          | true => simp [c.entry_read]
          | false => simp

theorem answer_observe_history {path : Path} (hsame : path.same file = true) (time : Timestamp) :
    ((history uses).observe path time).1 = (course? file uses).bind fun c =>
      if c.IsRecord time then some (c.records + 1) else none := by
  rw [answer_observe, Table.find?_congr _ hsame, find?_history]
  cases course? file uses with
  | none => rfl
  | some c => simp only [Option.map_some, Option.bind_some, c.isNewer_iff time]; rfl

theorem version?_history : (history uses).version? file = (course? file uses).map Course.records := by
  rw [version?, find?_history, Option.map_map]
  rfl

end History

/-! ## Uses of one file and of others -/

section Own

variable {file : Path} {use : Use}

/-- What a use of a file answers and does is a matter of the entry of the file. -/
theorem act_of_concerns (h : use.concerns file = true) (t u : VersionTable)
    (htu : t.entries.find? file = u.entries.find? file) :
    answer use.act t = answer use.act u ∧
      (after use.act t).entries.find? file = (after use.act u).entries.find? file := by
  cases use with
  | track path modified =>
      refine ⟨rfl, ?_⟩
      rw [Use.after_act_track, Use.after_act_track, find?_track, find?_track, htu]
  | observe path time =>
      have hsame : path.same file = true := h
      constructor
      · rw [Use.answer_act_observe, Use.answer_act_observe, answer_observe, answer_observe,
          Table.find?_congr _ hsame, htu, Table.find?_congr _ hsame]
      · rw [Use.after_act_observe, Use.after_act_observe, find?_observe, find?_observe, htu]

theorem act_of_not_concerns (h : use.concerns file = false) (t : VersionTable) :
    (after use.act t).entries.find? file = t.entries.find? file := by
  have hsame : use.path.same file = false := h
  cases use with
  | track path modified =>
      rw [Use.path] at hsame
      rw [Use.after_act_track, find?_track, hsame, if_neg (by decide), Option.or_none]
  | observe path time =>
      rw [Use.path] at hsame
      simp [find?_observe, hsame]

end Own

/-- The versions that uses of a file were answered. -/
def answers (file : Path) (log : List (Use × Option Nat)) : List Nat :=
  log.filterMap fun entry => if entry.1.concerns file then entry.2 else none

theorem answers_concat (file : Path) (uses : List Use) (use : Use) :
    answers file (log (uses ++ [use])) = answers file (log uses) ++
      if use.concerns file then (answer use.act (history uses)).toList else [] := by
  rw [log, Run.log_concat, ← log, ← history, answers, List.filterMap_append, ← answers]
  congr 1
  cases h : use.concerns file with
  | true => cases answer use.act (history uses) <;> simp [h]
  | false => simp [h]

theorem answers_log (file : Path) (uses : List Use) :
    answers file (log uses) = List.range' 1 (((course? file uses).map Course.records).getD 0) := by
  induction uses using List.reverseRecOn with
  | nil => rfl
  | append_singleton uses use ih =>
      rw [answers_concat, ih]
      cases use with
      | track path modified =>
          rw [course?_concat_track, Use.answer_act_track]
          cases course? file uses with
          | some c => simp
          | none => cases path.same file <;> simp [Course.records]
      | observe path time =>
          rw [course?_concat_observe, Use.concerns, Use.path]
          cases hsame : path.same file with
          | false => simp
          | true =>
              rw [if_pos rfl, Use.answer_act_observe, answer_observe_history file uses hsame]
              cases course? file uses with
              | none => rfl
              | some c =>
                  simp only [Option.map_some, Option.getD_some, Option.bind_some, if_true,
                    c.records_read]
                  split
                  · rw [List.range'_1_concat, Nat.add_comm 1]
                    rfl
                  · exact List.append_nil _

/-- What the uses of a version table have to do with one of its files. -/
structure Counts (file : Path) (uses : List Use) : Prop where
  tracked : ((history uses).version? file).isSome = uses.any (·.tracks file)
  version : (history uses).version? file = (course? file uses).map Course.records
  /-- A reading is answered if it is a record, with the number of it. -/
  observed : ∀ time, ((history uses).observe file time).1 = (course? file uses).bind fun c =>
    if c.IsRecord time then some (c.records + 1) else none
  answered : answers file (log uses) = List.range' 1 (((history uses).version? file).getD 0)
  retracked : uses.any (·.tracks file) → ∀ modified,
    (history uses).track file modified = history uses
  untracked : uses.any (·.tracks file) = false → ∀ time,
    (history uses).observe file time = (none, history uses)
  /-- The uses of other files do not count. -/
  alone : (log uses).filter (·.1.concerns file) = log (uses.filter (·.concerns file))
  version_alone : (history uses).version? file =
    (history (uses.filter (·.concerns file))).version? file

/-- For any uses of a table, in any order, with any times and for any files: the version of a file
is the number of records among its readings since it was first tracked, records alone are answered,
with 1, 2, 3 and so on, and what a file is answered depends on nothing but the uses of this file. -/
theorem versions_count_records (file : Path) (uses : List Use) : Counts file uses := by
  have halone := Run.log_filter Use.act (fun t => t.entries.find? file) (Use.concerns file)
    (fun _ => act_of_concerns) (fun _ => act_of_not_concerns) uses (s := {}) (t := {}) rfl
  have hversion := version?_history file uses
  have htracked : ((history uses).version? file).isSome = uses.any (·.tracks file) := by
    rw [hversion, Option.isSome_map, isSome_course?]
  have hcontains : (history uses).entries.contains file = uses.any (·.tracks file) := by
    rw [← htracked, version?, Option.isSome_map, Table.contains]
  constructor
  case tracked => exact htracked
  case version => exact hversion
  case observed => exact answer_observe_history file uses (same_self file)
  case answered => rw [hversion, answers_log]
  case retracked =>
    intro h modified
    rw [track, Table.setNew, hcontains, if_pos h]
  case untracked =>
    intro h time
    have hnone : (history uses).entries.find? file = none := by
      rw [← Option.not_isSome_iff_eq_none, ← Table.contains, hcontains, h]
      decide
    rw [observe, hnone]
  case alone => exact halone.1
  case version_alone => exact congrArg (Option.map (·.version)) halone.2

end VersionTable

end CompileWatch
