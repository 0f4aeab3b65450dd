import CompileWatch.Proofs.Storage.Dated
import CompileWatch.Proofs.Storage.Places
import Mathlib.Data.List.Induction

/-!
# The history of a store

What files in memory hold follows from what has been done to them, and a store is
faithful if it can be told from its history alone: a file has the text that it
was given last and the time that was handed out to it last, unless it was removed
since. Which edits are of one file is a matter of the paths, once their dots and
spare separators are dropped and their letters are folded where case does not
count (`Handle.normal`).

Texts and times come about in the same way. Both are given to a file by some
edits of it, and last until another such edit or a removal. So the induction on
histories is made once, for any part of a file that behaves like this (`Lasting`).
Times are strictly later than all those handed out before because each is the next
second of one clock, which goes on over removals and failures alike.
-/

namespace CompileWatch.Memory

open CompileWatch.Path

/-! ## Names of one file -/

/-- What a path comes to without its dots and spare separators, and without capitals if letter case
does not count. -/
def Handle.normal (h : Handle) (path : Path) : List Component :=
  (path.components.filter (· ≠ .current)).map h.kept

theorem Handle.components_key (h : Handle) (path : Path) :
    (h.key path).components = h.normal path := h.place_eq path

theorem same_key_iff_normal {h : Handle} {p q : Path} :
    (h.key p).same (h.key q) = true ↔ h.normal p = h.normal q := by
  rw [same_iff, h.components_key, h.components_key]

theorem Handle.file?_congr {h : Handle} {p q : Path} (hpq : h.normal p = h.normal q) (s : Store) :
    h.file? s p = h.file? s q :=
  s.files.find?_congr (same_key_iff_normal.2 hpq)

/-! ## Edits that were made -/

namespace Edit

def path : Edit → Path
  | insert path _ | write path _ | touch path | remove path => path

def isRemove : Edit → Bool
  | remove _ => true
  | _ => false

/-- An edit with its answer. An insertion is never refused. -/
def perform (h : Handle) : Edit → StateM Store (Except FsError Unit)
  | insert path content => Except.ok <$> h.insert path content
  | write path content => h.write path content
  | touch path => h.touch path
  | remove path => h.remove path

theorem after_perform (h : Handle) (edit : Edit) (s : Store) :
    after (edit.perform h) s = edit.change h s := by
  cases edit <;> rfl

end Edit

/-- An edit that was made, and the store before it. -/
structure Made where
  edit : Edit
  before : Store

namespace Made

variable (h : Handle) (m : Made)

/-- The store after the edit. -/
def next : Store := after (m.edit.perform h) m.before

def succeeded : Bool := (answer (m.edit.perform h) m.before).isOk

/-- Whether the edit was one of the file that a path names. -/
def Concerns (path : Path) : Prop := h.normal m.edit.path = h.normal path

/-- The text that an edit has given its file. -/
def text? : Option String :=
  match m.edit with
  | .insert _ content => some content
  | .write _ content => if m.succeeded h then some content else none
  | .touch _ | .remove _ => none

/-- The time that an edit has handed out: the one that its file has right after it. -/
def time? : Option Timestamp :=
  if m.succeeded h = true ∧ m.edit.isRemove = false then
    (h.modified m.edit.path (m.next h)).toOption
  else none

end Made

/-- The store after some edits, made in order through a handle. -/
def Handle.play (h : Handle) (edits : List Edit) (s : Store) : Store :=
  edits.foldl (fun s edit => after (edit.perform h) s) s

/-- The edits that were made from some store on, the earliest first. -/
def Handle.log (h : Handle) : List Edit → Store → List Made
  | [], _ => []
  | edit :: rest, s => ⟨edit, s⟩ :: h.log rest (after (edit.perform h) s)

/-- The store that some edits have made from nothing. -/
def Handle.history (h : Handle) (edits : List Edit) : Store := h.play edits .empty

theorem Handle.play_concat (h : Handle) (edits : List Edit) (edit : Edit) (s : Store) :
    h.play (edits ++ [edit]) s = after (edit.perform h) (h.play edits s) := by
  rw [play, List.foldl_append]
  rfl

theorem Handle.log_concat (h : Handle) (edit : Edit) : ∀ (edits : List Edit) (s : Store),
    h.log (edits ++ [edit]) s = h.log edits s ++ [⟨edit, h.play edits s⟩]
  | [], _ => rfl
  | first :: rest, s => congrArg (_ :: ·) (h.log_concat edit rest (after (first.perform h) s))

/-! ## What one edit does -/

namespace Handle

variable (h : Handle) (path : Path) (content : String) (s : Store)

theorem after_write : after (h.write path content) s =
    if h.isDir path s then s else s.put (h.key path) content := by
  unfold write after
  simp only [StateT.run]
  split <;> rfl

theorem after_touch : after (h.touch path) s =
    ((h.file? s path).map fun file => s.put (h.key path) file.content).getD s.advance := by
  unfold touch file? after
  simp only [StateT.run]
  cases s.files.find? (h.key path) <;> rfl

theorem after_remove : after (h.remove path) s =
    if (h.file? s path).isSome then s.erase (h.key path) else s := by
  unfold remove file? Table.contains after
  simp only [StateT.run]
  split <;> rfl

theorem file?_put (q : Path) : h.file? (s.put (h.key path) content) q =
    if h.normal path = h.normal q then some ⟨content, s.clock + 1⟩ else h.file? s q := by
  rw [file?, Store.find?_put]
  simp only [same_key_iff_normal]
  rfl

end Handle

namespace Made

variable (h : Handle) (m : Made) (path : Path)

/-- A write is refused in the place of a directory, a touch and a removal where there is no file. -/
theorem succeeded_eq : m.succeeded h =
    match m.edit with
    | .insert _ _ => true
    | .write path _ => !h.isDir path m.before
    | .touch path | .remove path => (h.file? m.before path).isSome := by
  obtain ⟨edit, s⟩ := m
  unfold succeeded
  cases edit with
  | insert path content => rfl
  | write path content =>
      show (answer (h.write path content) s).isOk = !h.isDir path s
      unfold Handle.write answer
      simp only [StateT.run]
      cases h.isDir path s <;> rfl
  | touch path =>
      show (answer (h.touch path) s).isOk = (h.file? s path).isSome
      unfold Handle.touch Handle.file? answer
      simp only [StateT.run]
      cases s.files.find? (h.key path) <;> rfl
  | remove path =>
      show (answer (h.remove path) s).isOk = (h.file? s path).isSome
      unfold Handle.remove Handle.file? Table.contains answer
      simp only [StateT.run]
      cases s.files.find? (h.key path) <;> rfl

/-- What a successful edit makes of its file. -/
def outcome? : Option File :=
  match m.edit with
  | .insert _ content | .write _ content => some ⟨content, m.before.clock + 1⟩
  | .touch path => (h.file? m.before path).map fun file => ⟨file.content, m.before.clock + 1⟩
  | .remove _ => none

theorem files_next_of_failed (hf : m.succeeded h = false) :
    (m.next h).files = m.before.files := by
  rw [succeeded_eq] at hf
  obtain ⟨edit, s⟩ := m
  show (after (edit.perform h) s).files = s.files
  rw [Edit.after_perform]
  cases edit with
  | insert key content => cases hf
  | write key content =>
      have hdir : h.isDir key s = true := by simpa using hf
      show (after (h.write key content) s).files = s.files
      rw [h.after_write, if_pos hdir]
  | touch key =>
      have hnone : h.file? s key = none := by simpa using hf
      show (after (h.touch key) s).files = s.files
      rw [h.after_touch, hnone]
      rfl
  | remove key =>
      have hnone : ¬ (h.file? s key).isSome = true := by simpa using hf
      show (after (h.remove key) s).files = s.files
      rw [h.after_remove, if_neg hnone]

/-- The files after an edit: its own file is what it made of it, all others are as they were. -/
theorem file?_next_of_succeeded (hs : m.succeeded h = true) : h.file? (m.next h) path =
    if h.normal m.edit.path = h.normal path then m.outcome? h else h.file? m.before path := by
  rw [succeeded_eq] at hs
  obtain ⟨edit, s⟩ := m
  show h.file? (after (edit.perform h) s) path = _
  rw [Edit.after_perform]
  cases edit with
  | insert key content => exact h.file?_put key content s path
  | write key content =>
      have hdir : ¬ h.isDir key s = true := by simpa using hs
      show h.file? (after (h.write key content) s) path = _
      rw [h.after_write, if_neg hdir]
      exact h.file?_put key content s path
  | touch key =>
      obtain ⟨file, hfile⟩ := Option.isSome_iff_exists.1 hs
      show h.file? (after (h.touch key) s) path = _
      have hout : (Made.mk (.touch key) s).outcome? h = some ⟨file.content, s.clock + 1⟩ :=
        congrArg (Option.map _) hfile
      rw [h.after_touch, hfile, hout]
      exact h.file?_put key file.content s path
  | remove key =>
      show h.file? (after (h.remove key) s) path = _
      rw [h.after_remove, if_pos hs, Handle.file?, Store.find?_remove]
      simp only [same_key_iff_normal]
      rfl

theorem file?_next_of_failed (hf : m.succeeded h = false) :
    h.file? (m.next h) path = h.file? m.before path := by
  rw [Handle.file?, m.files_next_of_failed h hf, Handle.file?]

theorem file?_next_of_other (hc : ¬ m.Concerns h path) :
    h.file? (m.next h) path = h.file? m.before path := by
  cases hs : m.succeeded h with
  | true => exact (m.file?_next_of_succeeded h path hs).trans (if_neg hc)
  | false => exact m.file?_next_of_failed h path hs

theorem file?_next_of_concerns (hs : m.succeeded h = true) (hc : m.Concerns h path) :
    h.file? (m.next h) path = m.outcome? h :=
  (m.file?_next_of_succeeded h path hs).trans (if_pos hc)

/-- The file of a removed path is gone, whether or not there was one. -/
theorem file?_next_of_isRemove (hr : m.edit.isRemove = true) (hc : m.Concerns h path) :
    h.file? (m.next h) path = none := by
  have hok := m.succeeded_eq h
  obtain ⟨edit, s⟩ := m
  cases edit with
  | remove key =>
      cases hs : (Made.mk (.remove key) s).succeeded h with
      | true => exact file?_next_of_concerns h _ path hs hc
      | false =>
          rw [file?_next_of_failed h _ path hs, ← Handle.file?_congr hc]
          exact Option.isNone_iff_eq_none.1 (Option.isSome_eq_false_iff.1 (hok.symm.trans hs))
  | _ => cases hr

/-- An edit that makes its file does so at the next second. -/
theorem exists_outcome (hs : m.succeeded h = true) (hr : m.edit.isRemove = false) :
    ∃ content, m.outcome? h = some ⟨content, m.before.clock + 1⟩ := by
  rw [succeeded_eq] at hs
  obtain ⟨edit, s⟩ := m
  cases edit with
  | insert key content => exact ⟨content, rfl⟩
  | write key content => exact ⟨content, rfl⟩
  | touch key =>
      obtain ⟨file, hfile⟩ := Option.isSome_iff_exists.1 hs
      exact ⟨file.content, congrArg (Option.map _) hfile⟩
  | remove key => cases hr

/-- A time is handed out to a file exactly when the file is made or kept by a successful edit. -/
theorem time?_eq : m.time? h =
    if m.succeeded h = true ∧ m.edit.isRemove = false then some (m.before.clock + 1) else none := by
  unfold time?
  split
  · next hmade =>
    obtain ⟨content, hout⟩ := m.exists_outcome h hmade.1 hmade.2
    rw [Handle.toOption_modified, m.file?_next_of_concerns h _ hmade.1 rfl, hout]
    rfl
  · rfl

end Made

/-! ## What lasts -/

/-- A part of files that edits give them: a file keeps it until it is given another or removed. -/
structure Lasting (h : Handle) (α : Type) where
  part : File → α
  given : Made → Option α
  made : ∀ m : Made, m.succeeded h = true → m.edit.isRemove = false →
    (m.outcome? h).map part = (given m).or ((h.file? m.before m.edit.path).map part)
  failed : ∀ m : Made, m.succeeded h = false → given m = none
  removed : ∀ m : Made, m.edit.isRemove = true → given m = none

/-- Whether an edit, with those made after it, was the last that gave a file a value, and the file
was not removed since. -/
structure Last (h : Handle) (path : Path) (given : Made → Option α) (value : α) (m : Made)
    (later : List Made) : Prop where
  concerns : m.Concerns h path
  gives : given m = some value
  since : ∀ l ∈ later, l.Concerns h path → given l = none ∧ l.edit.isRemove = false

/-- Whether a file was given a value in a log and has had it since. -/
def Given (h : Handle) (path : Path) (given : Made → Option α) (log : List Made) (value : α) :
    Prop :=
  ∃ earlier m later, log = earlier ++ m :: later ∧ Last h path given value m later

variable {h : Handle} {path : Path} {given : Made → Option α} {value : α}

theorem last_nil {m : Made} :
    Last h path given value m [] ↔ m.Concerns h path ∧ given m = some value :=
  ⟨fun hlast => ⟨hlast.concerns, hlast.gives⟩, fun ⟨hc, hg⟩ => ⟨hc, hg, nofun⟩⟩

theorem last_concat {m l : Made} {later : List Made} :
    Last h path given value m (later ++ [l]) ↔
      (l.Concerns h path → given l = none ∧ l.edit.isRemove = false) ∧
        Last h path given value m later := by
  constructor
  · intro hlast
    exact ⟨hlast.since l List.mem_concat_self, hlast.concerns, hlast.gives,
      fun l' hl' => hlast.since l' (List.mem_append_left _ hl')⟩
  · rintro ⟨hl, hlast⟩
    refine ⟨hlast.concerns, hlast.gives, fun l' hl' => ?_⟩
    rcases List.mem_append.1 hl' with hl' | hl'
    · exact hlast.since l' hl'
    · cases List.mem_singleton.1 hl'
      exact hl

theorem given_concat {log : List Made} {m : Made} : Given h path given (log ++ [m]) value ↔
    m.Concerns h path ∧ given m = some value ∨
    (m.Concerns h path → given m = none ∧ m.edit.isRemove = false) ∧
      Given h path given log value := by
  rw [Given, Run.split_concat_iff, last_nil]
  refine or_congr_right ?_
  simp only [last_concat]
  constructor
  · rintro ⟨earlier, m', later, hlog, hm, hlast⟩
    exact ⟨hm, earlier, m', later, hlog, hlast⟩
  · rintro ⟨hm, earlier, m', later, hlog, hlast⟩
    exact ⟨earlier, m', later, hlog, hm, hlast⟩

namespace Lasting

variable (v : Lasting h α)

/-- The part of the file that a path names. -/
def shown (s : Store) (path : Path) : Option α := (h.file? s path).map v.part

theorem shown_kept {m : Made} (hr : m.edit.isRemove = false) (hc : m.Concerns h path) :
    v.shown (m.next h) path = (v.given m).or (v.shown m.before path) := by
  have hfile : h.file? m.before m.edit.path = h.file? m.before path := Handle.file?_congr hc _
  unfold shown
  cases hs : m.succeeded h with
  | true => rw [m.file?_next_of_concerns h path hs hc, v.made m hs hr, hfile]
  | false =>
      rw [m.file?_next_of_failed h path hs, v.failed m hs]
      rfl

/-- What a file has after an edit is what the edit gave it, or else what the file had before. -/
theorem shown_next_eq_some_iff (m : Made) (path : Path) (a : α) :
    v.shown (m.next h) path = some a ↔
    m.Concerns h path ∧ v.given m = some a ∨
    (m.Concerns h path → v.given m = none ∧ m.edit.isRemove = false) ∧
      v.shown m.before path = some a := by
  by_cases hc : m.Concerns h path
  · cases hr : m.edit.isRemove with
    | true =>
        have hnone : v.shown (m.next h) path = none := by
          rw [shown, m.file?_next_of_isRemove h path hr hc]
          rfl
        simp [hnone, v.removed m hr, hc]
    | false =>
        rw [v.shown_kept hr hc]
        cases hg : v.given m <;> simp [hc]
  · have hsame : v.shown (m.next h) path = v.shown m.before path := by
      rw [shown, m.file?_next_of_other h path hc, shown]
    simp [hsame, hc]

/-- What lasts is what was given last. The induction is on the history from its end, as what the
last edit does decides whether the edits before it matter at all. -/
theorem shown_eq_some_iff (path : Path) (edits : List Edit) (a : α) :
    v.shown (h.history edits) path = some a ↔ Given h path v.given (h.log edits .empty) a := by
  induction edits using List.reverseRecOn with
  | nil =>
      have hnone : v.shown (h.history []) path = none := rfl
      rw [hnone]
      constructor
      · intro hsome
        cases hsome
      · rintro ⟨earlier, m, later, hlog, _⟩
        cases (List.append_eq_nil_iff.1 hlog.symm).2
  | append_singleton edits edit ih =>
      have hnext : h.history (edits ++ [edit]) = (Made.mk edit (h.history edits)).next h :=
        h.play_concat edits edit .empty
      rw [hnext, v.shown_next_eq_some_iff, h.log_concat, given_concat, ← ih]
      rfl

end Lasting

/-! ## Texts and times -/

/-- The texts of files. A touch gives no text and keeps the one there is. -/
def texts (h : Handle) : Lasting h String where
  part := File.content
  given := Made.text? h
  made m hs hr := by
    obtain ⟨edit, s⟩ := m
    cases edit with
    | insert key content => rfl
    | write key content =>
        have htext : (Made.mk (.write key content) s).text? h = some content := if_pos hs
        rw [htext]
        rfl
    | touch key =>
        show ((h.file? s key).map _).map _ = (h.file? s key).map _
        rw [Option.map_map]
        rfl
    | remove key => cases hr
  failed m hf := by
    obtain ⟨edit, s⟩ := m
    cases edit with
    | insert key content => cases hf
    | write key content => exact if_neg (by rw [hf]; decide)
    | _ => rfl
  removed m hr := by
    obtain ⟨edit, s⟩ := m
    cases edit with
    | remove key => rfl
    | _ => cases hr

/-- The times of files. -/
def times (h : Handle) : Lasting h Timestamp where
  part := File.modified
  given := Made.time? h
  made m hs hr := by
    obtain ⟨content, hout⟩ := m.exists_outcome h hs hr
    rw [m.time?_eq, if_pos ⟨hs, hr⟩, hout]
    rfl
  failed m hf := if_neg fun hmade => by
    rw [hf] at hmade
    cases hmade.1
  removed m hr := if_neg fun hmade => by
    rw [hr] at hmade
    cases hmade.2

/-! ## The clock -/

theorem Made.clock_le_next (h : Handle) (m : Made) : m.before.clock ≤ (m.next h).clock := by
  have hages := ages_edit h m.before h m.edit
  rw [Made.next, Edit.after_perform]
  exact Int.ofNat_le.1 hages.clock

theorem Made.time_bounds {m : Made} {time : Timestamp} (ht : m.time? h = some time) :
    (m.before.clock : Timestamp) < time ∧ time ≤ (m.next h).clock := by
  have hout := m.time?_eq h
  rw [ht] at hout
  split at hout
  · next hmade =>
    obtain ⟨content, hfile⟩ := m.exists_outcome h hmade.1 hmade.2
    rw [← m.file?_next_of_concerns h m.edit.path hmade.1 rfl] at hfile
    cases hout
    exact ⟨Int.lt_succ _, (m.next h).modified_le _ _ hfile⟩
  · cases hout

theorem clock_le_of_mem_log {m : Made} : ∀ {edits : List Edit} {s : Store},
    m ∈ h.log edits s → s.clock ≤ m.before.clock
  | edit :: _, s, hm => by
      rcases List.mem_cons.1 hm with rfl | hm
      · exact Nat.le_refl _
      · exact Nat.le_trans (Made.clock_le_next h ⟨edit, s⟩) (clock_le_of_mem_log hm)

/-- Edits of a log are ordered by the clock, whether they succeed or not. -/
theorem pairwise_log (h : Handle) : ∀ (edits : List Edit) (s : Store),
    (h.log edits s).Pairwise fun l m => (l.next h).clock ≤ m.before.clock
  | [], _ => .nil
  | _ :: rest, _ => .cons (fun _ hm => clock_le_of_mem_log hm) (pairwise_log h rest _)

/-- Each time is later than all that were handed out before, to whatever file. -/
theorem time_lt_of_log {edits : List Edit} {s : Store} {earlier later : List Made} {l m : Made}
    {t time : Timestamp} (hlog : h.log edits s = earlier ++ m :: later) (hl : l ∈ earlier)
    (ht : l.time? h = some t) (htime : m.time? h = some time) : t < time := by
  have hpair := pairwise_log h edits s
  rw [hlog] at hpair
  have hclock := (List.pairwise_append.1 hpair).2.2 l hl m (by simp)
  calc t ≤ (l.next h).clock := (Made.time_bounds ht).2
    _ ≤ m.before.clock := Int.ofNat_le.2 hclock
    _ < time := (Made.time_bounds htime).1

/-! ## Answers -/

theorem read_eq_ok_iff {s : Store} {text : String} :
    h.read path s = .ok text ↔ (h.file? s path).map (·.content) = some text := by
  unfold Handle.read Handle.file?
  cases s.files.find? (h.key path) <;> simp

theorem read_eq_notFound_iff {s : Store} :
    h.read path s = .error (.notFound path) ↔ ∀ text, h.read path s ≠ .ok text := by
  unfold Handle.read
  cases s.files.find? (h.key path) <;> simp

theorem modified_eq_ok_iff {s : Store} {time : Timestamp} :
    h.modified path s = .ok time ↔ (h.file? s path).map (·.modified) = some time := by
  unfold Handle.modified Handle.file?
  cases s.files.find? (h.key path) <;> simp

theorem modified_eq_notFound_iff {s : Store} :
    h.modified path s = .error (.notFound path) ↔ ∀ time, h.modified path s ≠ .ok time := by
  unfold Handle.modified
  cases s.files.find? (h.key path) <;> simp

theorem answers_congr {s t : Store} (hst : h.file? s path = h.file? t path) :
    h.read path s = h.read path t ∧ h.modified path s = h.modified path t := by
  unfold Handle.file? at hst
  constructor
  · unfold Handle.read
    rw [hst]
  · unfold Handle.modified
    rw [hst]

/-- What a store answers is what its history says: a file has the text that it was given last, and
the time that was handed out to it last, unless it was removed since. Times go up over all files,
and an edit changes nothing if it fails, and nothing of other files. -/
theorem answers_follow_history (h : Handle) (edits : List Edit) :
    (∀ path text, h.read path (h.history edits) = .ok text ↔
      Given h path (Made.text? h) (h.log edits .empty) text) ∧
    (∀ path, h.read path (h.history edits) = .error (.notFound path) ↔
      ∀ text, ¬ Given h path (Made.text? h) (h.log edits .empty) text) ∧
    (∀ path time, h.modified path (h.history edits) = .ok time ↔
      Given h path (Made.time? h) (h.log edits .empty) time) ∧
    (∀ path, h.modified path (h.history edits) = .error (.notFound path) ↔
      ∀ time, ¬ Given h path (Made.time? h) (h.log edits .empty) time) ∧
    (∀ earlier m later, h.log edits .empty = earlier ++ m :: later → ∀ l ∈ earlier, ∀ t time,
      l.time? h = some t → m.time? h = some time → t < time) ∧
    (∀ (m : Made) path, m.succeeded h = false ∨ ¬ m.Concerns h path →
      h.read path (m.next h) = h.read path m.before ∧
      h.modified path (m.next h) = h.modified path m.before) := by
  have hread : ∀ path text, h.read path (h.history edits) = .ok text ↔
      Given h path (Made.text? h) (h.log edits .empty) text := fun path text =>
    read_eq_ok_iff.trans ((texts h).shown_eq_some_iff path edits text)
  have htime : ∀ path time, h.modified path (h.history edits) = .ok time ↔
      Given h path (Made.time? h) (h.log edits .empty) time := fun path time =>
    modified_eq_ok_iff.trans ((times h).shown_eq_some_iff path edits time)
  refine ⟨hread, fun path => ?_, htime, fun path => ?_,
    fun earlier m later hlog l hl t time ht hm => time_lt_of_log hlog hl ht hm,
    fun m path hm => answers_congr ?_⟩
  · rw [read_eq_notFound_iff]
    exact forall_congr' fun text => not_congr (hread path text)
  · rw [modified_eq_notFound_iff]
    exact forall_congr' fun time => not_congr (htime path time)
  · rcases hm with hf | hc
    · exact m.file?_next_of_failed h path hf
    · exact m.file?_next_of_other h path hc

end CompileWatch.Memory
