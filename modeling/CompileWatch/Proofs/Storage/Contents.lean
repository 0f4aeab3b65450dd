import CompileWatch.Output
import CompileWatch.Proofs.Storage.Ledger
import CompileWatch.Storage.Rehearsed

/-!
# Texts and failing calls

What a storage that may fail still owes to its users: a read that succeeds gives
the text of the file, a write that succeeds replaces it and no other, and nothing
but a write changes a text. Files in memory keep to this, and so do rehearsed
failures over a storage that does.

`Since` is how a ledger is used to speak of a stretch of calls: a fact about the
texts that holds provided that all notes of the stretch are of some kind. A fact
of this form can be carried from one call to the next without deciding first
which of them fail.
-/

namespace CompileWatch

open CompileWatch.Path

/-- How the states of a storage show the texts of files. Paths with one place name one file. -/
structure Contents (σ : Type) where
  text? : σ → Path → Option String
  place : Path → List Component

/-- A storage whose successful reads and writes are about the texts of files. -/
structure Storage.Stores {σ : Type} (storage : Storage σ) (c : Contents σ) : Prop where
  looks : ∀ path text?, storage.Looks fun s => c.text? s path = text?
  modified : ∀ asked path text?, Keeps (fun s => c.text? s path = text?) (storage.modified asked)
  read_ok : ∀ path s text, answer (storage.read path) s = .ok text → c.text? s path = some text
  write_ok : ∀ path content s, answer (storage.write path content) s = .ok () → ∀ q,
    c.text? (after (storage.write path content) s) q =
      if c.place path = c.place q then some content else c.text? s q

/-! ## Files in memory -/

namespace Memory

def Handle.contents (h : Handle) : Contents Store where
  text? s path := (h.file? s path).map (·.content)
  place path := (h.key path).components

theorem Handle.write_run (h : Handle) (path : Path) (content : String) (s : Store) :
    (h.storage.write path content).run s =
      if h.isDir path s then (.error (.other s!"cannot write {path.text}: is a directory"), s)
      else (.ok (), s.put (h.key path) content) := rfl

theorem Handle.looks_storage (h : Handle) (P : Store → Prop) : h.storage.Looks P :=
  ⟨fun _ _ hs => hs, fun _ _ hs => hs, fun _ _ hs => hs, fun _ _ hs => hs, fun _ _ hs => hs⟩

theorem storage_stores (h : Handle) : h.storage.Stores h.contents where
  looks _ _ := h.looks_storage _
  modified _ _ _ _ ht := ht
  read_ok path s text hr := by
    have hr : h.read path s = .ok text := hr
    show (h.file? s path).map (·.content) = some text
    rw [← h.toOption_read, hr]
    rfl
  write_ok path content s hw q := by
    unfold answer at hw
    unfold after
    rw [h.write_run] at hw ⊢
    split at hw
    · cases hw
    · next hd =>
      rw [if_neg hd]
      show ((s.put (h.key path) content).files.find? (h.key q)).map (·.content) =
        if h.contents.place path = h.contents.place q then some content
        else (s.files.find? (h.key q)).map (·.content)
      rw [Store.find?_put]
      by_cases hk : h.contents.place path = h.contents.place q
      · rw [if_pos hk, if_pos (same_iff.2 hk)]
        rfl
      · rw [if_neg hk, if_neg fun hs => hk (same_iff.1 hs)]

end Memory

/-! ## Rehearsed failures -/

namespace Rehearsed

variable {σ α : Type} {inside : Storage σ} {c : Contents σ}

def contents (c : Contents σ) : Contents (Rehearsed σ) where
  text? r := c.text? r.inner
  place := c.place

/-- A guarded call either fails and leaves the state inside as it is, or is the call inside. -/
theorem guarded_cases (call : FaultyCall) (path : Path) (action : StateM σ (Except FsError α))
    (r : Rehearsed σ) :
    ((∃ e, answer (guarded call path action) r = .error e) ∧
        (after (guarded call path action) r).inner = r.inner) ∨
      (answer (guarded call path action) r = answer action r.inner ∧
        (after (guarded call path action) r).inner = after action r.inner) := by
  unfold guarded answer after
  simp only [StateT.run]
  split
  · exact .inl ⟨⟨_, rfl⟩, rfl⟩
  · exact .inr ⟨rfl, rfl⟩

theorem keeps_guarded {P : σ → Prop} {action : StateM σ (Except FsError α)} (h : Keeps P action)
    (call : FaultyCall) (path : Path) :
    Keeps (fun r => P r.inner) (guarded call path action) := by
  intro r hr
  rcases guarded_cases call path action r with ⟨_, hi⟩ | ⟨_, hi⟩
  · rwa [hi]
  · rw [hi]
    exact h r.inner hr

theorem looks_inner {P : σ → Prop} (h : inside.Looks P) :
    (storage inside).Looks fun r => P r.inner where
  contains q r hr := h.contains q r.inner hr
  isDir q r hr := h.isDir q r.inner hr
  isSymlink q r hr := by
    show P (after (get >>= fun current => if current.links.any q.same then pure true
      else onInner (inside.isSymlink q)) r).inner
    rw [after_bind]
    split
    · exact hr
    · exact h.isSymlink q r.inner hr
  read q := keeps_guarded (h.read q) .read q
  list q := keeps_guarded (h.list q) .list q

theorem storage_stores (h : inside.Stores c) : (storage inside).Stores (contents c) where
  looks path text? := looks_inner (h.looks path text?)
  modified asked path text? := keeps_guarded (h.modified asked path text?) .modified asked
  read_ok path r text hr := by
    change answer (guarded .read path (inside.read path)) r = .ok text at hr
    rcases guarded_cases .read path (inside.read path) r with ⟨⟨e, he⟩, _⟩ | ⟨ha, _⟩
    · rw [he] at hr
      cases hr
    · exact h.read_ok path r.inner text (ha ▸ hr)
  write_ok path content r hw q := by
    change answer (guarded .write path (inside.write path content)) r = .ok () at hw
    show c.text? (after (guarded .write path (inside.write path content)) r).inner q = _
    rcases guarded_cases .write path (inside.write path content) r with ⟨⟨e, he⟩, _⟩ | ⟨ha, hi⟩
    · rw [he] at hw
      cases hw
    · rw [hi]
      exact h.write_ok path content r.inner (ha ▸ hw) q

end Rehearsed

/-! ## Stretches of calls -/

namespace Ledger

variable {σ α : Type} {base : List Note} {good : Note → Prop} {P : σ → Prop}

/-- A predicate on states that holds provided that all notes after some first ones are good. -/
def Since (base : List Note) (good : Note → Prop) (P : σ → Prop) (l : Ledger σ) : Prop :=
  ∃ later, l.notes = later ++ base ∧ ((∀ note ∈ later, good note) → P l.inner)

theorem Since.mono {Q : σ → Prop} {l : Ledger σ} (h : Since base good P l)
    (hpq : ∀ s, P s → Q s) : Since base good Q l := by
  obtain ⟨later, hn, hp⟩ := h
  exact ⟨later, hn, fun hg => hpq _ (hp hg)⟩

theorem Since.refl {l : Ledger σ} (h : P l.inner) : Since l.notes good P l :=
  ⟨[], rfl, fun _ => h⟩

theorem Since.elim {l : Ledger σ} (h : Since base good P l) {later : List Note}
    (hn : l.notes = later ++ base) (hg : ∀ note ∈ later, good note) : P l.inner := by
  obtain ⟨later', hn', hp⟩ := h
  rw [hn] at hn'
  cases List.append_cancel_right hn'
  exact hp hg

/-- One more call: if its note is good, it has to lead from the old predicate to the new one. -/
theorem Since.step {Q : σ → Prop} {l : Ledger σ} (h : Since base good P l) {note : α → Note}
    {action : StateM σ α} (hq : good (note (answer action l.inner)) → P l.inner →
      Q (after action l.inner)) : Since base good Q (after (noted note action) l) := by
  obtain ⟨later, hn, hp⟩ := h
  refine ⟨note (answer action l.inner) :: later, ?_, fun hg => ?_⟩
  · exact congrArg (note (answer action l.inner) :: ·) hn
  · exact hq (hg _ List.mem_cons_self) (hp fun n hm => hg n (List.mem_cons_of_mem _ hm))

theorem keeps_unnoted {action : StateM σ α} (h : Keeps P action) :
    Keeps (Since base good P) (unnoted action) := by
  rintro l ⟨later, hn, hp⟩
  exact ⟨later, hn, fun hg => h l.inner (hp hg)⟩

theorem keeps_noted {action : StateM σ α} (h : Keeps P action) (note : α → Note) :
    Keeps (Since base good P) (noted note action) :=
  fun _ hl => hl.step fun _ hp => h _ hp

theorem looks_inner {inside : Storage σ} (h : inside.Looks P) :
    (storage inside).Looks fun l => P l.inner where
  contains path l hl := h.contains path l.inner hl
  isDir path l hl := h.isDir path l.inner hl
  isSymlink path l hl := h.isSymlink path l.inner hl
  read path l hl := h.read path l.inner hl
  list path l hl := h.list path l.inner hl

theorem looks_since {inside : Storage σ} (h : inside.Looks P) :
    (storage inside).Looks (Since base good P) where
  contains path := keeps_unnoted (h.contains path)
  isDir path := keeps_unnoted (h.isDir path)
  isSymlink path := keeps_unnoted (h.isSymlink path)
  read path := keeps_noted (h.read path) _
  list path := keeps_unnoted (h.list path)

end Ledger

/-! ## What artifacts leave -/

namespace Contents

variable {σ : Type}

/-- The text that artifacts, written in order, give to the file of a path. -/
def written (c : Contents σ) (q : Path) : List Artifact → Option String
  | [] => none
  | a :: rest => (c.written q rest).or (if c.place a.path = c.place q then some a.content else none)

/-- Whether some artifact is written to the file of a path. -/
def Covers (c : Contents σ) (artifacts : List Artifact) (q : Path) : Prop :=
  ∃ a ∈ artifacts, c.place a.path = c.place q

/-- Whether a state holds the artifacts. -/
def Holds (c : Contents σ) (artifacts : List Artifact) (s : σ) : Prop :=
  ∀ q text, c.written q artifacts = some text → c.text? s q = some text

/-- A call that does not fail and does not write the file of a path. -/
def Calm (c : Contents σ) (f : Path) : Note → Prop
  | .read _ failed => failed = false
  | .write path failed => failed = false ∧ c.place path ≠ c.place f
  | _ => True

/-- One more call that may fail: if it is calm, it did not. -/
theorem since_noted {c : Contents σ} {f : Path} {base : List Note} {P Q : σ → Prop} {α : Type}
    (note : Bool → Note) {action : StateM σ (Except FsError α)} {l : Ledger σ}
    (hnote : ∀ failed, c.Calm f (note failed) → failed = false)
    (hq : ∀ a, answer action l.inner = .ok a → c.Calm f (note false) → P l.inner →
      Q (after action l.inner)) (h : Ledger.Since base (c.Calm f) P l) :
    Ledger.Since base (c.Calm f) Q
      (after (Ledger.noted (fun answer => note (Ledger.failed answer)) action) l) := by
  refine h.step fun hcalm hp => ?_
  cases ha : answer action l.inner with
  | ok a =>
      rw [ha] at hcalm
      exact hq a ha hcalm hp
  | error e =>
      rw [ha] at hcalm
      cases hnote _ hcalm

theorem covers_of_written {c : Contents σ} {q : Path} {text : String} :
    ∀ {artifacts : List Artifact}, c.written q artifacts = some text → c.Covers artifacts q
  | a :: rest, h => by
      rw [written, Option.or_eq_some_iff] at h
      rcases h with h | ⟨_, h⟩
      · obtain ⟨b, hb, hq⟩ := covers_of_written h
        exact ⟨b, List.mem_cons_of_mem _ hb, hq⟩
      · split at h
        · next hq => exact ⟨a, List.mem_cons_self, hq⟩
        · cases h

def Shows (c : Contents σ) (wanted : Path → Option String → Prop) (s : σ) : Prop :=
  ∀ q text?, wanted q text? → c.text? s q = text?

/-- What a state shows of a file and of some artifacts. -/
def Found (c : Contents σ) (f : Path) (artifacts : List Artifact) (s : σ) (q : Path)
    (text? : Option String) : Prop :=
  (c.place q = c.place f ∨ c.Covers artifacts q) ∧ c.text? s q = text?

theorem holds_iff_shows {c : Contents σ} {artifacts : List Artifact} {s : σ} :
    c.Holds artifacts s ↔
      c.Shows (fun q text? => text? ≠ none ∧ c.written q artifacts = text?) s := by
  constructor
  · rintro h q (_ | text) ⟨hne, hw⟩
    · exact absurd rfl hne
    · exact h q text hw
  · exact fun h q text hw => h q (some text) ⟨Option.some_ne_none text, hw⟩

theorem holds_congr {c : Contents σ} {artifacts : List Artifact} {s t : σ}
    (h : ∀ q, c.Covers artifacts q → c.text? t q = c.text? s q) :
    c.Holds artifacts t ↔ c.Holds artifacts s := by
  constructor
  · intro ht q text hw
    rw [← h q (covers_of_written hw)]
    exact ht q text hw
  · intro hs q text hw
    rw [h q (covers_of_written hw)]
    exact hs q text hw

end Contents

section Shows

variable {σ : Type} {inside : Storage σ} {c : Contents σ} (hc : inside.Stores c)
  {wanted : Path → Option String → Prop}

include hc

theorem Storage.Stores.looks_shows : inside.Looks (c.Shows wanted) :=
  .all fun q => .all fun text? => .all fun _ => hc.looks q text?

theorem Storage.Stores.keeps_modified_shows (path : Path) :
    Keeps (c.Shows wanted) (inside.modified path) :=
  fun s h q text? hq => hc.modified path q text? s (h q text? hq)

theorem Storage.Stores.shows_write {path : Path} {content : String} {s : σ}
    (hw : answer (inside.write path content) s = .ok ())
    (helse : ∀ q text?, wanted q text? → c.place path ≠ c.place q) (h : c.Shows wanted s) :
    c.Shows wanted (after (inside.write path content) s) := by
  intro q text? hq
  rw [hc.write_ok path content s hw q, if_neg (helse q text? hq)]
  exact h q text? hq

end Shows

end CompileWatch
