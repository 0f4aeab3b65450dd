import CompileWatch.Proofs.Looking
import CompileWatch.Proofs.Storage.Edits

/-!
# Dated files

A session learns of edits from the times of files alone, so what it can know
rests on how a storage dates them. A *dating* says what file there is at a path,
with its time, and what the latest time is that was given to any. The one
relation between states that the theory uses is `Ages`: every file that is there
later was there before in the same form, or has a time after all those before.
It is a preorder, and whatever a session or others do to dated files, the states
age; a text that was read at some moment is therefore the text of the file until
the file gets a time after that moment.

Others may act at any moment. `Shared` is a storage with a plan of what they do
before each of the calls to come, so that no two calls of a session, not even
the two of one check, need see the same files.
-/

namespace CompileWatch

open CompileWatch.Path

/-- How the states of a storage show files and their times. -/
structure Dating (σ : Type) where
  file? : σ → Path → Option Memory.File
  /-- The latest time that was given to any file. -/
  clock : σ → Timestamp
  file?_congr : ∀ {p q : Path}, p.same q = true → ∀ s, file? s p = file? s q
  modified_le : ∀ s path file, file? s path = some file → file.modified ≤ clock s

namespace Dating

variable {σ : Type} (d : Dating σ)

/-- A later state: each file of it was there before, or is dated after all files before. -/
structure Ages (s t : σ) : Prop where
  clock : d.clock s ≤ d.clock t
  file : ∀ path file, d.file? t path = some file →
    d.file? s path = some file ∨ d.clock s < file.modified

variable {d} {s t u : σ}

theorem Ages.refl (s : σ) : d.Ages s s := ⟨Int.le_refl _, fun _ _ h => .inl h⟩

theorem Ages.trans (h : d.Ages s t) (h' : d.Ages t u) : d.Ages s u where
  clock := Int.le_trans h.clock h'.clock
  file path file hf := by
    rcases h'.file path file hf with ht | hlt
    · exact h.file path file ht
    · exact .inr (Int.lt_of_le_of_lt h.clock hlt)

/-- A file that is not dated after a moment was there, as it is, at that moment. -/
theorem Ages.of_modified_le (h : d.Ages s t) {path : Path} {file : Memory.File}
    (hf : d.file? t path = some file) (hle : file.modified ≤ d.clock s) :
    d.file? s path = some file := by
  rcases h.file path file hf with hs | hlt
  · exact hs
  · exact absurd hle (Int.not_le.2 hlt)

/-- Whether a file has a text, unless it is gone or dated after a time. -/
def Holds (d : Dating σ) (path : Path) (time : Timestamp) (text : String) (s : σ) : Prop :=
  ∀ file, d.file? s path = some file → file.modified ≤ time → file.content = text

theorem Holds.ages {path : Path} {time : Timestamp} {text : String} (h : d.Holds path time text s)
    (ha : d.Ages s t) (hle : time ≤ d.clock s) : d.Holds path time text t :=
  fun file hf hm => h file (ha.of_modified_le hf (Int.le_trans hm hle)) hm

/-- What others do to dated files. -/
structure Change (d : Dating σ) where
  act : σ → σ
  ages : ∀ s, d.Ages s (act s)

def Change.idle : d.Change := ⟨id, .refl⟩

end Dating

/-- A storage whose files are dated, and whose calls do not fail while a file is there. -/
structure Storage.Dated {σ : Type} (storage : Storage σ) (d : Dating σ) : Prop where
  looks : ∀ s, storage.Looks (d.Ages s)
  modified : ∀ s path, Keeps (d.Ages s) (storage.modified path)
  write : ∀ s path content, Keeps (d.Ages s) (storage.write path content)
  answer_read : ∀ path s, (answer (storage.read path) s).toOption =
    (d.file? (after (storage.read path) s) path).map (·.content)
  answer_modified : ∀ path s, (answer (storage.modified path) s).toOption =
    (d.file? (after (storage.modified path) s) path).map (·.modified)

/-! ## Files in memory -/

namespace Memory

def Handle.dating (h : Handle) : Dating Store where
  file? := h.file?
  clock s := s.clock
  file?_congr hpq s := by rw [Handle.file?, h.key_congr hpq, Handle.file?]
  modified_le s path file hf := s.modified_le _ _ hf

variable (h : Handle) (s : Store)

theorem ages_put (key : Path) (content : String) : h.dating.Ages s (s.put key content) where
  clock := Int.ofNat_le.2 (Nat.le_succ _)
  file path file hf := by
    have hf : (s.put key content).files.find? (h.key path) = some file := hf
    rw [Store.find?_put] at hf
    split at hf
    · cases hf
      exact .inr (Int.lt_succ _)
    · exact .inl hf

theorem ages_advance : h.dating.Ages s s.advance :=
  ⟨Int.ofNat_le.2 (Nat.le_succ _), fun _ _ hf => .inl hf⟩

theorem ages_erase (key : Path) : h.dating.Ages s (s.erase key) where
  clock := Int.le_refl _
  file path file hf := by
    have hf : (s.erase key).files.find? (h.key path) = some file := hf
    rw [Store.find?_remove] at hf
    split at hf
    · cases hf
    · exact .inl hf

theorem ages_write (other : Handle) (path : Path) (content : String) :
    h.dating.Ages s (after (other.write path content) s) := by
  unfold Handle.write after
  simp only [StateT.run]
  split
  · exact .refl s
  · exact ages_put h s _ _

/-- Whatever others do through a handle of their own, the files of a store age. -/
theorem ages_edit (other : Handle) (edit : Edit) : h.dating.Ages s (edit.change other s) := by
  cases edit with
  | insert path content => exact ages_put h s _ _
  | write path content => exact ages_write h s other path content
  | touch path =>
      unfold Edit.change Handle.touch after
      simp only [StateT.run]
      split
      · exact ages_put h s _ _
      · exact ages_advance h s
  | remove path =>
      unfold Edit.change Handle.remove after
      simp only [StateT.run]
      split
      · exact ages_erase h s _
      · exact .refl s

/-- An edit through a handle, as it is seen through another. -/
def Edit.seen (h other : Handle) (edit : Edit) : h.dating.Change :=
  ⟨edit.change other, fun s => ages_edit h s other edit⟩

theorem storage_dated : h.storage.Dated h.dating where
  looks _ := ⟨fun _ _ ha => ha, fun _ _ ha => ha, fun _ _ ha => ha, fun _ _ ha => ha,
    fun _ _ ha => ha⟩
  modified _ _ _ ha := ha
  write _ path content t ha := ha.trans (ages_write h t h path content)
  answer_read path s := h.toOption_read s path
  answer_modified path s := h.toOption_modified s path

end Memory

/-! ## Shared files -/

/-- A state that others change as well: `plan` holds what they do before each of the calls to
come. -/
structure Shared {σ : Type} (d : Dating σ) where
  store : σ
  plan : List d.Change

namespace Shared

variable {σ α : Type} {d : Dating σ}

/-- The state after the next action of the others. -/
def next (s : Shared d) : σ :=
  match s.plan with
  | [] => s.store
  | change :: _ => change.act s.store

/-- A call before which the others act. -/
def interrupted (action : StateM σ α) : StateM (Shared d) α := fun s =>
  let (answer, store) := action.run s.next
  (answer, ⟨store, s.plan.tail⟩)

/-- All directories that can be met on a walk while others act. -/
def extent (inside : Storage σ) (store : σ) : List d.Change → Nat
  | [] => inside.extent store
  | change :: plan => inside.extent store + extent inside (change.act store) plan

def storage (inside : Storage σ) : Storage (Shared d) where
  contains path := interrupted (inside.contains path)
  isDir path := interrupted (inside.isDir path)
  isSymlink path := interrupted (inside.isSymlink path)
  read path := interrupted (inside.read path)
  write path content := interrupted (inside.write path content)
  list path := interrupted (inside.list path)
  modified path := interrupted (inside.modified path)
  caseSensitive s := inside.caseSensitive s.store
  extent s := extent inside s.store s.plan

/-- What others do between two steps of a session. -/
def edited (change : d.Change) (s : Shared d) : Shared d := { s with store := change.act s.store }

def dating (d : Dating σ) : Dating (Shared d) where
  file? s := d.file? s.store
  clock s := d.clock s.store
  file?_congr hpq s := d.file?_congr hpq s.store
  modified_le s := d.modified_le s.store

theorem ages_next (s : Shared d) : d.Ages s.store s.next := by
  unfold next
  split
  · exact .refl s.store
  · next change _ _ => exact change.ages s.store

theorem keeps_interrupted {s : Shared d} {action : StateM σ α}
    (h : ∀ s, Keeps (d.Ages s) action) : Keeps ((dating d).Ages s) (interrupted action) := by
  intro t ha
  have hn : d.Ages s.store t.next := Dating.Ages.trans ⟨ha.clock, ha.file⟩ t.ages_next
  have hafter : d.Ages s.store (after action t.next) := h s.store t.next hn
  exact ⟨hafter.clock, hafter.file⟩

theorem ages_edited (change : d.Change) (s : Shared d) : (dating d).Ages s (edited change s) :=
  ⟨(change.ages s.store).clock, (change.ages s.store).file⟩

theorem storage_dated {inside : Storage σ} (h : inside.Dated d) :
    (storage inside : Storage (Shared d)).Dated (dating d) where
  looks _ :=
    { contains := fun path => keeps_interrupted fun s => (h.looks s).contains path
      isDir := fun path => keeps_interrupted fun s => (h.looks s).isDir path
      isSymlink := fun path => keeps_interrupted fun s => (h.looks s).isSymlink path
      read := fun path => keeps_interrupted fun s => (h.looks s).read path
      list := fun path => keeps_interrupted fun s => (h.looks s).list path }
  modified _ path := keeps_interrupted fun s => h.modified s path
  write _ path content := keeps_interrupted fun s => h.write s path content
  answer_read path s := h.answer_read path s.next
  answer_modified path s := h.answer_modified path s.next

end Shared

end CompileWatch
