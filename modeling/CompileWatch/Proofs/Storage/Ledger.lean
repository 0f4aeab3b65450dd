import CompileWatch.Proofs.Looking
import CompileWatch.Proofs.Storage.Edits
import CompileWatch.Watch.Versions

/-!
# Ledgers

What a session may be held to often depends on what has happened to its files
before: whether a file was written since its time was last read, whether some
call has failed. A ledger is a storage with a history. It answers as the storage
inside does and notes the reads, the writes and the readings of times; over
files in memory it also notes what others have dated.

The history says more than the store does: that a file was dated since the last
reading of its time cannot be seen from the store alone, and `Accounted` is what
the version table of a session knows of it.
-/

namespace CompileWatch

open CompileWatch.Path

/-- An entry of a ledger. -/
inductive Note where
  | read (path : Path) (failed : Bool)
  | write (path : Path) (failed : Bool)
  | modified (path : Path)
  /-- Others have made, replaced or touched the file under a key. -/
  | dated (key : Path)
deriving DecidableEq

/-- A state, and what has happened to it, the latest first. -/
structure Ledger (σ : Type) where
  inner : σ
  notes : List Note := []

namespace Ledger

variable {σ α : Type}

def failed : Except FsError α → Bool
  | .ok _ => false
  | .error _ => true

def unnoted (action : StateM σ α) : StateM (Ledger σ) α := fun l =>
  let (answer, inner) := action.run l.inner
  (answer, { l with inner })

def noted (note : α → Note) (action : StateM σ α) : StateM (Ledger σ) α := fun l =>
  let (answer, inner) := action.run l.inner
  (answer, ⟨inner, note answer :: l.notes⟩)

/-- A storage that is kept account of. -/
def storage (inside : Storage σ) : Storage (Ledger σ) where
  contains path := unnoted (inside.contains path)
  isDir path := unnoted (inside.isDir path)
  isSymlink path := unnoted (inside.isSymlink path)
  read path := noted (fun answer => .read path (failed answer)) (inside.read path)
  write path content := noted (fun answer => .write path (failed answer)) (inside.write path content)
  list path := unnoted (inside.list path)
  modified path := noted (fun _ => .modified path) (inside.modified path)
  caseSensitive l := inside.caseSensitive l.inner
  extent l := inside.extent l.inner

end Ledger

namespace Memory

/-! ## Changes by others -/

namespace Edit

/-- The key of the file that an edit dates. A write in the place of a directory and a touch of a
file that is not there date none. -/
def dates? (h : Handle) : Edit → Store → Option Path
  | insert path _, _ => some (h.key path)
  | write path _, s => if h.isDir path s then none else some (h.key path)
  | touch path, s => if s.files.contains (h.key path) then some (h.key path) else none
  | remove _, _ => none

def noted (h : Handle) (edit : Edit) (l : Ledger Store) : Ledger Store :=
  ⟨edit.change h l.inner, (edit.dates? h l.inner).toList.map .dated ++ l.notes⟩

end Edit

/-- Whether the file of a path was made, replaced or touched after its time was last read. -/
def Handle.datedSince (h : Handle) (path : Path) : List Note → Bool
  | [] => true
  | .modified read :: earlier => !read.same path && h.datedSince path earlier
  | .write written failed :: earlier =>
    (!failed && (h.key written).same (h.key path)) || h.datedSince path earlier
  | .dated key :: earlier => key.same (h.key path) || h.datedSince path earlier
  | .read _ _ :: earlier => h.datedSince path earlier

/-! ## What a version table knows -/

/-- What the entry of a file knows of its history: a reading of its time would be later than all
those before it just when the file was dated since its time was last read. -/
structure Accounted (h : Handle) (path : Path) (entry : VersionEntry) (l : Ledger Store) : Prop where
  seen : ∀ time, entry.modified = some time → time ≤ l.inner.clock
  newer : ∀ file, h.file? l.inner path = some file →
    entry.isNewer file.modified = h.datedSince path l.notes

namespace Accounted

variable {h : Handle} {path : Path} {entry : VersionEntry} {l : Ledger Store}
  (ha : Accounted h path entry l)

include ha

theorem isNewer_of_clock_lt {time : Timestamp} (ht : l.inner.clock < time) :
    entry.isNewer time = true := by
  unfold VersionEntry.isNewer
  cases hm : entry.modified with
  | none => rfl
  | some seen => exact decide_eq_true (Int.lt_of_le_of_lt (ha.seen seen hm) ht)

theorem note {notes : List Note} (hd : h.datedSince path notes = h.datedSince path l.notes) :
    Accounted h path entry ⟨l.inner, notes⟩ :=
  ⟨ha.seen, fun file hf => (ha.newer file hf).trans hd.symm⟩

theorem advance : Accounted h path entry ⟨l.inner.advance, l.notes⟩ where
  seen time ht := Int.le_trans (ha.seen time ht) (Int.ofNat_le.2 (Nat.le_succ _))
  newer := ha.newer

theorem put {key : Path} {content : String} {notes : List Note}
    (hd : h.datedSince path notes = (key.same (h.key path) || h.datedSince path l.notes)) :
    Accounted h path entry ⟨l.inner.put key content, notes⟩ where
  seen time ht := Int.le_trans (ha.seen time ht) (Int.ofNat_le.2 (Nat.le_succ _))
  newer file hf := by
    rw [Handle.file?, Store.find?_put] at hf
    rw [hd]
    split at hf
    · next hk =>
      cases hf
      rw [hk, Bool.true_or]
      exact ha.isNewer_of_clock_lt (Int.lt_succ _)
    · next hk =>
      rw [Bool.not_eq_true] at hk
      rw [hk, Bool.false_or]
      exact ha.newer file hf

theorem erase (key : Path) : Accounted h path entry ⟨l.inner.erase key, l.notes⟩ where
  seen := ha.seen
  newer file hf := by
    rw [Handle.file?, Store.find?_remove] at hf
    split at hf
    · cases hf
    · exact ha.newer file hf

/-- Others may edit any file through any handle. -/
theorem edit (other : Handle) (edit : Edit) : Accounted h path entry (edit.noted other l) := by
  cases edit with
  | insert written content => exact ha.put rfl
  | write written content =>
      unfold Edit.noted Edit.change Edit.dates? Handle.write after
      simp only [StateT.run]
      split
      · exact ha
      · exact ha.put rfl
  | touch touched =>
      unfold Edit.noted Edit.change Edit.dates? Handle.touch after
      simp only [StateT.run]
      split
      · next file hf =>
        have hc : l.inner.files.contains (other.key touched) = true := by rw [Table.contains, hf]; rfl
        rw [hc]
        exact ha.put rfl
      · next hf =>
        have hc : l.inner.files.contains (other.key touched) = false := by rw [Table.contains, hf]; rfl
        rw [hc]
        exact ha.advance
  | remove removed =>
      unfold Edit.noted Edit.change Edit.dates? Handle.remove after
      simp only [StateT.run]
      split
      · exact ha.erase _
      · exact ha

end Accounted

theorem looks_accounted (h : Handle) (path : Path) (entry : VersionEntry) :
    (Ledger.storage h.storage).Looks (Accounted h path entry) where
  contains _ _ ha := ha
  isDir _ _ ha := ha
  isSymlink _ _ ha := ha
  read _ _ ha := ha.note rfl
  list _ _ ha := ha

theorem keeps_write_accounted (h : Handle) (path : Path) (entry : VersionEntry) (written : Path)
    (content : String) :
    Keeps (Accounted h path entry) ((Ledger.storage h.storage).write written content) := by
  intro l ha
  have hw : (h.storage.write written content).run l.inner =
      if h.isDir written l.inner then
        (.error (.other s!"cannot write {written.text}: is a directory"), l.inner)
      else (.ok (), l.inner.put (h.key written) content) := rfl
  show Accounted h path entry ⟨((h.storage.write written content).run l.inner).2,
    .write written (Ledger.failed ((h.storage.write written content).run l.inner).1) :: l.notes⟩
  rw [hw]
  split
  · exact ha.note rfl
  · exact ha.put rfl

end Memory

end CompileWatch
