import CompileWatch.Proofs.Sources.Outputs
import CompileWatch.Proofs.Storage.Places
import CompileWatch.Proofs.Storage.Traced

/-!
# What writes leave alone

Files that are written to a store add to it and change the files in their places.
A call is spared by a write at some place when its answer cannot depend on that:
the file asked after is another one, and no directory asked after comes into
being. Calls that are spared by all writes are answered alike before and after
(`Added.alike`).

To make a directory of a path is more than to write below it: a directory that
is there already is none the more for it. Only a listing tells of every file
below.
-/

namespace CompileWatch

open CompileWatch.Path Memory

/-- A call whose answer in a store stays the same when a file is written at a place. A write is
asked, before it is made, whether there is a directory in its way. -/
def Call.Spared (h : Handle) (s : Store) (place : List Component) : Call → Prop
  | contains path =>
    h.place path ≠ place ∧ (Below (h.place path) place → h.contains path s = true)
  | read path | modified path => h.place path ≠ place
  | isDir path | write path _ => Below (h.place path) place → h.isDir path s = true
  | list path => ¬ Below (h.place path) place
  | isSymlink _ => True

instance (above place : List Component) : Decidable (Below above place) :=
  decidable_of_iff _ below_iff.symm

instance (h : Handle) (s : Store) (place : List Component) :
    DecidablePred (Call.Spared h s place)
  | .contains _ => inferInstanceAs (Decidable (_ ∧ (_ → _)))
  | .read _ | .modified _ => inferInstanceAs (Decidable (_ ≠ _))
  | .isDir _ | .write _ _ => inferInstanceAs (Decidable (_ → _))
  | .list _ => inferInstanceAs (Decidable (¬ _))
  | .isSymlink _ => .isTrue trivial

/-- Two ascending lists with the same members are the same. -/
theorem eq_of_ascending {α : Type} [Ord α] [Std.TransOrd α] {l m : List α}
    (hl : l.Pairwise (compare · · = .lt)) (hm : m.Pairwise (compare · · = .lt))
    (h : ∀ a, a ∈ l ↔ a ∈ m) : l = m := by
  have hnodup : ∀ {n : List α}, n.Pairwise (compare · · = .lt) → n.Nodup := by
    refine fun hn => hn.imp fun {a b} hab heq => ?_
    subst heq
    simp at hab
  refine List.Perm.eq_of_pairwise (fun a b _ _ hab hba => ?_) hl hm
    ((List.perm_ext_iff_of_nodup (hnodup hl) (hnodup hm)).2 h)
  exact absurd hba (Std.OrientedCmp.not_lt_of_lt hab)

namespace Memory

variable {h : Handle} {s t : Store} {W : List Component → Prop}

theorem Store.holds_iff {key : Path} : s.Holds key.components ↔ s.files.contains key = true := by
  rw [Table.contains_iff]
  exact exists_congr fun k => and_congr_right fun _ => same_iff.symm

theorem Store.Holds.spelled {place : List Component} (hheld : s.Holds place) : Spelled place := by
  obtain ⟨k, _, hk⟩ := hheld
  exact hk ▸ spelled_components k

/-- The names in a directory are known by the files below it. -/
theorem Store.childNames_congr {dir : Path}
    (hheld : ∀ place, Below dir.components place → (t.Holds place ↔ s.Holds place)) :
    t.childNames dir = s.childNames dir := by
  have hmem : ∀ {u : Store} {c : Component}, c ∈ u.childNames dir ↔
      ∃ rest, u.Holds (dir.components ++ c :: rest) := by
    intro u c
    rw [Store.mem_childNames]
    constructor
    · intro ⟨k, hk, rest, hrest⟩
      exact ⟨rest, k, hk, hrest⟩
    · intro ⟨rest, k, hk, hrest⟩
      exact ⟨k, hk, rest, hrest⟩
  refine eq_of_ascending (t.ascending_childNames dir) (s.ascending_childNames dir) fun c => ?_
  rw [hmem, hmem]
  exact exists_congr fun rest => hheld _ ⟨c, rest, rfl⟩

/-- From one store to a later one: nothing is gone, and what is new stands at some places. -/
structure Wider (W : List Component → Prop) (s t : Store) : Prop where
  kept : ∀ place, s.Holds place → t.Holds place
  new : ∀ place, t.Holds place → s.Holds place ∨ W place

namespace Wider

theorem put_put (hw : Wider W s t) (key : Path) (content content' : String) :
    Wider W (s.put key content) (t.put key content') where
  kept place hs := Store.holds_put.2 ((Store.holds_put.1 hs).imp_right (hw.kept place))
  new place ht := by
    rw [Store.holds_put] at ht ⊢
    rcases ht with hkey | ht
    · exact .inl (.inl hkey)
    · exact (hw.new place ht).imp_left .inr

variable (hw : Wider W s t) {path : Path}

include hw

theorem isDir_of_isDir (hs : h.isDir path s = true) : h.isDir path t = true := by
  obtain ⟨file, hfile, hbelow⟩ := Handle.isDir_iff.1 hs
  exact Handle.isDir_iff.2 ⟨file, hw.kept file hfile, hbelow⟩

theorem isDir_eq (hmade : ∀ place, W place → Below (h.place path) place → h.isDir path s = true) :
    h.isDir path t = h.isDir path s := by
  rw [Bool.eq_iff_iff]
  refine ⟨fun ht => ?_, hw.isDir_of_isDir⟩
  obtain ⟨file, hfile, hbelow⟩ := Handle.isDir_iff.1 ht
  rcases hw.new file hfile with hs | hW
  · exact Handle.isDir_iff.2 ⟨file, hs, hbelow⟩
  · exact hmade file hW hbelow

end Wider

/-- From one store to a later one: nothing is gone, and files that are not at some places are as
they were. -/
structure Added (W : List Component → Prop) (s t : Store) : Prop where
  elsewhere : ∀ key : Path, ¬ W key.components → t.files.find? key = s.files.find? key
  kept : ∀ place, s.Holds place → t.Holds place

namespace Added

theorem refl (W : List Component → Prop) (s : Store) : Added W s s :=
  ⟨fun _ _ => rfl, fun _ hs => hs⟩

theorem put (ha : Added W s t) {key : Path} (hW : W key.components) (content : String) :
    Added W s (t.put key content) where
  elsewhere other hother := by
    have hne : ¬ key.same other = true := fun hsame => hother (same_iff.1 hsame ▸ hW)
    rw [Store.find?_put, if_neg hne]
    exact ha.elsewhere other hother
  kept place hs := Store.holds_put.2 (.inr (ha.kept place hs))

theorem mono {V : List Component → Prop} (ha : Added W s t) (hWV : ∀ place, W place → V place) :
    Added V s t :=
  ⟨fun key hkey => ha.elsewhere key fun hW => hkey (hWV _ hW), ha.kept⟩

variable (ha : Added W s t) {path : Path}

include ha

theorem wider : Wider W s t where
  kept := ha.kept
  new place ht := by
    obtain ⟨k, hk, rfl⟩ := ht
    by_cases hW : W k.components
    · exact .inr hW
    · refine .inl (Store.holds_iff.2 ?_)
      rw [Table.contains, ← ha.elsewhere k hW]
      exact Table.contains_of_mem_keys hk

theorem find?_eq (hne : ∀ place, W place → h.place path ≠ place) :
    t.files.find? (h.key path) = s.files.find? (h.key path) :=
  ha.elsewhere _ fun hW => hne _ hW rfl

theorem contains_eq (hne : ∀ place, W place → h.place path ≠ place)
    (hmade : ∀ place, W place → Below (h.place path) place → h.contains path s = true) :
    h.contains path t = h.contains path s := by
  have hfile : t.files.contains (h.key path) = s.files.contains (h.key path) := by
    rw [Table.contains, Table.contains, ha.find?_eq hne]
  rw [Bool.eq_iff_iff]
  constructor
  · intro ht
    rw [Handle.contains, Bool.or_eq_true, hfile] at ht
    rcases ht with hs | hdir
    · rw [Handle.contains, hs, Bool.true_or]
    · obtain ⟨file, hheld, hbelow⟩ := Handle.isDir_iff.1 hdir
      rcases ha.wider.new _ hheld with hs | hW
      · rw [Handle.contains, Handle.isDir_iff.2 ⟨file, hs, hbelow⟩, Bool.or_true]
      · exact hmade file hW hbelow
  · intro hs
    rw [Handle.contains, Bool.or_eq_true] at hs ⊢
    exact hs.imp (fun hf => hfile ▸ hf) ha.wider.isDir_of_isDir

theorem childNames_eq {dir : Path} (hbelow : ∀ place, W place → ¬ Below dir.components place) :
    t.childNames dir = s.childNames dir := by
  refine Store.childNames_congr fun place hplace => ⟨fun ht => ?_, ha.kept place⟩
  exact (ha.wider.new place ht).resolve_right fun hW => hbelow place hW hplace

/-- Calls that are spared at all places of writes are answered as before. -/
theorem alike {call : Call} (hspared : ∀ place, W place → call.Spared h s place) :
    call.Alike h.storage s t := by
  cases call with
  | contains path =>
      exact ha.contains_eq (fun place hW => (hspared place hW).1) fun place hW => (hspared place hW).2
  | isDir path => exact ha.wider.isDir_eq hspared
  | isSymlink path => rfl
  | read path =>
      show h.read path t = h.read path s
      unfold Handle.read
      rw [ha.find?_eq hspared]
  | write path made =>
      intro content
      unfold answer
      rw [h.write_run, h.write_run, ha.wider.isDir_eq hspared]
      split <;> rfl
  | list path =>
      show h.list path t = h.list path s
      unfold Handle.list Store.children
      rw [ha.childNames_eq hspared]
  | modified path =>
      show h.modified path t = h.modified path s
      unfold Handle.modified
      rw [ha.find?_eq hspared]

end Added

end Memory

end CompileWatch
