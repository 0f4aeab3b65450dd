import CompileWatch.Proofs.Storage.Directories

/-!
# Stores that are trees

A directory in memory is wherever some file lies below, so a file can be a
directory at the same time: it is when another file lies below it. A store in
which this does not happen is a tree (`Store.IsTree`).

A new file can be in the way in two directions. It may come to lie above a file,
which a write looks for and refuses, or below one, which a write does not look
for. Touches and removals bring no new file. So it is exactly the writes below
files that decide whether a history goes through trees only
(`tree_iff_no_write_below_file`), and there are histories that do not
(`file_becomes_directory`).
-/

namespace CompileWatch.Memory

open CompileWatch.Path

/-- Whether no file of a store lies below another. -/
def Store.IsTree (s : Store) : Prop :=
  ∀ file other, s.Holds file → s.Holds other → ¬ Below file other

namespace Store

variable {s t : Store}

theorem isTree_empty : empty.IsTree := by
  rintro file other ⟨k, hk, _⟩
  cases hk

theorem IsTree.mono (hs : s.IsTree) (hst : ∀ place, t.Holds place → s.Holds place) : t.IsTree :=
  fun file other hfile hother => hs file other (hst file hfile) (hst other hother)

/-- It is enough to look at the keys of the files. -/
theorem isTree_iff : s.IsTree ↔
    ∀ k ∈ s.files.keys, ∀ l ∈ s.files.keys, ¬ Below k.components l.components := by
  constructor
  · exact fun hs k hk l hl => hs _ _ ⟨k, hk, rfl⟩ ⟨l, hl, rfl⟩
  · rintro hs _ _ ⟨k, hk, rfl⟩ ⟨l, hl, rfl⟩
    exact hs k hk l hl

theorem not_below_self (place : List Component) : ¬ Below place place :=
  fun hbelow => (below_iff.1 hbelow).2 rfl

/-- A new file keeps a tree if it lies neither above nor below another. -/
theorem isTree_put_iff (hs : s.IsTree) (key : Path) (content : String) :
    (s.put key content).IsTree ↔
      (∀ file, s.Holds file → ¬ Below file key.components) ∧
        ∀ file, s.Holds file → ¬ Below key.components file := by
  constructor
  · intro ht
    have hkey : (s.put key content).Holds key.components := holds_put.2 (.inl rfl)
    exact ⟨fun file hfile => ht file _ (holds_put.2 (.inr hfile)) hkey,
      fun file hfile => ht _ file hkey (holds_put.2 (.inr hfile))⟩
  · rintro ⟨habove, hbelow⟩ file other hfile hother
    rcases holds_put.1 hfile with rfl | hfile
    · rcases holds_put.1 hother with rfl | hother
      · exact not_below_self _
      · exact hbelow other hother
    · rcases holds_put.1 hother with rfl | hother
      · exact habove file hfile
      · exact hs file other hfile hother

theorem holds_of_erase {key : Path} {place : List Component} (h : (s.erase key).Holds place) :
    s.Holds place := by
  obtain ⟨k, hk, rfl⟩ := h
  exact ⟨k, (List.filter_sublist.map _).subset hk, rfl⟩

end Store

variable {h : Handle} {s : Store}

/-- A store is a tree if no path names both a file and a directory. -/
theorem Handle.Keyed.isTree_iff (hs : h.Keyed s) : s.IsTree ↔
    ∀ path, ¬ ((∃ text, h.read path s = .ok text) ∧ h.isDir path s = true) := by
  constructor
  · rintro htree path ⟨hread, hdir⟩
    obtain ⟨k, hk, hbelow⟩ := Handle.isDir_iff_below.1 hdir
    exact htree _ _ (Handle.exists_read_iff.1 hread) ⟨k, hk, rfl⟩ hbelow
  · rintro hpaths _ _ ⟨k, hk, rfl⟩ ⟨l, hl, rfl⟩ hbelow
    have hnormal : h.normal k = k.components := Handle.normal_eq_self hs hk (List.prefix_refl _)
    refine hpaths k ⟨Handle.exists_read_iff.2 ⟨k, hk, hnormal.symm⟩, ?_⟩
    exact Handle.isDir_iff_below.2 ⟨l, hl, hnormal.symm ▸ hbelow⟩

/-! ## Edits through a file system -/

/-- Whether an edit makes its file whatever is in the way. A file system offers no such edit. -/
def Edit.isInsert : Edit → Bool
  | insert _ _ => true
  | _ => false

/-- Whether an edit was a write that made or replaced a file below another file. -/
def Made.WritesBelowFile (h : Handle) (m : Made) : Prop :=
  ∃ path content, m.edit = .write path content ∧ m.succeeded h = true ∧
    ∃ file, m.before.Holds file ∧ Below file (h.normal path)

namespace Made

/-- A write is refused where files lie below its path, and then it changes nothing. -/
theorem write_refused_iff {m : Made} {path : Path} {content : String}
    (hm : m.edit = .write path content) :
    (m.succeeded h = false ↔ ∃ file, m.before.Holds file ∧ Below (h.normal path) file) ∧
      (m.succeeded h = false → m.next h = m.before) := by
  have hok : m.succeeded h = !h.isDir path m.before := by rw [m.succeeded_eq, hm]
  rw [hok, Bool.not_eq_false']
  constructor
  · rw [Handle.isDir_iff, h.place_eq]
    rfl
  · intro hdir
    rw [next, Edit.after_perform, hm]
    exact (h.after_write path content m.before).trans (if_pos hdir)

/-- What one edit does to a tree: it stays one unless a file is written below another. -/
theorem isTree_next_iff {m : Made} (hs : m.before.IsTree) (hport : m.edit.isInsert = false) :
    (m.next h).IsTree ↔ ¬ m.WritesBelowFile h := by
  have hquiet : (∀ path content, m.edit ≠ .write path content) →
      (∀ place, (m.next h).Holds place → m.before.Holds place) →
      ((m.next h).IsTree ↔ ¬ m.WritesBelowFile h) := by
    intro hwrite hheld
    refine iff_of_true (hs.mono hheld) ?_
    rintro ⟨path, content, hm, _⟩
    exact hwrite path content hm
  obtain ⟨edit, s⟩ := m
  cases edit with
  | insert path content => cases hport
  | write path content =>
      have hok := (Made.mk (.write path content) s).succeeded_eq h
      have hnext : (Made.mk (.write path content) s).next h =
          if h.isDir path s then s else s.put (h.key path) content := h.after_write path content s
      rw [hnext]
      cases hdir : h.isDir path s with
      | true =>
          refine iff_of_true hs ?_
          rintro ⟨_, _, _, hmade, _⟩
          rw [hok] at hmade
          simp [hdir] at hmade
      | false =>
          -- no file lies below the new one, so what is above it decides
          have hbelow : ∀ file, s.Holds file → ¬ Below (h.normal path) file := by
            intro file hfile hin
            have htrue : h.isDir path s = true :=
              Handle.isDir_iff.2 ⟨file, hfile, h.place_eq path ▸ hin⟩
            rw [hdir] at htrue
            cases htrue
          rw [if_neg (by decide), Store.isTree_put_iff hs, h.components_key,
            and_iff_left hbelow]
          constructor
          · rintro habove ⟨_, _, hm, _, file, hfile, hin⟩
            cases hm
            exact habove file hfile hin
          · intro hnone file hfile hin
            exact hnone ⟨path, content, rfl, by rw [hok]; simp [hdir], file, hfile, hin⟩
  | touch path =>
      refine hquiet (fun _ _ => Edit.noConfusion) fun place hplace => ?_
      have hnext : (Made.mk (.touch path) s).next h =
          ((h.file? s path).map fun file => s.put (h.key path) file.content).getD s.advance :=
        h.after_touch path s
      rw [hnext] at hplace
      cases hfile : h.file? s path with
      | none =>
          rw [hfile] at hplace
          exact hplace
      | some file =>
          rw [hfile] at hplace
          rcases Store.holds_put.1 hplace with rfl | hheld
          · refine Store.holds_iff.2 ?_
            rw [Table.contains, ← Handle.file?, hfile]
            rfl
          · exact hheld
  | remove path =>
      refine hquiet (fun _ _ => Edit.noConfusion) fun place hplace => ?_
      have hnext : (Made.mk (.remove path) s).next h =
          if (h.file? s path).isSome then s.erase (h.key path) else s := h.after_remove path s
      rw [hnext] at hplace
      split at hplace
      · exact Store.holds_of_erase hplace
      · exact hplace

end Made

/-! ## Histories -/

/-- Over edits made one after the other, trees stay trees up to the first write below a file. -/
theorem isTree_log_iff : ∀ (edits : List Edit) {s : Store}, s.IsTree →
    (∀ edit ∈ edits, edit.isInsert = false) →
    ((∀ m ∈ h.log edits s, (m.next h).IsTree) ↔ ∀ m ∈ h.log edits s, ¬ m.WritesBelowFile h)
  | [], _, _, _ => iff_of_true (fun m hm => by cases hm) (fun m hm => by cases hm)
  | edit :: rest, s, hs, hport => by
      have hstep := Made.isTree_next_iff (h := h) (m := ⟨edit, s⟩) hs
        (hport edit List.mem_cons_self)
      have hlog : h.log (edit :: rest) s = ⟨edit, s⟩ :: h.log rest ((Made.mk edit s).next h) := rfl
      rw [hlog, List.forall_mem_cons, List.forall_mem_cons, ← hstep]
      exact and_congr_right fun htree =>
        isTree_log_iff rest htree fun e he => hport e (List.mem_cons_of_mem _ he)

theorem keyed_log : ∀ (edits : List Edit) {s : Store}, h.Keyed s →
    ∀ m ∈ h.log edits s, h.Keyed (m.next h)
  | edit :: rest, s, hs, m, hm => by
      have hnext : h.Keyed ((Made.mk edit s).next h) := hs.play [edit]
      rcases List.mem_cons.1 hm with rfl | hm
      · exact hnext
      · exact keyed_log rest hnext m hm

/-- A history of writes, touches and removals goes through trees only, stores without a path that is
a file and a directory at once, if and only if no write of it made a file below another file. A
write at a path with files below it is always refused, and leaves the store as it was. -/
theorem tree_iff_no_write_below_file (h : Handle) (edits : List Edit)
    (hport : ∀ edit ∈ edits, edit.isInsert = false) :
    ((∀ m ∈ h.log edits .empty, (m.next h).IsTree) ↔
      ∀ m ∈ h.log edits .empty, ¬ m.WritesBelowFile h) ∧
    (∀ m ∈ h.log edits .empty, ((m.next h).IsTree ↔ ∀ path,
      ¬ ((∃ text, h.read path (m.next h) = .ok text) ∧ h.isDir path (m.next h) = true))) ∧
    ∀ (m : Made) path content, m.edit = .write path content →
      (m.succeeded h = false ↔ ∃ file, m.before.Holds file ∧ Below (h.normal path) file) ∧
      (m.succeeded h = false → m.next h = m.before) :=
  ⟨isTree_log_iff edits Store.isTree_empty hport,
    fun m hm => (keyed_log edits h.keyed_empty m hm).isTree_iff,
    fun _ _ _ hm => Made.write_refused_iff hm⟩

/-- A write that is refused, and one below a file, which is not. -/
def fileAndDirectory : List Edit :=
  [.write ⟨"/p/a/b"⟩ "1", .write ⟨"/p/a"⟩ "2", .remove ⟨"/p/a/b"⟩, .write ⟨"/p/a"⟩ "3",
    .touch ⟨"/p/a"⟩, .write ⟨"/p/./a/c"⟩ "4"]

theorem tree_iff_no_write_below_file_refused :
    (∀ edit ∈ fileAndDirectory, edit.isInsert = false) ∧
      ¬ ∀ m ∈ exact.log fileAndDirectory .empty, (m.next exact).IsTree := by
  have hport : ∀ edit ∈ fileAndDirectory, edit.isInsert = false := by
    simp [fileAndDirectory, Edit.isInsert]
  refine ⟨hport, fun htrees => ?_⟩
  have hnone := (tree_iff_no_write_below_file exact fileAndDirectory hport).1.1 htrees
  refine hnone ⟨.write ⟨"/p/./a/c"⟩ "4", exact.history (fileAndDirectory.take 5)⟩
    (by simp [fileAndDirectory, Handle.log, Handle.history, Handle.play]) ?_
  exact ⟨_, _, rfl, by decide +kernel, (⟨"/p/a"⟩ : Path).components,
    Store.holds_iff.2 (by decide +kernel), by decide +kernel⟩

/-- Two writes from nothing, both made, leave a path that is a file and a directory. -/
theorem file_becomes_directory :
    let edits : List Edit := [.write ⟨"/a"⟩ "1", .write ⟨"/a/b"⟩ "2"]
    (∀ edit ∈ edits, edit.isInsert = false) ∧
      ¬ (exact.history edits).IsTree ∧
      exact.read ⟨"/a"⟩ (exact.history edits) = .ok "1" ∧
      exact.isDir ⟨"/a"⟩ (exact.history edits) = true := by
  intro edits
  have hread : exact.read ⟨"/a"⟩ (exact.history edits) = .ok "1" := by decide +kernel
  have hdir : exact.isDir ⟨"/a"⟩ (exact.history edits) = true := by decide +kernel
  refine ⟨by simp [edits, Edit.isInsert], fun htree => ?_, hread, hdir⟩
  have hkeyed : exact.Keyed (exact.history edits) := exact.keyed_empty.play edits
  exact hkeyed.isTree_iff.1 htree ⟨"/a"⟩ ⟨⟨"1", hread⟩, hdir⟩

end CompileWatch.Memory
