import CompileWatch.Proofs.Path.Stripping
import CompileWatch.Proofs.Storage.Frames
import CompileWatch.Proofs.Storage.History

/-!
# Directories that no one made

A store in memory has files only, and says by them what is a directory, what
stands in it and what exists. These answers go together (`Handle.Coherent`) in
every store that edits through one handle have made: what is a directory can be
listed, what is listed exists, and who lists on from there finds every file.

Two things carry this. A listing erases repetitions next to each other only, which
is enough because files are kept in the order of their components, so those below
one entry are neighbours. And an entry is a path that is asked about again, under
its own key, which is the entry itself because all files are kept under keys.
-/

namespace CompileWatch.Memory

open CompileWatch.Path

namespace Handle

/-- Whether an entry stands in the listing of a directory. -/
def ListsEntry (h : Handle) (s : Store) (dir entry : Path) : Prop :=
  ∃ entries, h.list dir s = .ok entries ∧ entry ∈ entries

/-- Whether the answers about a path agree with each other and with the files there are. -/
structure Coherent (h : Handle) (s : Store) (path : Path) : Prop where
  isDir : h.isDir path s = true ↔ ∃ k ∈ s.files.keys, Below (h.normal path) k.components
  list : (∃ entries, h.list path s = .ok entries) ↔ h.isDir path s = true
  ascending : ∀ entries, h.list path s = .ok entries → entries.Pairwise (compare · · = .lt)
  entries : ∀ entries, h.list path s = .ok entries → ∀ entry, entry ∈ entries ↔
    ∃ k ∈ s.files.keys, ∃ c rest, k.components = h.normal path ++ c :: rest ∧
      entry = (h.key path).join ⟨c.text⟩
  present : ∀ entry, h.ListsEntry s path entry → h.contains entry s = true ∧
    ((∃ text, h.read entry s = .ok text) ∨ h.isDir entry s = true)
  contains : h.contains path s = true ↔
    (∃ text, h.read path s = .ok text) ∨ h.isDir path s = true
  reached : ∀ k ∈ s.files.keys, Below (h.normal path) k.components →
    ∃ file, Relation.TransGen (h.ListsEntry s) path file ∧ file.same k = true ∧
      ∃ text, h.read file s = .ok text

variable {h : Handle} {s : Store} {path : Path}

theorem isDir_iff_below :
    h.isDir path s = true ↔ ∃ k ∈ s.files.keys, Below (h.normal path) k.components := by
  rw [isDir_iff, h.place_eq]
  constructor
  · rintro ⟨_, ⟨k, hk, rfl⟩, hbelow⟩
    exact ⟨k, hk, hbelow⟩
  · rintro ⟨k, hk, hbelow⟩
    exact ⟨_, ⟨k, hk, rfl⟩, hbelow⟩

theorem exists_read_iff : (∃ text, h.read path s = .ok text) ↔ s.Holds (h.normal path) := by
  rw [← h.components_key, Store.holds_iff]
  unfold read Table.contains
  cases s.files.find? (h.key path) <;> simp

theorem contains_iff_read_or_isDir : h.contains path s = true ↔
    (∃ text, h.read path s = .ok text) ∨ h.isDir path s = true := by
  rw [exists_read_iff, ← h.components_key, Store.holds_iff, contains, Bool.or_eq_true]

/-- A path exists if some file is kept there or below. -/
theorem contains_of_prefix {k : Path} (hk : k ∈ s.files.keys)
    (hp : h.normal path <+: k.components) : h.contains path s = true := by
  rw [contains_iff_read_or_isDir, exists_read_iff, isDir_iff_below]
  by_cases heq : k.components = h.normal path
  · exact .inl ⟨k, hk, heq⟩
  · exact .inr ⟨k, hk, below_iff.2 ⟨hp, heq⟩⟩

theorem list_eq_ok_iff {entries : List Path} :
    h.list path s = .ok entries ↔ entries = s.children (h.key path) ∧ entries ≠ [] := by
  unfold list
  cases s.children (h.key path) with
  | nil => simp
  | cons entry rest =>
      simp only [Except.ok.injEq]
      exact ⟨fun heq => heq ▸ ⟨rfl, List.cons_ne_nil _ _⟩, fun heq => heq.1.symm⟩

theorem mem_children_key {entry : Path} : entry ∈ s.children (h.key path) ↔
    ∃ k ∈ s.files.keys, ∃ c rest, k.components = h.normal path ++ c :: rest ∧
      entry = (h.key path).join ⟨c.text⟩ := by
  unfold Store.children
  simp only [List.mem_map, Store.mem_childNames, h.components_key]
  constructor
  · rintro ⟨c, ⟨k, hk, rest, hrest⟩, rfl⟩
    exact ⟨k, hk, c, rest, hrest, rfl⟩
  · rintro ⟨k, hk, c, rest, hrest, rfl⟩
    exact ⟨c, ⟨k, hk, rest, hrest⟩, rfl⟩

theorem listsEntry_iff {entry : Path} :
    h.ListsEntry s path entry ↔ entry ∈ s.children (h.key path) := by
  constructor
  · rintro ⟨entries, hl, he⟩
    exact (list_eq_ok_iff.1 hl).1 ▸ he
  · exact fun he => ⟨_, list_eq_ok_iff.2 ⟨rfl, List.ne_nil_of_mem he⟩, he⟩

/-- The entries of a directory, whatever keys the files are kept under. -/
theorem listsEntry_iff_holds {entry : Path} : h.ListsEntry s path entry ↔ ∃ c rest,
    s.Holds (h.place path ++ c :: rest) ∧ entry = ofComponents (h.place path ++ [c]) := by
  have hnormal : h.normal path = h.place path := (h.place_eq path).symm
  have hjoined : ∀ {c rest}, s.Holds (h.place path ++ c :: rest) →
      (h.key path).join ⟨c.text⟩ = ofComponents (h.place path ++ [c]) := by
    intro c rest hheld
    rw [h.key_eq]
    exact join_child (hheld.spelled.of_prefix ⟨rest, by simp⟩)
  rw [listsEntry_iff, mem_children_key, hnormal]
  constructor
  · intro ⟨k, hk, c, rest, hrest, hentry⟩
    have hheld : s.Holds (h.place path ++ c :: rest) := ⟨k, hk, hrest⟩
    exact ⟨c, rest, hheld, hentry.trans (hjoined hheld)⟩
  · intro ⟨c, rest, hheld, hentry⟩
    have hjoined := hjoined hheld
    obtain ⟨k, hk, hrest⟩ := hheld
    exact ⟨k, hk, c, rest, hrest, hentry.trans hjoined.symm⟩

/-- Listings spell their entries in the plainest way. -/
theorem ListsEntry.ofComponents_eq {entry : Path} (he : h.ListsEntry s path entry) :
    ofComponents entry.components = entry := by
  obtain ⟨c, rest, hheld, rfl⟩ := listsEntry_iff_holds.1 he
  have hspelled : Spelled (h.place path ++ [c]) := hheld.spelled.of_prefix ⟨rest, by simp⟩
  rw [components_ofComponents hspelled]

theorem exists_list_iff_isDir :
    (∃ entries, h.list path s = .ok entries) ↔ h.isDir path s = true := by
  rw [isDir_iff_below]
  constructor
  · rintro ⟨entries, hl⟩
    obtain ⟨rfl, hne⟩ := list_eq_ok_iff.1 hl
    obtain ⟨entry, he⟩ := List.exists_mem_of_ne_nil _ hne
    obtain ⟨k, hk, c, rest, hrest, _⟩ := mem_children_key.1 he
    exact ⟨k, hk, c, rest, hrest⟩
  · rintro ⟨k, hk, c, rest, hrest⟩
    obtain ⟨entries, hl, _⟩ := listsEntry_iff.2 (mem_children_key.2 ⟨k, hk, c, rest, hrest, rfl⟩)
    exact ⟨entries, hl⟩

/-- What lies above a key is its own key. -/
theorem normal_eq_self (hs : h.Keyed s) {k p : Path} (hk : k ∈ s.files.keys)
    (hp : p.components <+: k.components) : h.normal p = p.components :=
  (h.place_eq p).symm.trans (same_iff.1 (same_key_above (hs k hk) hp))

theorem components_entry {k : Path} {c : Component} {rest : List Component}
    (hk : k ∈ s.files.keys) (hrest : k.components = h.normal path ++ c :: rest) :
    ((h.key path).join ⟨c.text⟩).components = h.normal path ++ [c] := by
  have hc : c ∈ s.childNames (h.key path) :=
    Store.mem_childNames.2 ⟨k, hk, rest, by rw [h.components_key, hrest]⟩
  rw [components_child hc, h.place_eq]
  rfl

/-- The entry on the way to a file is asked about under its own key, so the way goes on from it. -/
theorem components_below_entry (hs : h.Keyed s) {k : Path} {c : Component} {rest : List Component}
    (hk : k ∈ s.files.keys) (hrest : k.components = h.normal path ++ c :: rest) :
    k.components = h.normal ((h.key path).join ⟨c.text⟩) ++ rest := by
  have hentry := components_entry hk hrest
  have hway : k.components = (h.normal path ++ [c]) ++ rest := by rw [hrest]; simp
  rw [normal_eq_self hs hk (by rw [hentry, hway]; exact List.prefix_append _ _), hentry, hway]

theorem contains_of_listsEntry (hs : h.Keyed s) {entry : Path} (he : h.ListsEntry s path entry) :
    h.contains entry s = true := by
  obtain ⟨k, hk, c, rest, hrest, rfl⟩ := mem_children_key.1 (listsEntry_iff.1 he)
  exact contains_of_prefix hk ⟨rest, (components_below_entry hs hk hrest).symm⟩

/-- Listing on reaches the files below. The induction is on the way that is left to a file. -/
theorem exists_reached (hs : h.Keyed s) {k : Path} (hk : k ∈ s.files.keys) :
    ∀ (rest : List Component) {c : Component} {path : Path},
      k.components = h.normal path ++ c :: rest →
      ∃ file, Relation.TransGen (h.ListsEntry s) path file ∧ file.components = k.components
  | [], c, path, hrest =>
      ⟨_, .single (listsEntry_iff.2 (mem_children_key.2 ⟨k, hk, c, [], hrest, rfl⟩)),
        (components_entry hk hrest).trans hrest.symm⟩
  | d :: rest, c, path, hrest => by
      have hentry := listsEntry_iff.2 (mem_children_key.2 ⟨k, hk, c, d :: rest, hrest, rfl⟩)
      obtain ⟨file, hreached, hfile⟩ :=
        exists_reached hs hk rest (components_below_entry hs hk hrest)
      exact ⟨file, .head hentry hreached, hfile⟩

theorem Keyed.coherent (hs : h.Keyed s) (path : Path) : h.Coherent s path where
  isDir := isDir_iff_below
  list := exists_list_iff_isDir
  ascending _ hl := ascending_of_list hl
  entries entries hl entry := by
    rw [(list_eq_ok_iff.1 hl).1]
    exact mem_children_key
  present entry he := by
    have hcontains := contains_of_listsEntry hs he
    exact ⟨hcontains, contains_iff_read_or_isDir.1 hcontains⟩
  contains := contains_iff_read_or_isDir
  reached k hk hbelow := by
    obtain ⟨c, rest, hrest⟩ := hbelow
    obtain ⟨file, hreached, hfile⟩ := exists_reached hs hk rest hrest
    have hnormal := normal_eq_self hs hk ⟨[], (List.append_nil _).trans hfile⟩
    exact ⟨file, hreached, same_iff.2 hfile, exists_read_iff.2 ⟨k, hk, by rw [hnormal, hfile]⟩⟩

theorem Keyed.play (edits : List Edit) : ∀ {s : Store}, h.Keyed s → h.Keyed (h.play edits s) := by
  induction edits with
  | nil => exact fun hs => hs
  | cons edit rest ih =>
      intro s hs
      have hnext := hs.edit edit
      rw [← Edit.after_perform] at hnext
      exact ih hnext

/-- Whatever has been done to a store through handles that agree on letter case, its answers about
directories go together. -/
theorem coherent_history (h : Handle) (edits : List Edit) (path : Path) :
    h.Coherent (h.history edits) path :=
  (h.keyed_empty.play edits).coherent path

end Handle

end CompileWatch.Memory
