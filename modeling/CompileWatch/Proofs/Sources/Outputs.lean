import CompileWatch.Proofs.Sources.Memory
import CompileWatch.Proofs.Storage.Contents

/-!
# Sources next to new outputs

Outputs are written below one folder, and a store that has taken them in differs
from what it was only there (`Grown`). Its directories may have new entries, but a
new entry outside the folder lies on the way to it, so the sources outside are the
same as before (`Grown.isSource_iff`).

Whether sources turn up in the folder is another question. A search leaves a folder
out by its components, and a store knows it by its key. If the folder is spelled
as its key is, no directory that is reached lies in it (`not_below_folder`). If it
is spelled otherwise, the search does not recognise it.
-/

namespace CompileWatch.Memory

open CompileWatch.Path Sources

namespace Handle

variable {h : Handle} {s t : Store} {query : Query}

theorem mem_children_iff {dir entry : Path} : entry ∈ s.children dir ↔
    ∃ c, entry = dir.join ⟨c.text⟩ ∧ ∃ file, s.Holds file ∧ dir.components ++ [c] <+: file := by
  unfold Store.children
  rw [List.mem_map]
  constructor
  · rintro ⟨c, hc, rfl⟩
    obtain ⟨k, hk, rest, hrest⟩ := Store.mem_childNames.1 hc
    exact ⟨c, rfl, k.components, ⟨k, hk, rfl⟩, rest, by rw [hrest, List.append_assoc]; rfl⟩
  · rintro ⟨c, rfl, _, ⟨k, hk, rfl⟩, rest, hrest⟩
    exact ⟨c, Store.mem_childNames.2 ⟨k, hk, rest, by rw [← hrest, List.append_assoc]; rfl⟩, rfl⟩

theorem list_of_mem_children {dir entry : Path} (he : entry ∈ s.children (h.key dir)) :
    answer (h.storage.list dir) s = .ok (s.children (h.key dir)) := by
  show h.list dir s = _
  unfold list
  split
  · next hnone =>
    rw [hnone] at he
    cases he
  · rfl

/-- An entry of a directory is listed in any store with a file there or below. -/
theorem exists_listing {dir entry : Path} {entries : List Path}
    (hl : answer (h.storage.list dir) s = .ok entries) (he : entry ∈ entries)
    {file : List Component} (hfile : t.Holds file) (hp : entry.components <+: file) :
    ∃ listed, answer (h.storage.list dir) t = .ok listed ∧ entry ∈ listed := by
  obtain ⟨c, rfl, held, ⟨k, hk, rfl⟩, hup⟩ := mem_children_iff.1 (mem_children_of_list hl he)
  obtain ⟨rest, hrest⟩ := hup
  have hname : c ∈ s.childNames (h.key dir) :=
    Store.mem_childNames.2 ⟨k, hk, rest, by rw [← hrest, List.append_assoc]; rfl⟩
  rw [components_child hname] at hp
  have hlisted : (h.key dir).join ⟨c.text⟩ ∈ t.children (h.key dir) :=
    mem_children_iff.2 ⟨c, rfl, file, hfile, hp⟩
  exact ⟨_, list_of_mem_children hlisted, hlisted⟩

theorem lists_still (hs : h.Keyed s) : h.storage.Lists (· = s) h.place :=
  h.storage_lists.still (fun s => h.looks_storage (· = s)) hs

/-- A directory that is reached in one store is reached in any other with a file below it. -/
theorem reached_of_holds (hs : h.Keyed s) {root dir : Path}
    (hd : Reached h.storage query s root dir) : ∀ {file : List Component}, t.Holds file →
      Below (h.place dir) file → Reached h.storage query t root dir := by
  induction hd with
  | refl => exact fun _ _ => .refl
  | @tail above dir _ hl ih =>
      intro file hfile hbelow
      obtain ⟨hplace, c, hc⟩ := hl.place_eq (lists_still hs)
      obtain ⟨entries, hlist, hmem, _, hlink, hadmitted⟩ := hl
      have hp : dir.components <+: file := hplace ▸ (below_iff.1 hbelow).1
      obtain ⟨listed, hlist, hmem⟩ := exists_listing hlist hmem hfile hp
      have hup : h.place above <+: h.place dir := by
        rw [hc]
        exact List.prefix_append _ _
      refine (ih hfile (hbelow.of_prefix hup)).tail
        ⟨listed, hlist, hmem, isDir_iff.2 ⟨file, hfile, hbelow⟩, hlink, hadmitted⟩

section Sources

variable {root file : Path}

theorem holds_of_isSource (hs : h.Keyed s) (hf : IsSource h.storage query s root file) :
    s.Holds file.components ∧ (∀ other, s.Holds other → ¬ Below file.components other) := by
  obtain ⟨dir, entries, _, hl, hmem, hdir, _⟩ := hf
  obtain ⟨hplace, _⟩ := h.storage_lists.below dir s entries hs hl file hmem
  have hnone : ∀ other, s.Holds other → ¬ Below file.components other := by
    intro other hother hbelow
    rw [← hplace] at hbelow
    rw [show answer (h.storage.isDir file) s = h.isDir file s from rfl,
      isDir_iff.2 ⟨other, hother, hbelow⟩] at hdir
    cases hdir
  obtain ⟨_, _, k, hk, hp⟩ := below_of_mem_children (mem_children_of_list hl hmem)
  have hsame : k.components = file.components := by
    by_contra hne
    exact hnone k.components ⟨k, hk, rfl⟩ (below_iff.2 ⟨hp, hne⟩)
  exact ⟨⟨k, hk, hsame⟩, hnone⟩

theorem isSource_of_holds (hs : h.Keyed s) (hf : IsSource h.storage query s root file)
    (hheld : t.Holds file.components)
    (hnone : ∀ other, t.Holds other → ¬ Below file.components other) :
    IsSource h.storage query t root file := by
  obtain ⟨dir, entries, hreached, hl, hmem, _, hext⟩ := hf
  obtain ⟨hplace, c, hc⟩ := h.storage_lists.below dir s entries hs hl file hmem
  obtain ⟨listed, hlisted, hfile⟩ := exists_listing hl hmem hheld (List.prefix_refl _)
  refine ⟨dir, listed, reached_of_holds hs hreached hheld ⟨c, [], hc⟩, hlisted, hfile, ?_, hext⟩
  rw [show answer (h.storage.isDir file) t = h.isDir file t from rfl, ← Bool.not_eq_true]
  intro hdir
  obtain ⟨other, hother, hbelow⟩ := isDir_iff.1 hdir
  exact hnone other hother (hplace ▸ hbelow)

end Sources

end Handle

/-! ## Stores that have grown -/

theorem Store.holds_put {s : Store} {key : Path} {content : String} {place : List Component} :
    (s.put key content).Holds place ↔ place = key.components ∨ s.Holds place := by
  unfold Store.Holds Store.put
  dsimp only
  cases hc : s.files.contains key with
  | true =>
      rw [Table.keys_set_of_contains _ hc]
      refine ⟨.inr, fun h => h.elim (fun heq => ?_) id⟩
      obtain ⟨k, hk, hsame⟩ := (Table.contains_iff _ _).1 hc
      exact ⟨k, hk, (same_iff.1 hsame).trans heq.symm⟩
  | false =>
      simp only [Table.mem_keys_set _ hc, exists_eq_or_imp, eq_comm (a := place)]

/-- From one store to a later one: nothing is gone, and what is new lies below a place. -/
structure Grown (h : Handle) (folder : List Component) (s t : Store) : Prop where
  keyed : h.Keyed t
  kept : ∀ file, s.Holds file → t.Holds file
  added : ∀ file, t.Holds file → s.Holds file ∨ Below folder file

namespace Grown

variable {h : Handle} {folder : List Component} {s t : Store} {query : Query} {root file : Path}

theorem refl (hs : h.Keyed s) : Grown h folder s s := ⟨hs, fun _ hf => hf, fun _ hf => .inl hf⟩

theorem write (hg : Grown h folder s t) {path : Path} (hpath : Below folder (h.place path))
    (content : String) : Grown h folder s (after (h.storage.write path content) t) := by
  unfold after
  rw [h.write_run]
  split
  · exact hg
  · refine ⟨hg.keyed.put path content, fun file hf => ?_, fun file hf => ?_⟩
    · exact Store.holds_put.2 (.inr (hg.kept file hf))
    · rcases Store.holds_put.1 hf with rfl | hf
      · exact .inr hpath
      · exact hg.added file hf

section

variable (hg : Grown h folder s t) (hfree : ∀ file, s.Holds file → ¬ file <+: folder)

include hg hfree

/-- No place with a file has gained files below it, outside the folder. -/
theorem not_below {place : List Component} (hplace : s.Holds place)
    (hnone : ∀ other, s.Holds other → ¬ Below place other) (hout : ¬ folder <+: place) :
    ∀ other, t.Holds other → ¬ Below place other := by
  intro other hother hbelow
  rcases hg.added other hother with hheld | hnew
  · exact hnone other hheld hbelow
  · rcases List.prefix_or_prefix_of_prefix (below_iff.1 hnew).1 (below_iff.1 hbelow).1 with hp | hp
    · exact hout hp
    · exact hfree place hplace hp

/-- Outside the folder the sources are the same as before. -/
theorem isSource_iff (hs : h.Keyed s) (hout : ¬ folder <+: file.components) :
    IsSource h.storage query t root file ↔ IsSource h.storage query s root file := by
  constructor
  · intro hf
    obtain ⟨hheld, hnone⟩ := Handle.holds_of_isSource hg.keyed hf
    refine Handle.isSource_of_holds hg.keyed hf ?_ fun other hother => hnone other (hg.kept other hother)
    exact (hg.added _ hheld).resolve_right fun hnew => hout (below_iff.1 hnew).1
  · intro hf
    obtain ⟨hheld, hnone⟩ := Handle.holds_of_isSource hs hf
    exact Handle.isSource_of_holds hs hf (hg.kept _ hheld) (hg.not_below hfree hheld hnone hout)

end

end Grown

/-! ## The folder of outputs -/

section Folder

variable {h : Handle} {s : Store} {query : Query} {root folder : Path}
  (hs : h.Keyed s) (hquery : query.outDir = some folder)
  (hspelled : (h.key folder).same folder = true) (hroot : ¬ h.place folder <+: h.place root)

include hs hquery hspelled hroot

/-- A folder that is spelled as its key is not entered. -/
theorem not_below_folder {dir : Path} (hd : Reached h.storage query s root dir) :
    ¬ h.place folder <+: h.place dir := by
  induction hd with
  | refl => exact hroot
  | tail _ hl ih =>
      obtain ⟨hplace, c, hc⟩ := hl.place_eq (Handle.lists_still hs)
      obtain ⟨_, _, _, _, _, hadmitted⟩ := hl
      rw [hc]
      intro hp
      rcases List.prefix_concat_iff.1 hp with heq | hp
      · refine hadmitted.1 folder hquery ?_
        rw [← hplace, hc, ← heq]
        exact same_iff.1 hspelled
      · exact ih hp

/-- Nor has it sources, as long as no file stands in its place. -/
theorem not_source_in_folder (hfree : ¬ s.Holds (h.place folder)) {file : Path}
    (hf : IsSource h.storage query s root file) : ¬ h.place folder <+: file.components := by
  intro hp
  have hheld := (Handle.holds_of_isSource hs hf).1
  obtain ⟨dir, entries, hreached, hl, hmem, _, _⟩ := hf
  obtain ⟨_, c, hc⟩ := h.storage_lists.below dir s entries hs hl file hmem
  rw [hc] at hp
  rcases List.prefix_concat_iff.1 hp with heq | hp
  · exact hfree (heq ▸ hc ▸ hheld)
  · exact not_below_folder hs hquery hspelled hroot hreached hp

end Folder

end CompileWatch.Memory
