import CompileWatch.Proofs.Path.Stripping
import CompileWatch.Proofs.Sources.Search
import CompileWatch.Proofs.Storage.Places

/-!
# Listing files in memory

A store holds files only, and reads its directories off the keys of the files
below them. The keys stand in path order, so the files below one entry are
neighbours, and the names that are left when repetitions are erased are strictly
ascending (`ascending_childNames`). The entries of a directory are keys again as
long as the files are (`Handle.Keyed`), which is what tells the directories of a
search apart (`storage_lists`).

Of a store that was filled through another handle less is known. An entry may be
spelled with capitals where the handle has none, so that it leads to the files of
another entry. It still leads one step down (`storage_descends`), and no file lies
deeper than the longest key, so a search comes to its end (`storage_bounded`).
-/

namespace CompileWatch

open CompileWatch.Path

/-! ## Ascending lists without repetitions -/

section Repetitions

theorem loop_eraseReps {α : Type} (r : α → α → Bool) (a : α) (as acc : List α) :
    List.eraseRepsBy.loop r a as acc = acc.reverse ++ List.eraseRepsBy.loop r a as [] := by
  induction as generalizing a acc with
  | nil => simp [List.eraseRepsBy.loop]
  | cons b rest ih =>
      simp only [List.eraseRepsBy.loop]
      split
      · exact ih a acc
      · rw [ih b (a :: acc), ih b [a]]
        simp

variable {α : Type} [BEq α]

theorem eraseReps_cons_cons (a b : α) (rest : List α) :
    (a :: b :: rest).eraseReps =
      if a == b then (a :: rest).eraseReps else a :: (b :: rest).eraseReps := by
  show List.eraseRepsBy.loop (· == ·) a (b :: rest) [] = _
  simp only [List.eraseRepsBy.loop]
  split
  · next h => rw [h, if_pos rfl]; rfl
  · next h =>
    rw [h, loop_eraseReps]
    rfl

theorem mem_eraseReps [LawfulBEq α] {c : α} : ∀ {l : List α}, c ∈ l.eraseReps ↔ c ∈ l
  | [] => .rfl
  | [a] => .rfl
  | a :: b :: rest => by
      rw [eraseReps_cons_cons]
      split
      · next h =>
        rw [mem_eraseReps, ← eq_of_beq h]
        simp
      · rw [List.mem_cons, mem_eraseReps, ← List.mem_cons]

theorem ascending_eraseReps [LawfulBEq α] [Ord α] [Std.TransOrd α] [Std.LawfulEqOrd α] :
    ∀ {l : List α}, l.Pairwise (compare · · ≠ .gt) → l.eraseReps.Pairwise (compare · · = .lt)
  | [], _ => .nil
  | [a], _ => List.pairwise_singleton _ _
  | a :: b :: rest, h => by
      rw [eraseReps_cons_cons]
      obtain ⟨ha, hrest⟩ := List.pairwise_cons.1 h
      split
      · exact ascending_eraseReps (List.pairwise_cons.2
          ⟨fun c hc => ha c (List.mem_cons_of_mem _ hc), (List.pairwise_cons.1 hrest).2⟩)
      · next hne =>
        refine List.pairwise_cons.2 ⟨fun c hc => ?_, ascending_eraseReps hrest⟩
        have hab : compare a b = .lt := by
          cases hab : compare a b with
          | lt => rfl
          | eq => exact absurd (beq_iff_eq.2 (Std.LawfulEqOrd.eq_of_compare hab)) hne
          | gt => exact absurd hab (ha b List.mem_cons_self)
        rcases List.mem_cons.1 (mem_eraseReps.1 hc) with rfl | hc
        · exact hab
        · exact Std.TransCmp.lt_of_lt_of_isLE hab
            (Ordering.isLE_iff_ne_gt.2 ((List.pairwise_cons.1 hrest).1 c hc))

end Repetitions

namespace Memory

/-! ## Steps towards files -/

namespace Store

theorem stepToward?_eq_some {dir file : List Component} {c : Component} :
    stepToward? dir file = some c ↔ ∃ rest, file = dir ++ c :: rest := by
  fun_induction stepToward? dir file with
  | case1 next rest =>
      simp only [Option.some.injEq, List.nil_append, List.cons.injEq]
      exact ⟨fun h => ⟨rest, h, rfl⟩, fun ⟨_, h, _⟩ => h⟩
  | case2 c dir file ih => simp [ih]
  | case3 d dir c file hne => simp [Ne.symm hne]
  | case4 dir => simp

theorem mem_childNames {s : Store} {dir : Path} {c : Component} :
    c ∈ s.childNames dir ↔
      ∃ k ∈ s.files.keys, ∃ rest, k.components = dir.components ++ c :: rest := by
  unfold childNames
  simp only [mem_eraseReps, List.mem_filterMap, stepToward?_eq_some, Table.keys, List.mem_map]
  constructor
  · rintro ⟨row, hr, rest, h⟩
    exact ⟨_, ⟨row, hr, rfl⟩, rest, row.1.components_eq ▸ h⟩
  · rintro ⟨_, ⟨row, hr, rfl⟩, rest, h⟩
    exact ⟨row, hr, rest, row.1.components_eq.symm ▸ h⟩

theorem ascending_childNames (s : Store) (dir : Path) :
    (s.childNames dir).Pairwise (compare · · = .lt) := by
  refine ascending_eraseReps (List.Pairwise.filterMap _ ?_ s.files.sorted)
  intro row other hlt c hc d hd
  obtain ⟨rest, hc⟩ := stepToward?_eq_some.1 hc
  obtain ⟨rest', hd⟩ := stepToward?_eq_some.1 hd
  rw [Key.compare_def, Path.compare_def, ← row.1.components_eq, ← other.1.components_eq, hc, hd,
    compare_append] at hlt
  change List.compareLex compare _ _ = _ at hlt
  rw [List.compareLex_cons_cons] at hlt
  intro hgt
  rw [hgt] at hlt
  cases hlt

end Store

namespace Handle

variable {h : Handle} {s : Store} {dir entry : Path} {entries : List Path}

theorem list_eq_ok {path : Path} {entries : List Path} (hl : h.list path s = .ok entries) :
    entries = s.children (h.key path) := by
  unfold list at hl
  split at hl
  · cases hl
  · cases hl
    rfl

/-- Entries are spelled one step below the key of their directory. -/
theorem components_child {c : Component} (hc : c ∈ s.childNames (h.key dir)) :
    ((h.key dir).join ⟨c.text⟩).components = h.place dir ++ [c] := by
  obtain ⟨k, _, rest, hrest⟩ := Store.mem_childNames.1 hc
  have hspelled : Spelled ((h.place dir ++ [c]) ++ rest) := by
    rw [List.append_assoc]
    exact hrest ▸ spelled_components k
  have hentry := hspelled.of_prefix (List.prefix_append _ _)
  rw [h.key_eq, join_child hentry, components_ofComponents hentry]

theorem below_of_mem_children (he : entry ∈ s.children (h.key dir)) :
    ∃ c, entry.components = h.place dir ++ [c] ∧
      ∃ k ∈ s.files.keys, entry.components <+: k.components := by
  obtain ⟨c, hc, rfl⟩ := List.mem_map.1 he
  obtain ⟨k, hk, rest, hrest⟩ := Store.mem_childNames.1 hc
  refine ⟨c, components_child hc, k, hk, rest, ?_⟩
  rw [components_child hc, hrest, List.append_assoc]
  rfl

theorem mem_children_of_list (hl : answer (h.storage.list dir) s = .ok entries)
    (he : entry ∈ entries) : entry ∈ s.children (h.key dir) :=
  list_eq_ok (show h.list dir s = .ok entries from hl) ▸ he

theorem ascending_of_list (hl : answer (h.storage.list dir) s = .ok entries) :
    entries.Pairwise (compare · · = .lt) := by
  rw [list_eq_ok (show h.list dir s = .ok entries from hl)]
  refine List.pairwise_map.2 ((s.ascending_childNames (h.key dir)).imp_of_mem ?_)
  intro c d hc hd hlt
  rw [Path.compare_def, components_child hc, components_child hd, compare_append]
  show List.compareLex compare [c] [d] = .lt
  rw [List.compareLex_cons_cons, hlt]
  rfl

theorem storage_lists (h : Handle) : h.storage.Lists h.Keyed h.place where
  looks := h.looks_storage _
  ascending _ _ _ _ hl := ascending_of_list hl
  below dir s entries hs hl entry he := by
    obtain ⟨c, hc, k, hk, hp⟩ := below_of_mem_children (mem_children_of_list hl he)
    exact ⟨same_iff.1 (same_key_above (hs k hk) hp), c, hc⟩

/-- A path that is spelled as the place of another has this place itself. -/
theorem place_eq_of_spelled {p q : Path} (hpq : p.components = h.place q) :
    h.place p = h.place q :=
  (congrArg Path.components (h.key_congr (same_iff.2 hpq))).trans (h.place_key q)

/-- An entry with a name of its own leads one step down from its directory. -/
theorem place_entry {c : Component} (hc : c ≠ .current)
    (hentry : entry.components = h.place dir ++ [c]) :
    h.place entry = h.place dir ++ [h.kept c] := by
  rw [h.place_append hc (q := h.key dir) hentry, place_key]

/-- The way to a file of a plain store goes through names. -/
theorem ne_current_of_below (hs : s.Plain) {k : Path} (hk : k ∈ s.files.keys)
    {place : List Component} {c : Component} (hp : place ++ [c] <+: k.components) : c ≠ .current :=
  fun heq => hs k hk (hp.subset (by simp [heq]))

/-- What is at or below a path is known by its place. -/
theorem isDir_congr {p q : Path} (hpq : h.place p = h.place q) : h.isDir p s = h.isDir q s := by
  show s.files.rows.any _ = s.files.rows.any _
  rw [show (h.key p).components = (h.key q).components from hpq]

theorem storage_descends (hs : s.Plain) : h.storage.Descends s h.place where
  spelled dir entries hl entry he := by
    obtain ⟨c, hc, -⟩ := below_of_mem_children (mem_children_of_list hl he)
    exact ⟨c, hc⟩
  placed dir entries hl entry he := by
    obtain ⟨c, hc, k, hk, hp⟩ := below_of_mem_children (mem_children_of_list hl he)
    exact ⟨h.kept c, place_entry (ne_current_of_below hs hk (hc ▸ hp)) hc⟩
  distinct dir entries hl := distinct_of_ascending (ascending_of_list hl)
  apart dir entries hl d hd f hf hdir hfile heq := by
    have hsame : h.isDir f s = h.isDir d s := isDir_congr (place_eq_of_spelled heq.symm)
    rw [show h.isDir f s = false from hfile, show h.isDir d s = true from hdir] at hsame
    cases hsame

end Handle

/-! ## Files below directories -/

def Store.Holds (s : Store) (place : List Component) : Prop :=
  ∃ k ∈ s.files.keys, k.components = place

theorem Handle.isDir_iff {h : Handle} {s : Store} {path : Path} :
    h.isDir path s = true ↔ ∃ file, s.Holds file ∧ Below (h.place path) file := by
  constructor
  · intro hd
    obtain ⟨row, hrow, hstep⟩ := List.any_eq_true.1 hd
    obtain ⟨c, hc⟩ := Option.isSome_iff_exists.1 hstep
    obtain ⟨rest, hrest⟩ := Store.stepToward?_eq_some.1 hc
    exact ⟨_, ⟨row.1.path, List.mem_map.2 ⟨row, hrow, rfl⟩, row.1.components_eq.symm⟩, c, rest,
      hrest⟩
  · rintro ⟨_, ⟨k, hk, rfl⟩, c, rest, hrest⟩
    obtain ⟨row, hrow, rfl⟩ := List.mem_map.1 hk
    refine List.any_eq_true.2 ⟨row, hrow, Option.isSome_iff_exists.2 ⟨c, ?_⟩⟩
    exact Store.stepToward?_eq_some.2 ⟨rest, row.1.components_eq.trans hrest⟩

/-! ## Weights of directories -/

namespace Store

theorem le_foldl_max {α : Type} (f : α → Nat) : ∀ (l : List α) (n : Nat),
    n ≤ l.foldl (fun n a => max n (f a)) n ∧ ∀ a ∈ l, f a ≤ l.foldl (fun n a => max n (f a)) n
  | [], n => ⟨Nat.le_refl n, fun a ha => by cases ha⟩
  | b :: rest, n => by
      obtain ⟨hstart, hrest⟩ := le_foldl_max f rest (max n (f b))
      refine ⟨(Nat.le_max_left _ _).trans hstart, fun a ha => ?_⟩
      rcases List.mem_cons.1 ha with rfl | ha
      · exact (Nat.le_max_right _ _).trans hstart
      · exact hrest a ha

variable {s : Store}

theorem length_le_depth {k : Path} (hk : k ∈ s.files.keys) : k.components.length ≤ s.depth := by
  obtain ⟨row, hrow, rfl⟩ := List.mem_map.1 hk
  rw [← row.1.components_eq]
  exact (le_foldl_max (fun row : Key × File => row.1.components.length) s.files.rows 0).2 row hrow

theorem length_eraseReps_le {α : Type} [BEq α] : ∀ l : List α, l.eraseReps.length ≤ l.length
  | [] => Nat.le_refl 0
  | [a] => Nat.le_refl 1
  | a :: b :: rest => by
      rw [eraseReps_cons_cons]
      split
      · exact (length_eraseReps_le (a :: rest)).trans (Nat.le_succ _)
      · exact Nat.succ_le_succ (length_eraseReps_le (b :: rest))

theorem length_children_le (s : Store) (dir : Path) : (s.children dir).length ≤ s.files.size := by
  unfold children childNames
  rw [List.length_map]
  exact (length_eraseReps_le _).trans (List.length_filterMap_le _ _)

end Store

namespace Handle

variable {h : Handle} {s : Store}

theorem length_place_lt {path : Path} (hdir : h.isDir path s = true) :
    (h.place path).length < s.depth := by
  obtain ⟨_, ⟨k, hk, rfl⟩, c, rest, hbelow⟩ := isDir_iff.1 hdir
  have hlength := Store.length_le_depth hk
  rw [hbelow, List.length_append, List.length_cons] at hlength
  omega

/-- The weight of a directory in memory. There are no more entries than files, and no descent is
longer than the longest key. -/
def weight (h : Handle) (s : Store) (dir : Path) : Nat :=
  (s.files.size + 1) ^ (s.depth + 1 - (h.place dir).length)

theorem weight_pos (dir : Path) : 0 < h.weight s dir := Nat.pow_pos (Nat.succ_pos _)

theorem weight_le_extent (dir : Path) : h.weight s dir ≤ h.storage.extent s :=
  Nat.pow_le_pow_right (Nat.succ_pos _) (Nat.sub_le _ _)

/-- A directory with no file below it that has an inner dot weighs more than all the directories
among its entries. -/
theorem sum_weight_lt {dir : Path} {entries : List Path}
    (hs : ∀ k ∈ s.files.keys, h.place dir <+: k.components → .current ∉ k.components)
    (hl : h.list dir s = .ok entries) :
    ((entries.filter (h.isDir · s)).map (h.weight s)).sum < h.weight s dir := by
  by_cases hnone : entries.filter (h.isDir · s) = []
  · rw [hnone]
    exact weight_pos dir
  -- an entry that is a directory has a file below it, so the directory is not at full depth
  have hplace : ∀ entry ∈ entries, ∃ c, h.place entry = h.place dir ++ [c] := by
    intro entry he
    obtain ⟨c, hc, k, hk, hp⟩ := below_of_mem_children (mem_children_of_list hl he)
    refine ⟨_, place_entry (fun heq => hs k hk ?_ (hp.subset (by simp [hc, heq]))) hc⟩
    exact (List.prefix_append _ _).trans (hc ▸ hp)
  have hdepth : (h.place dir).length < s.depth := by
    obtain ⟨entry, he⟩ := List.exists_mem_of_ne_nil _ hnone
    obtain ⟨hmem, hdir⟩ := List.mem_filter.1 he
    obtain ⟨c, hc⟩ := hplace entry hmem
    have hlength := length_place_lt hdir
    rw [hc, List.length_append, List.length_singleton] at hlength
    omega
  have hweight : ∀ n ∈ (entries.filter (h.isDir · s)).map (h.weight s),
      n = (s.files.size + 1) ^ (s.depth - (h.place dir).length) := by
    intro n hn
    obtain ⟨entry, he, rfl⟩ := List.mem_map.1 hn
    obtain ⟨c, hc⟩ := hplace entry (List.mem_filter.1 he).1
    rw [weight, hc, List.length_append, List.length_singleton, Nat.add_sub_add_right]
  have hcount : (entries.filter (h.isDir · s)).length ≤ s.files.size :=
    (List.length_filter_le _ _).trans (list_eq_ok hl ▸ s.length_children_le _)
  rw [List.eq_replicate_of_mem hweight, List.sum_replicate_nat, List.length_map, weight,
    Nat.sub_add_comm hdepth.le, Nat.pow_succ, Nat.mul_comm _ (s.files.size + 1)]
  exact Nat.mul_lt_mul_of_pos_right (Nat.lt_succ_of_le hcount) (Nat.pow_pos (Nat.succ_pos _))

theorem storage_bounded (hs : s.Plain) : h.storage.Bounded s (h.weight s) where
  pos := weight_pos
  extent := weight_le_extent
  below dir entries hl := by
    have hnolink : (entries.filter fun entry => answer (h.storage.isDir entry) s &&
        !answer (h.storage.isSymlink entry) s) = entries.filter (h.isDir · s) :=
      List.filter_congr fun entry _ => Bool.and_true _
    rw [hnolink]
    exact sum_weight_lt (fun k hk _ => hs k hk) hl

end Handle

end Memory

end CompileWatch
