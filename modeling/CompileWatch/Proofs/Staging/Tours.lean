import CompileWatch.Proofs.Staging.Copies

/-!
# Staging a directory

A staging run keeps a list of directories still to be entered. What it has not
come across lies below one of them, and no two of them have anything in common
(`Tour`). A directory that is entered hands the files below it to its entries,
which is the step of the loop (`Tour.enter`), and the weights of the directories
bound the number of steps (`copyTree_run`).

At the end the run has come across every file below the source, each of them once.
Their copies are all that it has written (`stage_copies_tree`).
-/

namespace CompileWatch.Memory

open CompileWatch.Path

variable {h : Handle} {s : Store} {source destination : Path}

/-- Where a staging run stands: the directories still to be entered, and the files come across. -/
structure Tour (h : Handle) (s : Store) (source : Path) (pending found : List Path) : Prop where
  separate : Sources.Separate h.place pending found
  dirs : ∀ dir ∈ pending, h.isDir dir s = true ∧ h.place dir = dir.components ∧
    source.components <+: dir.components
  files : ∀ file ∈ found, s.FileBelow source file
  complete : ∀ rest, s.Holds (source.components ++ rest) →
    ofComponents (source.components ++ rest) ∈ found ∨
      ∃ dir ∈ pending, Below dir.components (source.components ++ rest)

theorem parted_filter (keep : Path → Bool) : ∀ entries : List Path,
    Sources.Parted entries (entries.filter keep) (entries.filter (!keep ·))
  | [] => .nil
  | entry :: rest => by
      cases hkeep : keep entry with
      | true =>
          rw [List.filter_cons_of_pos hkeep, List.filter_cons_of_neg (by simp [hkeep])]
          exact .dir entry (parted_filter keep rest)
      | false =>
          rw [List.filter_cons_of_neg (by simp [hkeep]), List.filter_cons_of_pos (by simp [hkeep])]
          exact .file entry (parted_filter keep rest)

/-- The entries of a directory that is its own key, one for each name that a file below has. -/
theorem mem_list_iff {dir entry : Path} {entries : List Path}
    (hdir : h.place dir = dir.components) (hl : h.list dir s = .ok entries) :
    entry ∈ entries ↔ ∃ c rest, s.Holds (dir.components ++ c :: rest) ∧
      entry = ofComponents (dir.components ++ [c]) := by
  have hkey : h.key dir = ofComponents dir.components := by
    rw [key_of_settled (same_key_iff.1 (same_iff.2 hdir)), plain]
    refine congrArg ofComponents (List.filter_eq_self.2 fun c hc => decide_eq_true ?_)
    exact (same_key_iff.1 (same_iff.2 hdir) c hc).1
  rw [Handle.list_eq_ok hl, Handle.mem_children_key, hkey]
  rw [h.place_eq] at hdir
  constructor
  · rintro ⟨k, hk, c, rest, hrest, rfl⟩
    have hheld : s.Holds (dir.components ++ c :: rest) := ⟨k, hk, hrest.trans (by rw [← hdir]; rfl)⟩
    exact ⟨c, rest, hheld, join_child (hheld.spelled.of_prefix ⟨rest, by simp⟩)⟩
  · rintro ⟨c, rest, hheld, rfl⟩
    have hprefix : dir.components ++ [c] <+: dir.components ++ c :: rest := ⟨rest, by simp⟩
    have hjoined := join_child (hheld.spelled.of_prefix hprefix)
    obtain ⟨k, hk, hrest⟩ := hheld
    exact ⟨k, hk, c, rest, hrest.trans (by rw [← hdir]; rfl), hjoined.symm⟩

/-- On the way to a file of a tree, a path is a directory until it has come to the file. -/
theorem isDir_iff_of_holds (htree : s.IsTree) (path : Path) {way : List Component}
    (hheld : s.Holds (h.place path ++ way)) : h.isDir path s = true ↔ way ≠ [] := by
  rw [Handle.isDir_iff]
  constructor
  · rintro ⟨file, hfile, hbelow⟩ rfl
    rw [List.append_nil] at hheld
    exact htree _ _ hheld hfile hbelow
  · exact fun hway => ⟨_, hheld, below_iff.2 ⟨List.prefix_append _ _, by simpa using hway⟩⟩

theorem Clear.isDir_entry_iff (hc : Clear h s source destination) {cs way : List Component}
    {c : Component} (hcs : source.components <+: cs) (hheld : s.Holds (cs ++ c :: way)) :
    h.place (ofComponents (cs ++ [c])) = cs ++ [c] ∧
      (h.isDir (ofComponents (cs ++ [c])) s = true ↔ way ≠ []) := by
  obtain ⟨steps, rfl⟩ := hcs
  have hplace : h.place (ofComponents (source.components ++ steps ++ [c])) =
      source.components ++ steps ++ [c] := by
    rw [List.append_assoc] at hheld
    exact hc.place_of_prefix hheld ⟨way, by simp⟩
  refine ⟨hplace, isDir_iff_of_holds hc.tree _ ?_⟩
  rwa [hplace, ← List.append_cons]

namespace Tour

variable {dir : Path} {pending found entries : List Path}

theorem start (hc : Clear h s source destination) : Tour h s source [source] [] where
  separate := .single h.place source
  dirs := List.forall_mem_singleton.2 ⟨hc.isDir, hc.settled, List.prefix_refl _⟩
  files := List.forall_mem_nil _
  complete rest hheld := by
    have hway : rest ≠ [] := by
      rw [← isDir_iff_of_holds hc.tree source (hc.settled.symm ▸ hheld)]
      exact hc.isDir
    exact .inr ⟨source, List.mem_singleton_self source,
      below_iff.2 ⟨List.prefix_append _ _, by simpa using hway⟩⟩

section Enter

variable (ht : Tour h s source (dir :: pending) found) (hc : Clear h s source destination)
  (hl : h.list dir s = .ok entries)

include ht hc hl

theorem entry_below {entry : Path} (he : entry ∈ entries) : h.place entry = entry.components ∧
    source.components <+: entry.components ∧ ∃ c, entry.components = h.place dir ++ [c] := by
  obtain ⟨-, hdir, hbelow⟩ := ht.dirs dir List.mem_cons_self
  obtain ⟨c, rest, hheld, rfl⟩ := (mem_list_iff hdir hl).1 he
  have hentry := components_ofComponents (hheld.spelled.of_prefix ⟨rest, List.append_cons .. ▸ rfl⟩ :
    Spelled (dir.components ++ [c]))
  rw [hentry, hdir]
  exact ⟨(hc.isDir_entry_iff hbelow hheld).1, hbelow.trans (List.prefix_append _ _), c, rfl⟩

theorem file_of_entry {entry : Path} (he : entry ∈ entries) (hfile : h.isDir entry s = false) :
    s.FileBelow source entry := by
  obtain ⟨-, hdir, hbelow⟩ := ht.dirs dir List.mem_cons_self
  obtain ⟨c, rest, hheld, rfl⟩ := (mem_list_iff hdir hl).1 he
  obtain rfl : rest = [] := by
    by_contra hrest
    rw [(hc.isDir_entry_iff hbelow hheld).2.2 hrest] at hfile
    cases hfile
  obtain ⟨way, hway⟩ := hbelow
  rw [← hway, List.append_assoc] at hheld ⊢
  exact ⟨way ++ [c], hheld, rfl⟩

/-- A file below the directory is one of its entries, or it lies below one that is a directory. -/
theorem entry_toward {place : List Component} (hheld : s.Holds place)
    (hbelow : Below dir.components place) :
    ofComponents place ∈ entries.filter (!h.isDir · s) ∨
      ∃ entry ∈ entries.filter (h.isDir · s), Below entry.components place := by
  obtain ⟨-, hdir, hsource⟩ := ht.dirs dir List.mem_cons_self
  obtain ⟨c, way, rfl⟩ := hbelow
  have he := (mem_list_iff hdir hl).2 ⟨c, way, hheld, rfl⟩
  have hiff := (hc.isDir_entry_iff hsource hheld).2
  cases way with
  | nil => exact .inl (List.mem_filter.2 ⟨he, by simpa using hiff⟩)
  | cons d way =>
      refine .inr ⟨_, List.mem_filter.2 ⟨he, hiff.2 (List.cons_ne_nil d way)⟩, d, way, ?_⟩
      rw [components_ofComponents (hheld.spelled.of_prefix ⟨d :: way, by simp⟩), List.append_cons]

/-- A directory is replaced by what its entries are: directories to enter and files. -/
theorem enter :
    Tour h s source ((entries.filter (h.isDir · s)).reverse ++ pending)
      (found ++ entries.filter (!h.isDir · s)) where
  separate := ht.separate.expand (Handle.ascending_of_list hl)
    (fun _ he => ⟨(ht.entry_below hc hl he).1, (ht.entry_below hc hl he).2.2⟩) (parted_filter _ entries)
  dirs := by
    intro entry he
    rcases List.mem_append.1 he with he | he
    · obtain ⟨hmem, hdir⟩ := List.mem_filter.1 (List.mem_reverse.1 he)
      obtain ⟨hplace, hsource, -⟩ := ht.entry_below hc hl hmem
      exact ⟨hdir, hplace, hsource⟩
    · exact ht.dirs entry (List.mem_cons_of_mem dir he)
  files := by
    intro file hf
    rcases List.mem_append.1 hf with hf | hf
    · exact ht.files file hf
    · obtain ⟨hmem, hfile⟩ := List.mem_filter.1 hf
      exact ht.file_of_entry hc hl hmem (Bool.not_eq_true' _ ▸ hfile)
  complete := by
    intro rest hheld
    rcases ht.complete rest hheld with hf | ⟨d, hd, hbelow⟩
    · exact .inl (List.mem_append_left _ hf)
    rcases List.mem_cons.1 hd with rfl | hd
    · rcases ht.entry_toward hc hl hheld hbelow with hf | ⟨entry, he, hbelow⟩
      · exact .inl (List.mem_append_right _ hf)
      · exact .inr ⟨entry, List.mem_append_left _ (List.mem_reverse.2 he), hbelow⟩
    · exact .inr ⟨d, List.mem_append_right _ hd, hbelow⟩

end Enter

end Tour

theorem Clear.sum_weight_lt (hc : Clear h s source destination) {dir : Path} {entries : List Path}
    (hdir : source.components <+: h.place dir) (hl : h.list dir s = .ok entries) :
    ((entries.filter (h.isDir · s)).map (h.weight s)).sum < h.weight s dir :=
  Handle.sum_weight_lt (fun k hk hbelow hcurrent =>
    (same_key_iff.1 (hc.keyed k hk (hdir.trans hbelow)) _ hcurrent).1 rfl) hl

/-- A run whose fuel covers the weight of what is pending copies what is still to be come across. -/
theorem Clear.copyTree_run (hc : Clear h s source destination) : ∀ (fuel : Nat)
    {pending found : List Path}, Tour h s source pending found →
    (pending.map (h.weight s)).sum ≤ fuel →
    ∃ all, Tour h s source [] all ∧
      answer (Staging.copyTree h.storage source destination fuel pending
          (found.map (target source destination))) (copied h s source destination found) =
        .ok (all.map (target source destination)) ∧
      after (Staging.copyTree h.storage source destination fuel pending
          (found.map (target source destination))) (copied h s source destination found) =
        copied h s source destination all
  | fuel, [], found, ht, _ => by
      refine ⟨found, ht, ?_⟩
      cases fuel <;> exact ⟨rfl, rfl⟩
  | 0, dir :: pending, found, _, hsum => by
      have hpos := Handle.weight_pos (h := h) (s := s) dir
      rw [List.map_cons, List.sum_cons] at hsum
      omega
  | fuel + 1, dir :: pending, found, ht, hsum => by
      obtain ⟨hdir, hplace, hbelow⟩ := ht.dirs dir List.mem_cons_self
      obtain ⟨entries, hl⟩ := Handle.exists_list_iff_isDir.2 hdir
      have hlight := hc.sum_weight_lt (hplace.symm ▸ hbelow) hl
      have hlisted : answer (h.storage.list dir) (copied h s source destination found) =
          .ok entries := (hc.list_copied ht.files (hplace.symm ▸ hbelow)).trans hl
      have hkept : after (h.storage.list dir) (copied h s source destination found) =
          copied h s source destination found := rfl
      have hentries := hc.copyEntries_run entries pending ht.files fun entry he => by
        obtain ⟨hentry, hin, -⟩ := ht.entry_below hc hl he
        exact ⟨hentry.symm ▸ hin, ht.file_of_entry hc hl he⟩
      unfold Staging.copyTree
      rw [answer_bind, after_bind, hlisted, hkept]
      dsimp only
      rw [answer_bind, after_bind, hentries.1, hentries.2]
      refine copyTree_run hc fuel (ht.enter hc hl) ?_
      rw [List.map_append, List.sum_append, List.map_reverse, List.sum_reverse]
      rw [List.map_cons, List.sum_cons] at hsum
      omega

/-! ## The whole run -/

theorem Tour.mem_iff {all : List Path} (ht : Tour h s source [] all) {file : Path} :
    file ∈ all ↔ s.FileBelow source file := by
  refine ⟨ht.files file, ?_⟩
  rintro ⟨rest, hheld, rfl⟩
  rcases ht.complete rest hheld with hf | ⟨dir, hd, -⟩
  · exact hf
  · cases hd

theorem Tour.ascending_written (hc : Clear h s source destination) {all : List Path}
    (ht : Tour h s source [] all) :
    (sort (all.map (target source destination))).Pairwise (compare · · = .lt) := by
  refine ascending_sort (List.pairwise_map.2 (ht.separate.files.imp_of_mem ?_))
  intro file other hfile hother hne heq
  obtain ⟨rest, hheld, rfl⟩ := ht.files file hfile
  obtain ⟨rest', hheld', rfl⟩ := ht.files other hother
  rw [target_held hheld, target_held hheld', hc.components_target hheld,
    hc.components_target hheld'] at heq
  exact hne (congrArg (fun way => (ofComponents (source.components ++ way)).components)
    (List.append_cancel_left heq))

/-- Where there is a directory to copy, a run is what copying the tree below it is. -/
theorem stage_eq_of_isDir {w : World Store} {root dest : Path} {limit : Nat}
    (hdir : h.isDir source w.store = true) :
    answer (Staging.stage limit h.storage source root dest) w =
        (answer (Staging.copyTree h.storage source (root.join dest) limit [source] []) w.store).map
          (fun written => ⟨root.join dest, sort written⟩) ∧
      (after (Staging.stage limit h.storage source root dest) w).store =
        after (Staging.copyTree h.storage source (root.join dest) limit [source] []) w.store := by
  have hfound : answer (h.storage.contains source) w.store = true := by
    show (_ || h.isDir source w.store) = true
    rw [hdir, Bool.or_true]
  have hasked : answer (h.storage.isDir source) w.store = true := hdir
  have hlooked : ∀ action : StateM Store Bool, after action w.store = w.store →
      after (Exec.onStore action) w = w := by
    intro action hkept
    rw [Exec.after_onStore, hkept]
  unfold Staging.stage
  dsimp only
  rw [answer_bind, after_bind, Exec.answer_onStore, hfound, hlooked _ rfl, if_neg (by decide),
    answer_bind, after_bind, Exec.answer_onStore, hasked, hlooked _ rfl, if_neg (by decide),
    answer_bind, after_bind, Exec.answer_onStore, Exec.after_onStore]
  cases answer (Staging.copyTree h.storage source (root.join dest) limit [source] []) w.store with
  | error e => exact ⟨rfl, rfl⟩
  | ok written => exact ⟨rfl, rfl⟩

theorem stage_of_isDir {w : World Store} {root dest : Path} {limit : Nat}
    (hdir : h.isDir source w.store = true) {written : List Path}
    (hwritten : answer (Staging.copyTree h.storage source (root.join dest) limit [source] [])
      w.store = .ok written) :
    answer (Staging.stage limit h.storage source root dest) w =
        .ok ⟨root.join dest, sort written⟩ ∧
      (after (Staging.stage limit h.storage source root dest) w).store =
        after (Staging.copyTree h.storage source (root.join dest) limit [source] []) w.store := by
  refine ⟨?_, (stage_eq_of_isDir hdir).2⟩
  rw [(stage_eq_of_isDir hdir).1, hwritten]
  rfl

/-- A directory that is clear of its destination is copied there with all that lies below, if each
file below is where the handle looks for it, as in a store that was filled through the handle. The
run ends, and it reports in ascending order what it has written: one copy for each file below the
directory, at the same place below the destination, with the text that the file had. No other file
changes. The run comes to its end below any limit that covers the extent of the store. -/
theorem stage_copies_tree {w : World Store} {source root dest : Path}
    (hc : Clear h w.store source (root.join dest)) {limit : Nat}
    (hlimit : h.storage.extent w.store ≤ limit) :
    let destination := root.join dest
    let run := Staging.stage limit h.storage source root dest
    ∃ written, answer run w = .ok ⟨destination, written⟩ ∧
      written.Pairwise (compare · · = .lt) ∧
      (∀ path, path ∈ written ↔ ∃ rest, w.store.Holds (source.components ++ rest) ∧
        path = destination.join (ofComponents rest)) ∧
      (∀ rest, w.store.Holds (source.components ++ rest) → ∃ text,
        h.read (source.join (ofComponents rest)) w.store = .ok text ∧
          h.read (destination.join (ofComponents rest)) (after run w).store = .ok text) ∧
      ∀ path, (∀ copy ∈ written, h.place path ≠ h.place copy) →
        h.read path (after run w).store = h.read path w.store := by
  intro destination run
  obtain ⟨all, ht, hanswer, hafter⟩ := hc.copyTree_run limit (Tour.start hc) (by
    rw [List.map_singleton, List.sum_singleton]
    exact (Handle.weight_le_extent source).trans hlimit)
  obtain ⟨hanswer, hstore⟩ := stage_of_isDir hc.isDir hanswer
  have hcopied : (after run w).store = copied h w.store source destination all :=
    hstore.trans hafter
  have hmem : ∀ path, path ∈ sort (all.map (target source destination)) ↔
      ∃ rest, w.store.Holds (source.components ++ rest) ∧
        path = destination.join (ofComponents rest) := by
    intro path
    rw [mem_sort, List.mem_map]
    constructor
    · rintro ⟨file, hfile, rfl⟩
      obtain ⟨rest, hheld, rfl⟩ := ht.files file hfile
      exact ⟨rest, hheld, target_held hheld⟩
    · rintro ⟨rest, hheld, rfl⟩
      exact ⟨_, ht.mem_iff.2 ⟨rest, hheld, rfl⟩, target_held hheld⟩
  refine ⟨_, hanswer, ht.ascending_written hc, hmem, fun rest hheld => ?_, fun path hpath => ?_⟩
  · obtain ⟨text, hread, htext⟩ := hc.read_held hheld
    refine ⟨text, ?_, ?_⟩
    · have hsame : h.normal (source.join (ofComponents rest)) =
          h.normal (ofComponents (source.components ++ rest)) := by
        unfold Handle.normal
        rw [components_join_steps (hc.isStep_held hheld), hheld.components]
      rw [read_eq_ok_iff, Handle.file?_congr hsame]
      exact htext
    · rw [hcopied, read_eq_ok_iff]
      exact (hc.text?_target ht.files hheld (ht.mem_iff.2 ⟨rest, hheld, rfl⟩)).trans htext
  · rw [hcopied]
    refine (answers_congr ((hc.added ht.files).find?_eq ?_)).1
    rintro _ ⟨rest, hheld, rfl⟩
    rw [← hc.place_target hheld]
    exact hpath _ ((hmem _).2 ⟨rest, hheld, rfl⟩)

/-- A directory with a directory in it, a file that is to be replaced and one that is to be left. -/
def site : World Store :=
  ⟨exact.withFiles [(⟨"/site/page"⟩, "new"), (⟨"/site/./img/logo"⟩, "logo"),
    (⟨"/out/page"⟩, "old"), (⟨"/out/kept"⟩, "kept")], []⟩

theorem stage_copies_tree_site :
    Clear exact site.store ⟨"/site"⟩ (Path.join ⟨"/"⟩ ⟨"out"⟩) ∧
      exact.storage.extent site.store ≤ 10000 ∧
      answer (Staging.stage 10000 exact.storage ⟨"/site"⟩ ⟨"/"⟩ ⟨"out"⟩) site =
        .ok ⟨⟨"/out"⟩, [⟨"/out/img/logo"⟩, ⟨"/out/page"⟩]⟩ ∧
      exact.read ⟨"/out/kept"⟩
        (after (Staging.stage 10000 exact.storage ⟨"/site"⟩ ⟨"/"⟩ ⟨"out"⟩) site).store =
          .ok "kept" := by
  have hc : Clear exact site.store ⟨"/site"⟩ (Path.join ⟨"/"⟩ ⟨"out"⟩) := by decide +kernel
  have hlimit : exact.storage.extent site.store ≤ 10000 := by decide +kernel
  obtain ⟨written, hanswer, -, -, -, hother⟩ := stage_copies_tree hc hlimit
  have hrun : answer (Staging.stage 10000 exact.storage ⟨"/site"⟩ ⟨"/"⟩ ⟨"out"⟩) site =
      .ok ⟨⟨"/out"⟩, [⟨"/out/img/logo"⟩, ⟨"/out/page"⟩]⟩ := by decide +kernel
  have hwritten : written = [⟨"/out/img/logo"⟩, ⟨"/out/page"⟩] :=
    (StageResult.mk.inj (Except.ok.inj (hanswer.symm.trans hrun))).2
  have hkept : exact.read ⟨"/out/kept"⟩ site.store = .ok "kept" := by decide +kernel
  have hapart : ∀ copy ∈ written, exact.place ⟨"/out/kept"⟩ ≠ exact.place copy := by
    rw [hwritten]
    decide +kernel
  exact ⟨hc, hlimit, hrun, (hother _ hapart).trans hkept⟩

/-- A file with a capital in its name, in a store where letter case does not count any more. -/
def capital : World Store := ⟨exact.withFiles [(⟨"/p/B.txt"⟩, "x")], []⟩

/-- All is clear but that the file is not where it is looked for. It is listed, and cannot be read. -/
theorem capital_not_staged :
    capital.store.IsTree ∧ folding.place ⟨"/p"⟩ = (⟨"/p"⟩ : Path).components ∧
      folding.isDir ⟨"/p"⟩ capital.store = true ∧
      (¬ folding.place ⟨"/p"⟩ <+: folding.place ⟨"/out"⟩ ∧
        ¬ folding.place ⟨"/out"⟩ <+: folding.place ⟨"/p"⟩) ∧
      (∀ k ∈ capital.store.files.keys, k = ⟨"/p/B.txt"⟩ ∧
        ¬ Below k.components (folding.place ⟨"/out/B.txt"⟩)) ∧
      folding.isDir ⟨"/out/B.txt"⟩ capital.store = false ∧
      answer (Staging.stage 10000 folding.storage ⟨"/p"⟩ ⟨"/"⟩ ⟨"out"⟩) capital =
        .error (.cannotRead ⟨"/p/B.txt"⟩ (.notFound ⟨"/p/B.txt"⟩)) := by
  refine ⟨Store.isTree_iff.2 (by decide +kernel), ?_⟩
  decide +kernel

end CompileWatch.Memory
