import CompileWatch.Proofs.Storage.Contents

/-!
# Sources in strictly ascending order

A search goes through directories in some order of its own and sorts what it has
found, so that the sources are in path order is plain. That no source is found
twice is not: it rests on where the pending directories are. None of them lies
within another, and nothing that was found lies within any (`Separate`), since
the entries of a directory lie one step below it and differ from each other.

A path need not say where it lies. A storage may fold letter case or leave out
inner dots, so what is asked of a storage (`Storage.Lists`) is a place for every
path, and that the entries it lists are spelled as their places are.
-/

namespace CompileWatch

variable {σ : Type}

/-- A storage that lists the entries of a directory in strictly ascending order, each one step below
the place of the directory and spelled as its own place, as long as its states keep to `I`. -/
structure Storage.Lists (storage : Storage σ) (I : σ → Prop) (place : Path → List Component) :
    Prop where
  looks : storage.Looks I
  ascending : ∀ dir s entries, I s → answer (storage.list dir) s = .ok entries →
    entries.Pairwise (compare · · = .lt)
  below : ∀ dir s entries, I s → answer (storage.list dir) s = .ok entries → ∀ entry ∈ entries,
    place entry = entry.components ∧ ∃ c, entry.components = place dir ++ [c]

/-- What a storage lists in all its states, it lists in one. -/
theorem Storage.Lists.still {storage : Storage σ} {I : σ → Prop} {place : Path → List Component}
    (h : storage.Lists I place) (hlooks : ∀ s, storage.Looks (· = s)) {s : σ} (hs : I s) :
    storage.Lists (· = s) place where
  looks := hlooks s
  ascending dir t entries ht := h.ascending dir t entries (ht ▸ hs)
  below dir t entries ht := h.below dir t entries (ht ▸ hs)

/-! ## Lists without repetitions -/

section Repetitions

variable {α : Type} (r : α → α → Bool)

theorem sublist_eraseDupsBy (l : List α) : (l.eraseDupsBy r).Sublist l := by
  match l with
  | [] => exact .slnil
  | a :: rest =>
      have : (rest.filter fun b => !r b a).length < rest.length + 1 :=
        Nat.lt_add_one_of_le (List.length_filter_le _ rest)
      rw [List.eraseDupsBy_cons]
      exact ((sublist_eraseDupsBy _).trans List.filter_sublist).cons_cons a
termination_by l.length

theorem pairwise_eraseDupsBy (l : List α) :
    (l.eraseDupsBy r).Pairwise fun a b => r b a = false := by
  match l with
  | [] => exact .nil
  | a :: rest =>
      have : (rest.filter fun b => !r b a).length < rest.length + 1 :=
        Nat.lt_add_one_of_le (List.length_filter_le _ rest)
      rw [List.eraseDupsBy_cons, List.pairwise_cons]
      refine ⟨fun b hb => ?_, pairwise_eraseDupsBy _⟩
      exact of_decide_eq_true (List.mem_filter.1 ((sublist_eraseDupsBy r _).subset hb)).2
termination_by l.length

variable {r}

theorem eraseDupsBy_eq_self {l : List α} (h : l.Pairwise fun a b => r b a = false) :
    l.eraseDupsBy r = l := by
  induction l with
  | nil => rfl
  | cons a rest ih =>
      rw [List.pairwise_cons] at h
      have hall : rest.filter (fun b => r b a = false) = rest :=
        List.filter_eq_self.2 fun b hb => decide_eq_true (h.1 b hb)
      rw [List.eraseDupsBy_cons, hall, ih h.2]

end Repetitions

namespace Path

theorem compare_append (above : List Component) (file other : List Component) :
    compare (above ++ file) (above ++ other) = compare file other := by
  induction above with
  | nil => rfl
  | cons c rest ih =>
      have hself : compare c c = .eq := Std.ReflCmp.compare_self
      show List.compareLex compare (c :: (rest ++ file)) (c :: (rest ++ other)) = _
      rw [List.compareLex_cons_cons, hself]
      exact ih

theorem perm_insertSorted (k : Key) : ∀ keys : List Key, (insertSorted k keys).Perm (k :: keys)
  | [] => .refl _
  | l :: rest => by
      unfold insertSorted
      split
      · exact ((perm_insertSorted k rest).cons l).trans (.swap k l rest)
      · exact .refl _

theorem perm_sort (paths : List Path) : (sort paths).Perm paths := by
  induction paths with
  | nil => exact .refl _
  | cons p rest ih =>
      have hcons : sort (p :: rest) = (insertSorted (.of p) (sortedKeys rest)).map Key.path := rfl
      rw [hcons]
      exact ((perm_insertSorted (.of p) (sortedKeys rest)).map Key.path).trans (ih.cons p)

theorem ascending_sort {paths : List Path}
    (h : paths.Pairwise fun p q => p.components ≠ q.components) :
    (sort paths).Pairwise (compare · · = .lt) := by
  have hdistinct := ((perm_sort paths).pairwise_iff (R := fun p q => p.components ≠ q.components)
    fun hpq => hpq.symm).2 h
  refine ((pairwise_sort paths).and hdistinct).imp fun {p q} hpq => ?_
  cases hc : compare p q with
  | lt => rfl
  | eq => exact absurd (compare_eq_iff.1 hc) hpq.2
  | gt => exact absurd hc hpq.1

theorem distinct_of_ascending {paths : List Path}
    (h : paths.Pairwise (compare · · = .lt)) :
    paths.Pairwise fun p q => p.components ≠ q.components :=
  h.imp fun {p q} hlt heq => by
    rw [compare_eq_iff.2 heq] at hlt
    cases hlt

theorem same_eq_false_of_lt {p q : Path} (h : compare p q = .lt) : q.same p = false := by
  rw [Bool.eq_false_iff]
  intro hs
  rw [compare_eq_iff.2 (same_iff.1 hs).symm] at h
  cases h

/-- Sorted paths are strictly ascending once repetitions are left out. -/
theorem ascending_eraseDupsBy {paths : List Path} (h : paths.Pairwise (compare · · ≠ .gt)) :
    (paths.eraseDupsBy same).Pairwise (compare · · = .lt) := by
  refine ((h.sublist (sublist_eraseDupsBy same paths)).and (pairwise_eraseDupsBy same paths)).imp
    fun {p q} hpq => ?_
  cases hc : compare p q with
  | lt => rfl
  | eq =>
      have hs : q.same p = true := same_iff.2 (compare_eq_iff.1 hc).symm
      exact absurd hs (Bool.eq_false_iff.1 hpq.2)
  | gt => exact absurd hc hpq.1

/-- Of some paths, those that are met for the first time. -/
theorem eraseDupsBy_filter_cons (seen : Path → Bool) (p : Path) (rest : List Path) :
    ((p :: rest).filter fun f => !seen f).eraseDupsBy same =
      if seen p then (rest.filter fun f => !seen f).eraseDupsBy same
      else p :: (rest.filter fun f => !(p.same f || seen f)).eraseDupsBy same := by
  cases hp : seen p with
  | true => rw [List.filter_cons_of_neg (by simp [hp]), if_pos rfl]
  | false =>
      have hrest : ∀ f ∈ rest,
          (decide (f.same p = false) && !seen f) = !(p.same f || seen f) := by
        intro f _
        rw [same_comm p f]
        cases f.same p <;> rfl
      rw [List.filter_cons_of_pos (by simp [hp]), if_neg Bool.false_ne_true,
        List.eraseDupsBy_cons, List.filter_filter, List.filter_congr hrest]

theorem eraseDupsBy_of_ascending {paths : List Path} (h : paths.Pairwise (compare · · = .lt)) :
    paths.eraseDupsBy same = paths :=
  eraseDupsBy_eq_self (h.imp same_eq_false_of_lt)

end Path

namespace Sources

open CompileWatch.Path

/-! ## Sorting entries -/

/-- Some entries become directories to search, some become sources, and the rest is left out. -/
inductive Parted : List Path → List Path → List Path → Prop
  | nil : Parted [] [] []
  | dir {entries dirs files} (entry) : Parted entries dirs files →
      Parted (entry :: entries) (entry :: dirs) files
  | file {entries dirs files} (entry) : Parted entries dirs files →
      Parted (entry :: entries) dirs (entry :: files)
  | left {entries dirs files} (entry) : Parted entries dirs files →
      Parted (entry :: entries) dirs files

theorem answer_classify_cons (storage : Storage σ) (query : Query) (entry : Path)
    (rest : List Path) (s : σ) :
    answer (classify storage query (entry :: rest)) s =
      if answer (storage.isDir entry) s then
        let looked := after (storage.isDir entry) s
        let found := answer (classify storage query rest) (after (storage.isSymlink entry) looked)
        if !answer (storage.isSymlink entry) looked && query.enters entry
        then (entry :: found.1, found.2) else found
      else
        let found := answer (classify storage query rest) (after (storage.isDir entry) s)
        if query.wants entry then (found.1, entry :: found.2) else found := by
  rw [classify, answer_bind]
  cases answer (storage.isDir entry) s with
  | true => rfl
  | false => rfl

theorem parted_classify (storage : Storage σ) (query : Query) : ∀ (entries : List Path) (s : σ),
    Parted entries (answer (classify storage query entries) s).1
      (answer (classify storage query entries) s).2
  | [], _ => .nil
  | entry :: rest, s => by
      rw [answer_classify_cons]
      split
      · have hrest := parted_classify storage query rest
          (after (storage.isSymlink entry) (after (storage.isDir entry) s))
        dsimp only
        split
        · exact .dir entry hrest
        · exact .left entry hrest
      · have hrest := parted_classify storage query rest (after (storage.isDir entry) s)
        dsimp only
        split
        · exact .file entry hrest
        · exact .left entry hrest

namespace Parted

variable {entries dirs files : List Path}

theorem dirs_sublist (h : Parted entries dirs files) : dirs.Sublist entries := by
  induction h with
  | nil => exact .slnil
  | dir entry _ ih => exact ih.cons_cons entry
  | file entry _ ih => exact ih.cons entry
  | left entry _ ih => exact ih.cons entry

theorem files_sublist (h : Parted entries dirs files) : files.Sublist entries := by
  induction h with
  | nil => exact .slnil
  | dir entry _ ih => exact ih.cons entry
  | file entry _ ih => exact ih.cons_cons entry
  | left entry _ ih => exact ih.cons entry

theorem apart (h : Parted entries dirs files)
    (hd : entries.Pairwise fun d e => d.components ≠ e.components) :
    ∀ d ∈ dirs, ∀ f ∈ files, d.components ≠ f.components := by
  induction h with
  | nil => simp
  | dir entry h ih =>
      rw [List.pairwise_cons] at hd
      intro d hmem f hf
      rcases List.mem_cons.1 hmem with rfl | hmem
      · exact hd.1 f (h.files_sublist.subset hf)
      · exact ih hd.2 d hmem f hf
  | file entry h ih =>
      rw [List.pairwise_cons] at hd
      intro d hmem f hf
      rcases List.mem_cons.1 hf with rfl | hf
      · exact (hd.1 d (h.dirs_sublist.subset hmem)).symm
      · exact ih hd.2 d hmem f hf
  | left entry _ ih => exact ih (List.pairwise_cons.1 hd).2

end Parted

/-! ## What is pending and what is found -/

/-- No pending directory lies within another, and nothing found lies within a pending one or was
found twice. -/
structure Separate (place : Path → List Component) (pending found : List Path) : Prop where
  dirs : pending.Pairwise fun d e => ¬ place d <+: place e ∧ ¬ place e <+: place d
  files : found.Pairwise fun f g => f.components ≠ g.components
  apart : ∀ d ∈ pending, ∀ f ∈ found, ¬ place d <+: f.components

namespace Separate

variable {place : Path → List Component} {dir : Path} {pending found : List Path}

theorem single (place : Path → List Component) (dir : Path) : Separate place [dir] [] :=
  ⟨List.pairwise_singleton _ _, .nil, fun _ _ _ hf => by cases hf⟩

section

variable (h : Separate place (dir :: pending) found)

include h

theorem drop : Separate place pending found where
  dirs := (List.pairwise_cons.1 h.dirs).2
  files := h.files
  apart d hd := h.apart d (List.mem_cons_of_mem _ hd)

theorem not_below {d : Path} (hd : d ∈ pending) (c : Component) :
    ¬ place dir ++ [c] <+: place d ∧ ¬ place d <+: place dir ++ [c] := by
  obtain ⟨hdown, hup⟩ := (List.pairwise_cons.1 h.dirs).1 d hd
  refine ⟨fun hp => hdown ((List.prefix_append _ _).trans hp), fun hp => ?_⟩
  rcases List.prefix_concat_iff.1 hp with heq | hp
  · exact hdown (heq ▸ List.prefix_append _ _)
  · exact hup hp

theorem not_above_found {f : Path} (hf : f ∈ found) (c : Component) :
    ¬ place dir ++ [c] <+: f.components :=
  fun hp => h.apart dir List.mem_cons_self f hf ((List.prefix_append _ _).trans hp)

/-- A directory is replaced by directories one step below it, and files that are found there. -/
theorem replace {dirs files : List Path} (hdirs : ∀ d ∈ dirs, ∃ c, place d = place dir ++ [c])
    (hfiles : ∀ f ∈ files, ∃ c, f.components = place dir ++ [c])
    (hd : dirs.Pairwise fun d e => place d ≠ place e)
    (hf : files.Pairwise fun f g => f.components ≠ g.components)
    (hdf : ∀ d ∈ dirs, ∀ f ∈ files, place d ≠ f.components) :
    Separate place (dirs.reverse ++ pending) (found ++ files) := by
  -- one step below a place lies nothing else that is one step below it
  have hlevel : ∀ {d f : List Component} {c e : Component}, d = place dir ++ [c] →
      f = place dir ++ [e] → d ≠ f → ¬ d <+: f := by
    intro d f c e hd hf hne hp
    exact hne (hp.eq_of_length (by rw [hd, hf, List.length_append, List.length_append]; rfl))
  refine ⟨List.pairwise_append.2 ⟨?_, (List.pairwise_cons.1 h.dirs).2, ?_⟩,
    List.pairwise_append.2 ⟨h.files, hf, ?_⟩, ?_⟩
  · refine List.pairwise_reverse.2 (hd.imp_of_mem fun {d e} hd he hne => ?_)
    obtain ⟨c, hc⟩ := hdirs d hd
    obtain ⟨b, hb⟩ := hdirs e he
    exact ⟨hlevel hb hc hne.symm, hlevel hc hb hne⟩
  · intro d hd e he
    obtain ⟨c, hc⟩ := hdirs d (List.mem_reverse.1 hd)
    rw [hc]
    exact h.not_below he c
  · intro f hf g hg heq
    obtain ⟨c, hc⟩ := hfiles g hg
    exact h.not_above_found hf c (heq ▸ hc ▸ List.prefix_refl _)
  · intro d hd f hf
    rcases List.mem_append.1 hd with hd | hd
    · have hd := List.mem_reverse.1 hd
      obtain ⟨c, hc⟩ := hdirs d hd
      rcases List.mem_append.1 hf with hf | hf
      · rw [hc]
        exact h.not_above_found hf c
      · obtain ⟨b, hb⟩ := hfiles f hf
        exact hlevel hc hb (hdf d hd f hf)
    · rcases List.mem_append.1 hf with hf | hf
      · exact h.apart d (List.mem_cons_of_mem _ hd) f hf
      · obtain ⟨b, hb⟩ := hfiles f hf
        rw [hb]
        exact (h.not_below hd b).2

/-- A directory is replaced by those of its entries that are directories. -/
theorem expand {entries dirs files : List Path} (hascending : entries.Pairwise (compare · · = .lt))
    (hbelow : ∀ entry ∈ entries,
      place entry = entry.components ∧ ∃ c, entry.components = place dir ++ [c])
    (hparted : Parted entries dirs files) :
    Separate place (dirs.reverse ++ pending) (found ++ files) := by
  have hdistinct := distinct_of_ascending hascending
  have hspelled : ∀ d ∈ dirs, place d = d.components :=
    fun d hd => (hbelow d (hparted.dirs_sublist.subset hd)).1
  refine h.replace (fun d hd => ?_) (fun f hf => (hbelow f (hparted.files_sublist.subset hf)).2) ?_
    (hdistinct.sublist hparted.files_sublist) fun d hd f hf => ?_
  · rw [hspelled d hd]
    exact (hbelow d (hparted.dirs_sublist.subset hd)).2
  · refine (hdistinct.sublist hparted.dirs_sublist).imp_of_mem fun {d e} hd he hne => ?_
    rwa [hspelled d hd, hspelled e he]
  · rw [hspelled d hd]
    exact hparted.apart hdistinct d hd f hf

end

end Separate

section Listed

variable {storage : Storage σ} {P : Path → Prop}
  (hlist : ∀ dir s entries, answer (storage.list dir) s = .ok entries → ∀ entry ∈ entries, P entry)

include hlist

/-- All that a search finds was listed. -/
theorem of_mem_search (query : Query) : ∀ (fuel : Nat) (pending found : List Path) (w : World σ),
    (∀ f ∈ found, P f) → ∀ f ∈ answer (search storage query fuel pending found) w, P f
  | 0, _, _, _, hfound => hfound
  | _ + 1, [], _, _, hfound => hfound
  | fuel + 1, dir :: pending, found, w, hfound => by
      unfold search
      rw [answer_bind, Exec.answer_onStore, Exec.after_onStore]
      cases ha : answer (storage.list dir) w.store with
      | error e => exact of_mem_search query fuel pending found _ hfound
      | ok entries =>
          refine of_mem_search query fuel _ _ _ fun f hf => ?_
          rcases List.mem_append.1 hf with hf | hf
          · exact hfound f hf
          · exact hlist dir _ entries ha f ((parted_classify storage query entries _).files_sublist.subset hf)

theorem of_mem_collect {root : Path} {extension : String} {outDir : Option Path} {w : World σ}
    {f : Path} (hf : f ∈ answer (collect storage root extension outDir) w) : P f := by
  have hfound : f ∈ answer (search storage ⟨extension, outDir.map root.join⟩
      (storage.extent w.store) [root] []) w := (perm_sort _).subset hf
  exact of_mem_search hlist _ _ _ _ w (by simp) f hfound

end Listed

section Lists

variable {storage : Storage σ} {I : σ → Prop} {place : Path → List Component}
  (h : storage.Lists I place)

include h

theorem distinct_search (query : Query) : ∀ (fuel : Nat) (pending found : List Path) (w : World σ),
    I w.store → Separate place pending found →
      (answer (search storage query fuel pending found) w).Pairwise fun f g =>
        f.components ≠ g.components
  | 0, _, _, _, _, hsep => hsep.files
  | _ + 1, [], _, _, _, hsep => hsep.files
  | fuel + 1, dir :: pending, found, w, hw, hsep => by
      have hlisted : I (after (storage.list dir) w.store) := h.looks.list dir _ hw
      unfold search
      rw [answer_bind, Exec.answer_onStore, Exec.after_onStore]
      cases ha : answer (storage.list dir) w.store with
      | error e => exact distinct_search query fuel pending found _ hlisted hsep.drop
      | ok entries =>
          refine distinct_search query fuel _ _ _ (keeps_classify h.looks query entries _ hlisted) ?_
          exact hsep.expand (h.ascending dir _ entries hw ha) (h.below dir _ entries hw ha)
            (parted_classify storage query entries _)

theorem ascending_collect (root : Path) (extension : String) (outDir : Option Path) (w : World σ)
    (hw : I w.store) :
    (answer (collect storage root extension outDir) w).Pairwise (compare · · = .lt) :=
  ascending_sort (distinct_search h _ _ [root] [] w hw (.single place root))

end Lists

end Sources

/-! ## Storages around others -/

/-- What is listed through a storage that may fail is listed by the one inside. -/
theorem Rehearsed.answer_list {inside : Storage σ} {dir : Path} {r : Rehearsed σ}
    {entries : List Path} (h : answer ((storage inside).list dir) r = .ok entries) :
    answer (inside.list dir) r.inner = .ok entries := by
  change answer (guarded .list dir (inside.list dir)) r = .ok entries at h
  rcases guarded_cases .list dir (inside.list dir) r with ⟨⟨e, he⟩, _⟩ | ⟨ha, _⟩
  · rw [he] at h
    cases h
  · exact ha ▸ h

section Lists

variable {inside : Storage σ} {I : σ → Prop} {place : Path → List Component}
  (h : inside.Lists I place)

include h

theorem Rehearsed.storage_lists : (storage inside).Lists (fun r => I r.inner) place where
  looks := looks_inner h.looks
  ascending dir r entries hr ha := h.ascending dir r.inner entries hr (answer_list ha)
  below dir r entries hr ha := h.below dir r.inner entries hr (answer_list ha)

theorem Ledger.storage_lists : (storage inside).Lists (fun l => I l.inner) place where
  looks := looks_inner h.looks
  ascending dir l := h.ascending dir l.inner
  below dir l := h.below dir l.inner

end Lists

end CompileWatch
