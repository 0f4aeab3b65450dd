import CompileWatch.Proofs.Sources.Search
import CompileWatch.Proofs.Storage.Named

/-!
# Searching directories on disk

A directory lists the names of its entries, and since the names differ from each
other and each could stand in a path (`Node.isNamed`), the entries are in path
order and each is one step below its directory (`storage_lists`).

A link may lead back to a directory that it is in, so a tree that is followed
through its links has no bottom. A search does not follow them: each directory it
goes to is a node below the one it was listed in, and counting nodes therefore
bounds the search (`storage_bounded`).
-/

namespace CompileWatch.Disk

open CompileWatch.Path

/-! ## Entries -/

theorem list_eq_ok {t : Tree} {path : Path} {entries : List Path} (h : list t path = .ok entries) :
    ∃ nodes above, locate t path = .ok ⟨.directory nodes, above⟩ ∧
      entries = (sort (((nodes.map (·.1)).filter isSpelled).map Path.mk)).map path.join := by
  unfold list at h
  split at h
  · next nodes above hl =>
    cases h
    exact ⟨nodes, above, hl, rfl⟩
  · cases h
  · cases h

theorem mem_list {path entry : Path} {names : List String}
    (h : entry ∈ (sort ((names.filter isSpelled).map Path.mk)).map path.join) :
    ∃ name ∈ names, isSpelled name = true ∧ entry = path.join ⟨name⟩ := by
  obtain ⟨last, hlast, rfl⟩ := List.mem_map.1 h
  obtain ⟨name, hname, rfl⟩ := List.mem_map.1 (mem_sort.1 hlast)
  obtain ⟨hmem, hspelled⟩ := List.mem_filter.1 hname
  exact ⟨name, hmem, hspelled, rfl⟩

theorem ascending_names {names : List String} (h : fitting names = true) (path : Path) :
    ((sort ((names.filter isSpelled).map Path.mk)).map path.join).Pairwise (compare · · = .lt) := by
  have hchild : ∀ last ∈ sort ((names.filter isSpelled).map Path.mk), ∃ name,
      last = ⟨name⟩ ∧ (Component.name name).isStep = true := by
    intro last hlast
    obtain ⟨name, hname, rfl⟩ := List.mem_map.1 (mem_sort.1 hlast)
    obtain ⟨hmem, hspelled⟩ := List.mem_filter.1 hname
    exact ⟨name, rfl, (fitting_iff.1 h).2 name hmem hspelled⟩
  refine List.pairwise_map.2 ((ascending_sort ?_).imp_of_mem ?_)
  · have hstep := fun {name} hm => (hchild ⟨name⟩ (mem_sort.2 (List.mem_map.2 ⟨name, hm, rfl⟩)))
    refine List.pairwise_map.2 (((fitting_iff.1 h).1.filter isSpelled).imp_of_mem
      fun {n m} hn hm hne heq => ?_)
    obtain ⟨_, hn', hn⟩ := hstep hn
    obtain ⟨_, hm', hm⟩ := hstep hm
    cases hn'
    cases hm'
    rw [components_name hn, components_name hm] at heq
    exact hne (Component.name.inj (List.cons.inj heq).1)
  · intro p q hp hq hlt
    obtain ⟨n, rfl, hn⟩ := hchild p hp
    obtain ⟨m, rfl, hm⟩ := hchild q hq
    rw [Path.compare_def, components_name hn, components_name hm] at hlt
    rw [Path.compare_def, components_join_name path hn, components_join_name path hm, compare_append]
    exact hlt

theorem fitting_of_locate {t : Tree} (h : t.root.isNamed = true) {path : Path} {nodes : Entries}
    {above : List (String × Node)} (hl : locate t path = .ok ⟨.directory nodes, above⟩) :
    fitting (nodes.map (·.1)) = true :=
  (isNamed_directory_iff.1 (isNamed_locate h hl).1).1

theorem looks_storage (P : Tree → Prop) : storage.Looks P :=
  ⟨fun _ _ h => h, fun _ _ h => h, fun _ _ h => h, fun _ _ h => h, fun _ _ h => h⟩

theorem storage_lists : storage.Lists (fun t => t.root.isNamed = true) (·.components) where
  looks := looks_storage _
  ascending dir t entries h hl := by
    obtain ⟨nodes, above, hlocate, rfl⟩ := list_eq_ok (show list t dir = .ok entries from hl)
    exact ascending_names (fitting_of_locate h hlocate) dir
  below dir t entries h hl entry he := by
    obtain ⟨nodes, above, hlocate, rfl⟩ := list_eq_ok (show list t dir = .ok entries from hl)
    obtain ⟨name, hm, hs, rfl⟩ := mem_list he
    have hstep := (fitting_iff.1 (fitting_of_locate h hlocate)).2 name hm hs
    exact ⟨rfl, .name name, components_join_name dir hstep⟩

/-! ## Sizes -/

theorem Node.size_pos (n : Node) : 0 < n.size := by
  cases n <;> simp [size]

/-- The nodes under different names have no more nodes than all entries have. -/
theorem sum_size_le {names : List String} (hnames : names.Nodup) : ∀ nodes : Entries,
    (names.map fun name => ((nodes.lookup name).map Node.size).getD 0).sum ≤ Node.totalSize nodes
  | [] => by simp [Node.totalSize]
  | (key, node) :: rest => by
      have hrest := sum_size_le hnames rest
      have hkey := sum_ite_le (· = key) node.size (hnames.imp fun {a b} hne ha hb =>
        hne (ha.trans hb.symm))
      have hstep : ∀ name ∈ names, ((List.lookup name ((key, node) :: rest)).map Node.size).getD 0 ≤
          (if name = key then node.size else 0) + ((rest.lookup name).map Node.size).getD 0 := by
        intro name _
        rw [lookup_cons]
        split <;> simp
      refine (List.sum_le_sum hstep).trans ?_
      rw [List.sum_map_add, Node.totalSize]
      omega

theorem Node.size_le_of_lookup {name : String} {child : Node} :
    ∀ {nodes : Entries}, nodes.lookup name = some child → child.size ≤ totalSize nodes
  | (key, node) :: rest, h => by
      rw [lookup_cons] at h
      rw [totalSize]
      split at h
      · cases h
        omega
      · have := size_le_of_lookup h
        omega

theorem Node.size_child_le {n child : Node} {name : String} (h : n.child? name = some child) :
    child.size ≤ n.size := by
  cases n with
  | directory entries => exact (size_le_of_lookup h).trans (Nat.le_succ _)
  | file _ _ => cases h
  | link _ => cases h

/-- The weight of a directory on disk: the number of nodes that it is made of. -/
def weight (t : Tree) (dir : Path) : Nat :=
  match locate t dir with
  | .ok spot => spot.here.size
  | .error _ => 1

theorem weight_le_extent (t : Tree) (dir : Path) : weight t dir ≤ storage.extent t := by
  show _ ≤ t.root.size
  unfold weight
  split
  · next spot hl =>
    have hroams : Roams t (Spot.All fun n => n.size ≤ t.root.size) :=
      roams_all (fun _ _ _ hn hc => (Node.size_child_le hc).trans hn) (Nat.le_refl _)
    exact (hroams.locate hl).1
  · exact Node.size_pos _

theorem storage_bounded {t : Tree} (h : t.root.isNamed = true) :
    storage.Bounded t (weight t) where
  pos dir := by
    unfold weight
    split
    · exact Node.size_pos _
    · exact Nat.one_pos
  extent := weight_le_extent t
  below dir entries hl := by
    obtain ⟨nodes, above, hlocate, rfl⟩ := list_eq_ok (show list t dir = .ok entries from hl)
    have hfitting := fitting_of_locate h hlocate
    obtain ⟨hnodup, hsteps⟩ := fitting_iff.1 hfitting
    have hnodup : ((nodes.map (·.1)).filter isSpelled).Nodup := hnodup.filter _
    -- an entry that counts weighs as much as the node of its name
    have hlight : ∀ last ∈ (sort (((nodes.map (·.1)).filter isSpelled).map Path.mk)).filter
        ((fun entry => answer (storage.isDir entry) t && !answer (storage.isSymlink entry) t) ∘
          dir.join), weight t (dir.join last) ≤ ((nodes.lookup last.text).map Node.size).getD 0 := by
      intro last hlast
      obtain ⟨hmem, hcounts⟩ := List.mem_filter.1 hlast
      obtain ⟨name, hname, rfl⟩ := List.mem_map.1 (mem_sort.1 hmem)
      obtain ⟨hmem, hspelled⟩ := List.mem_filter.1 hname
      obtain ⟨hdir, hlink⟩ := Bool.and_eq_true_iff.1 hcounts
      obtain ⟨child, above, hchild, hentry⟩ := locate_entry hlocate
        (hsteps name hmem hspelled) hdir (by rwa [Bool.not_eq_true'] at hlink)
      rw [weight, hentry, hchild]
      exact Nat.le_refl _
    have hsize : weight t dir = Node.totalSize nodes + 1 := by rw [weight, hlocate]; rfl
    rw [List.filter_map, List.map_map, hsize]
    refine Nat.lt_succ_of_le ((List.sum_le_sum hlight).trans ?_)
    calc _ ≤ ((sort (((nodes.map (·.1)).filter isSpelled).map Path.mk)).map fun last =>
          ((nodes.lookup last.text).map Node.size).getD 0).sum :=
        (List.filter_sublist.map _).sum_le_sum fun _ _ => Nat.zero_le _
      _ = (((nodes.map (·.1)).filter isSpelled).map fun name =>
          ((nodes.lookup name).map Node.size).getD 0).sum := by
        rw [((perm_sort _).map _).sum_eq, List.map_map]
        rfl
      _ ≤ _ := sum_size_le hnodup nodes

end CompileWatch.Disk
