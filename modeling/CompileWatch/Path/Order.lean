import CompileWatch.Path.Basic

/-!
# The order of paths

Components are linearly ordered, so paths are linearly preordered: two paths
compare as equal exactly when their components are the same. A path that is
compared again and again is made a `Key`, whose components are read only once.
Sorting keeps the members of a list (`mem_sort`) and puts them in ascending
order (`pairwise_sort`).
-/

namespace CompileWatch

namespace Component

instance : Std.TransOrd Component :=
  inferInstanceAs (Std.TransCmp (compareLex (compareOn rank) (compareOn text)))

theorem compare_def (a b : Component) :
    compare a b = (compare a.rank b.rank).then (compare a.text b.text) := rfl

instance : Std.LawfulEqOrd Component where
  eq_of_compare {a b} h := by
    rw [compare_def, Ordering.then_eq_eq] at h
    have hr := Std.LawfulEqOrd.eq_of_compare h.1
    have ht := Std.LawfulEqOrd.eq_of_compare h.2
    cases a <;> cases b <;> simp_all [rank, text]

end Component

namespace Path

theorem compare_def (p q : Path) : compare p q = compare p.components q.components := rfl

instance : Std.TransOrd Path :=
  inferInstanceAs (Std.TransCmp (compareOn components))

theorem compare_eq_iff {p q : Path} : compare p q = .eq ↔ p.components = q.components := by
  rw [compare_def]
  exact Std.LawfulEqCmp.compare_eq_iff_eq

theorem same_iff {p q : Path} : p.same q = true ↔ p.components = q.components := by
  simp [same]

theorem same_iff_compare {p q : Path} : p.same q = true ↔ compare p q = .eq :=
  same_iff.trans compare_eq_iff.symm

theorem same_self (p : Path) : p.same p = true := same_iff.2 rfl

theorem same_comm (p q : Path) : p.same q = q.same p := by
  rw [Bool.eq_iff_iff, same_iff, same_iff]
  exact eq_comm

/-- A path together with its components, which are read once however often it is compared. -/
structure Key where
  path : Path
  components : List Component := path.components
  components_eq : components = path.components := by rfl

namespace Key

def of (path : Path) : Key := { path }

/-- Keys are ordered as their paths are. -/
instance : Ord Key where
  compare k l := compare k.components l.components

instance : Std.TransOrd Key :=
  inferInstanceAs (Std.TransCmp (compareOn components))

theorem compare_def (k l : Key) : compare k l = compare k.path l.path := by
  rw [Path.compare_def, ← k.components_eq, ← l.components_eq]
  rfl

@[simp]
theorem path_of (p : Path) : (of p).path = p := rfl

theorem eq_of_path : ∀ {k l : Key}, k.path = l.path → k = l
  | ⟨_, _, rfl⟩, ⟨_, _, rfl⟩, rfl => rfl

theorem compare_of {k : Key} {p : Path} : compare k (.of p) = .eq ↔ k.path.same p = true := by
  rw [compare_def, path_of, same_iff_compare]

end Key

/-- Puts a key before the first of some sorted ones that it does not follow. -/
def insertSorted (k : Key) : List Key → List Key
  | [] => [k]
  | l :: rest => if compare k l = .gt then l :: insertSorted k rest else k :: l :: rest

/-- The keys of paths in path order; those that compare as equal keep their places. -/
def sortedKeys (paths : List Path) : List Key := (paths.map Key.of).foldr insertSorted []

/-- The paths in path order; those that compare as equal keep their places. -/
def sort (paths : List Path) : List Path := (sortedKeys paths).map Key.path

theorem mem_insertSorted {k l : Key} {keys : List Key} :
    l ∈ insertSorted k keys ↔ l = k ∨ l ∈ keys := by
  induction keys with
  | nil => simp [insertSorted]
  | cons m rest ih => simp only [insertSorted]; split <;> simp [ih, or_left_comm]

theorem mem_sortedKeys {k : Key} {paths : List Path} :
    k ∈ sortedKeys paths ↔ ∃ p ∈ paths, Key.of p = k := by
  induction paths with
  | nil => simp [sortedKeys]
  | cons p rest ih =>
    have : sortedKeys (p :: rest) = insertSorted (Key.of p) (sortedKeys rest) := rfl
    simp [this, mem_insertSorted, ih, eq_comm]

@[simp]
theorem mem_sort {p : Path} {l : List Path} : p ∈ sort l ↔ p ∈ l := by
  simp only [sort, List.mem_map, mem_sortedKeys]
  constructor
  · rintro ⟨_, ⟨q, hq, rfl⟩, rfl⟩
    exact hq
  · exact fun h => ⟨_, ⟨p, h, rfl⟩, rfl⟩

theorem pairwise_insertSorted (k : Key) {keys : List Key}
    (h : keys.Pairwise fun l m => compare l m ≠ .gt) :
    (insertSorted k keys).Pairwise fun l m => compare l m ≠ .gt := by
  induction keys with
  | nil => simp [insertSorted]
  | cons l rest ih =>
    rw [List.pairwise_cons] at h
    simp only [insertSorted]
    split
    · next hkl =>
      refine List.pairwise_cons.2 ⟨fun m hm => ?_, ih h.2⟩
      rcases mem_insertSorted.1 hm with rfl | hm
      · rw [Std.OrientedCmp.lt_of_gt hkl]; decide
      · exact h.1 m hm
    · next hkl =>
      refine List.pairwise_cons.2 ⟨fun m hm => ?_, List.pairwise_cons.2 h⟩
      have hkl : (compare k l).isLE := by simpa [Ordering.isLE_iff_ne_gt] using hkl
      rcases List.mem_cons.1 hm with rfl | hm
      · exact Ordering.isLE_iff_ne_gt.1 hkl
      · exact Ordering.isLE_iff_ne_gt.1
          (Std.TransCmp.isLE_trans hkl (Ordering.isLE_iff_ne_gt.2 (h.1 m hm)))

theorem pairwise_sortedKeys (paths : List Path) :
    (sortedKeys paths).Pairwise fun k l => compare k l ≠ .gt := by
  induction paths with
  | nil => simp [sortedKeys]
  | cons p rest ih => exact pairwise_insertSorted (Key.of p) ih

/-- Sorting puts paths in ascending order. -/
theorem pairwise_sort (l : List Path) : (sort l).Pairwise fun p q => compare p q ≠ .gt := by
  simpa only [sort, List.pairwise_map, ← Key.compare_def] using pairwise_sortedKeys l

end Path

end CompileWatch
