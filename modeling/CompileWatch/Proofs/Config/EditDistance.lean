import CompileWatch.Config.EditDistance
import Mathlib.Data.List.Infix
import Mathlib.Order.Bounds.Defs

/-!
# The least number of edits

An edit inserts, deletes or substitutes a single element, and the rows of the
computation end in the least number of edits that turn one list into the other
(`isLeast_editDistance`). So does every cell on the way: the row of a list holds its
distances to all beginnings of the other list, the empty one included
(`foldl_nextRow_firstRow`). The distance is a metric because edits can be undone and
joined, and no longer than the longer list because one list can be made from another
place by place (`rows_count_least_edits`).

Between the rows and the edits stands the distance by first elements (`distance`),
which says nothing of rows: a cell is the distance of what has been read of the two
lists, the latest element first (`editDistance_eq`). An edit anywhere in a list
changes its distance to any other by one at most (`distance_le_of_edit`), so no
fewer edits can do, and the three ways in which a distance comes about are edits at
the front (`edits_distance`).
-/

namespace CompileWatch.Config

variable {α : Type}

/-! ## Edits -/

/-- An insertion, a deletion or a substitution of a single element. -/
inductive SingleEdit : List α → List α → Prop
  | insert (front back : List α) (c : α) : SingleEdit (front ++ back) (front ++ c :: back)
  | delete (front back : List α) (c : α) : SingleEdit (front ++ c :: back) (front ++ back)
  | substitute (front back : List α) (c d : α) :
      SingleEdit (front ++ c :: back) (front ++ d :: back)

/-- So many edits, one after another. -/
inductive Edits : Nat → List α → List α → Prop
  | none (a : List α) : Edits 0 a a
  | next {n : Nat} {a b c : List α} : SingleEdit a b → Edits n b c → Edits (n + 1) a c

variable {a b c : List α} {m n : Nat}

theorem SingleEdit.cons (h : SingleEdit a b) (e : α) : SingleEdit (e :: a) (e :: b) := by
  cases h with
  | insert front back c => exact .insert (e :: front) back c
  | delete front back c => exact .delete (e :: front) back c
  | substitute front back c d => exact .substitute (e :: front) back c d

theorem SingleEdit.reverse (h : SingleEdit a b) : SingleEdit a.reverse b.reverse := by
  cases h with
  | insert front back c => simpa using SingleEdit.insert back.reverse front.reverse c
  | delete front back c => simpa using SingleEdit.delete back.reverse front.reverse c
  | substitute front back c d => simpa using SingleEdit.substitute back.reverse front.reverse c d

theorem SingleEdit.symm (h : SingleEdit a b) : SingleEdit b a := by
  cases h with
  | insert front back c => exact .delete front back c
  | delete front back c => exact .insert front back c
  | substitute front back c d => exact .substitute front back d c

theorem Edits.cons (h : Edits n a b) (e : α) : Edits n (e :: a) (e :: b) := by
  induction h with
  | none a => exact .none _
  | next hstep _ ih => exact .next (hstep.cons e) ih

theorem Edits.reverse (h : Edits n a b) : Edits n a.reverse b.reverse := by
  induction h with
  | none a => exact .none _
  | next hstep _ ih => exact .next hstep.reverse ih

theorem Edits.append (h : Edits m a b) (hn : Edits n b c) : Edits (m + n) a c := by
  induction h with
  | none a => rwa [Nat.zero_add]
  | next hstep _ ih =>
      rw [Nat.add_right_comm]
      exact .next hstep (ih hn)

theorem Edits.concat (h : Edits n a b) (hlast : SingleEdit b c) : Edits (n + 1) a c :=
  h.append (.next hlast (.none c))

theorem Edits.symm (h : Edits n a b) : Edits n b a := by
  induction h with
  | none a => exact .none a
  | next hstep _ ih => exact ih.concat hstep.symm

theorem edits_zero_iff : Edits 0 a b ↔ a = b := by
  constructor
  · intro h
    cases h
    rfl
  · rintro rfl
    exact .none a

theorem edits_reverse_iff : Edits n a.reverse b.reverse ↔ Edits n a b :=
  ⟨fun h => by simpa using h.reverse, Edits.reverse⟩

/-- A list can be taken away one element at a time. -/
theorem edits_length : ∀ a : List α, Edits a.length a []
  | [] => .none []
  | c :: a => .next (.delete [] a c) (edits_length a)

/-- As long as both lists last one element is substituted for the other, and what is left of the
longer one is taken away or built up. -/
theorem edits_max_length : ∀ a b : List α, Edits (max a.length b.length) a b
  | [], b => by
      rw [List.length_nil, Nat.zero_max]
      exact (edits_length b).symm
  | c :: a, [] => by
      rw [List.length_nil, Nat.max_zero]
      exact edits_length (c :: a)
  | c :: a, d :: b => by
      rw [List.length_cons, List.length_cons, Nat.add_max_add_right]
      exact .next (.substitute [] a c d) ((edits_max_length a b).cons d)

/-! ## The distance by first elements -/

variable [DecidableEq α]

/-- The distance of two lists: that of what is left once one of the first elements is gone, or both,
and one more for the edit that this takes. -/
def distance : List α → List α → Nat
  | [], b => b.length
  | a, [] => a.length
  | c :: a, d :: b =>
    min (min (distance a (d :: b) + 1) (distance (c :: a) b + 1))
      (distance a b + if c = d then 0 else 1)
termination_by a b => a.length + b.length

@[simp]
theorem distance_nil_left (b : List α) : distance [] b = b.length := by rw [distance]

@[simp]
theorem distance_nil_right (a : List α) : distance a [] = a.length := by
  cases a with
  | nil => rw [distance]
  | cons c a => rw [distance]; exact nofun

theorem distance_cons_cons (c d : α) (a b : List α) :
    distance (c :: a) (d :: b) =
      min (min (distance a (d :: b) + 1) (distance (c :: a) b + 1))
        (distance a b + if c = d then 0 else 1) := by
  rw [distance]

theorem distance_self (a : List α) : distance a a = 0 := by
  induction a with
  | nil => simp
  | cons c a ih => simp [distance_cons_cons, ih]

/-- A distance comes about in one of three ways. -/
theorem distance_cons_cons_cases (c d : α) (a b : List α) :
    distance (c :: a) (d :: b) = distance a (d :: b) + 1 ∨
      distance (c :: a) (d :: b) = distance (c :: a) b + 1 ∨
      distance (c :: a) (d :: b) = distance a b + if c = d then 0 else 1 := by
  rw [distance_cons_cons]
  omega

/-! ## Enough edits -/

theorem edits_distance : ∀ a b : List α, Edits (distance a b) a b
  | [], b => by
      rw [distance_nil_left]
      exact (edits_length b).symm
  | c :: a, [] => by
      rw [distance_nil_right]
      exact edits_length (c :: a)
  | c :: a, d :: b => by
      rcases distance_cons_cons_cases c d a b with h | h | h
      · rw [h]
        exact .next (.delete [] a c) (edits_distance a (d :: b))
      · rw [h]
        exact (edits_distance (c :: a) b).concat (.insert [] b d)
      · rw [h]
        split
        · next heq =>
          rw [heq]
          exact (edits_distance a b).cons d
        · exact .next (.substitute [] a c d) ((edits_distance a b).cons d)
termination_by a b => a.length + b.length

/-! ## No fewer edits -/

theorem distance_cons_left_le (c : α) (a b : List α) : distance (c :: a) b ≤ distance a b + 1 := by
  cases b with
  | nil => simp
  | cons d b =>
      rw [distance_cons_cons]
      omega

theorem distance_cons_right_le (d : α) (a b : List α) : distance a (d :: b) ≤ distance a b + 1 := by
  cases a with
  | nil => simp
  | cons c a =>
      rw [distance_cons_cons]
      omega

theorem distance_le_cons_left (c : α) (a b : List α) : distance a b ≤ distance (c :: a) b + 1 := by
  induction b with
  | nil =>
      rw [distance_nil_right, distance_nil_right, List.length_cons]
      omega
  | cons d b ih =>
      have hright := distance_cons_right_le d a b
      rcases distance_cons_cons_cases c d a b with h | h | h
      · omega
      · omega
      · omega

theorem distance_substitute_le (c e : α) (a b : List α) :
    distance (c :: a) b ≤ distance (e :: a) b + 1 := by
  induction b with
  | nil => simp
  | cons d b ih =>
      rw [distance_cons_cons c d]
      rcases distance_cons_cons_cases e d a b with h | h | h
      · omega
      · omega
      · have hcost : (if c = d then 0 else 1) ≤ 1 := by split <;> omega
        omega

/-- What changes the distance to every list by one at most still does so behind an element. -/
theorem distance_cons_le_cons {a a' : List α} (h : ∀ b, distance a b ≤ distance a' b + 1) (c : α)
    (b : List α) : distance (c :: a) b ≤ distance (c :: a') b + 1 := by
  induction b with
  | nil => simpa using h []
  | cons d b ih =>
      have hboth := h b
      have hleft := h (d :: b)
      rw [distance_cons_cons c d a]
      rcases distance_cons_cons_cases c d a' b with h | h | h
      · omega
      · omega
      · omega

/-- The induction is on what stands before the place of the edit. -/
theorem distance_le_of_edit {a a' : List α} (h : SingleEdit a a') (b : List α) :
    distance a b ≤ distance a' b + 1 := by
  have hfront : ∀ (front : List α) {x y : List α}, (∀ b, distance x b ≤ distance y b + 1) →
      ∀ b, distance (front ++ x) b ≤ distance (front ++ y) b + 1 := by
    intro front x y hxy
    induction front with
    | nil => exact hxy
    | cons c front ih => exact distance_cons_le_cons ih c
  cases h with
  | insert front back c => exact hfront front (distance_le_cons_left c back) b
  | delete front back c => exact hfront front (distance_cons_left_le c back) b
  | substitute front back c d => exact hfront front (distance_substitute_le c d back) b

theorem distance_le_of_edits (h : Edits n a b) : distance a b ≤ n := by
  induction h with
  | none a => exact Nat.le_of_eq (distance_self a)
  | next hstep _ ih =>
      exact Nat.le_trans (distance_le_of_edit hstep _) (Nat.succ_le_succ ih)

/-! ## Rows -/

/-- The cells of a row from a place on: `seen` is what has been read of the second list, the latest
element first, and what follows is the rest of it. -/
def cells (a seen : List α) : List α → List Nat
  | [] => []
  | d :: rest => distance a (d :: seen) :: cells a (d :: seen) rest

/-- The row of a list, its latest element first. -/
def rowOf (a b : List α) : List Nat := distance a [] :: cells a [] b

theorem fillRow_cells (c : α) (a : List α) : ∀ rest seen : List α,
    fillRow c (distance (c :: a) seen) (distance a seen) rest (cells a seen rest) =
      cells (c :: a) seen rest
  | [], _ => rfl
  | d :: rest, seen => by
      rw [cells, fillRow, ← distance_cons_cons, fillRow_cells c a rest (d :: seen)]
      rfl

theorem nextRow_rowOf (c : α) (a b : List α) : nextRow b (rowOf a b) c = rowOf (c :: a) b := by
  have hfirst : distance a [] + 1 = distance (c :: a) [] := by simp
  rw [rowOf, nextRow, hfirst, fillRow_cells]
  rfl

theorem firstRow_eq (b : List α) : firstRow b = rowOf [] b := by
  have hcells : ∀ rest seen : List α,
      List.range' seen.length (rest.length + 1) = distance [] seen :: cells [] seen rest := by
    intro rest
    induction rest with
    | nil => exact fun seen => by simp [cells]
    | cons d rest ih =>
        intro seen
        rw [List.length_cons, List.range'_succ, cells, distance_nil_left]
        exact congrArg _ (ih (d :: seen))
  rw [firstRow, List.range_eq_range']
  exact hcells b []

theorem foldl_nextRow (b a seen : List α) :
    a.foldl (nextRow b) (rowOf seen b) = rowOf (a.reverse ++ seen) b := by
  induction a generalizing seen with
  | nil => rfl
  | cons c a ih => rw [List.foldl_cons, nextRow_rowOf, ih, List.reverse_cons, List.append_assoc]; rfl

/-- A row has one cell for each beginning of the second list. -/
theorem cells_eq_map_inits (a : List α) : ∀ rest seen : List α,
    distance a seen :: cells a seen rest =
      rest.inits.map fun front => distance a (front.reverse ++ seen)
  | [], _ => rfl
  | d :: rest, seen => by
      rw [cells, cells_eq_map_inits a rest (d :: seen), List.inits_cons, List.map_cons, List.map_map]
      simp

theorem getLast?_rowOf (a : List α) : ∀ rest seen : List α,
    (distance a seen :: cells a seen rest).getLast? = some (distance a (rest.reverse ++ seen))
  | [], _ => rfl
  | d :: rest, seen => by
      rw [cells, List.getLast?_cons_cons, getLast?_rowOf a rest (d :: seen), List.reverse_cons,
        List.append_assoc]
      rfl

/-- The last cell of the last row is the distance of the two lists, read from their ends. -/
theorem editDistance_eq (a b : List α) : editDistance a b = distance a.reverse b.reverse := by
  rw [editDistance, firstRow_eq, foldl_nextRow, rowOf, getLast?_rowOf]
  simp

/-- The row of a list holds its distances to all beginnings of the other. -/
theorem foldl_nextRow_firstRow (a b : List α) :
    a.foldl (nextRow b) (firstRow b) = b.inits.map (editDistance a) := by
  rw [firstRow_eq, foldl_nextRow, rowOf, cells_eq_map_inits]
  simp [editDistance_eq]

/-- The rows end in the least number of edits that turn one list into the other. -/
theorem isLeast_editDistance (a b : List α) : IsLeast {n | Edits n a b} (editDistance a b) := by
  rw [editDistance_eq]
  refine ⟨edits_reverse_iff.1 (edits_distance _ _), fun n hn => ?_⟩
  exact distance_le_of_edits (edits_reverse_iff.2 hn)

/-! ## A metric -/

theorem edits_editDistance (a b : List α) : Edits (editDistance a b) a b :=
  (isLeast_editDistance a b).1

theorem editDistance_le (h : Edits n a b) : editDistance a b ≤ n :=
  (isLeast_editDistance a b).2 h

theorem editDistance_eq_zero_iff : editDistance a b = 0 ↔ a = b := by
  constructor
  · intro h
    have hedits := edits_editDistance a b
    rw [h] at hedits
    exact edits_zero_iff.1 hedits
  · intro h
    exact Nat.le_zero.1 (editDistance_le (edits_zero_iff.2 h))

theorem editDistance_comm (a b : List α) : editDistance a b = editDistance b a :=
  Nat.le_antisymm (editDistance_le (edits_editDistance b a).symm)
    (editDistance_le (edits_editDistance a b).symm)

theorem editDistance_triangle (a b c : List α) :
    editDistance a c ≤ editDistance a b + editDistance b c :=
  editDistance_le ((edits_editDistance a b).append (edits_editDistance b c))

theorem editDistance_le_max (a b : List α) : editDistance a b ≤ max a.length b.length :=
  editDistance_le (edits_max_length a b)

/-- Each row holds, for every beginning of the second list, the distance from what has been read of
the first, and a distance is the least number of insertions, deletions and substitutions of single
elements that turn the one list into the other. Hence only equal lists are at distance zero, the way
back is as long, a way over a third list is no shorter, and no way is longer than the longer list. -/
theorem rows_count_least_edits (a b c : List α) :
    a.foldl (nextRow b) (firstRow b) = b.inits.map (editDistance a) ∧
      IsLeast {n | Edits n a b} (editDistance a b) ∧
      (editDistance a b = 0 ↔ a = b) ∧
      editDistance a b = editDistance b a ∧
      editDistance a c ≤ editDistance a b + editDistance b c ∧
      editDistance a b ≤ max a.length b.length :=
  ⟨foldl_nextRow_firstRow a b, isLeast_editDistance a b, editDistance_eq_zero_iff,
    editDistance_comm a b, editDistance_triangle a b c, editDistance_le_max a b⟩

end CompileWatch.Config
