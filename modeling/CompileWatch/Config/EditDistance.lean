/-!
# Edit distance

The least number of insertions, deletions and substitutions of single elements
that turn one list into another, computed row by row: a row holds the distances
from a beginning of the first list to all beginnings of the second, and the next
row needs nothing but the one before it.
-/

namespace CompileWatch.Config

variable {α : Type} [DecidableEq α]

/-- The rest of a row for an element `c`. `left` is the cell just filled, `diagonal` the cell above
it, and the lists are what remains of the second list and of the row above. -/
def fillRow (c : α) (left diagonal : Nat) : List α → List Nat → List Nat
  | d :: rest, up :: above =>
    let cell := min (min (up + 1) (left + 1)) (diagonal + if c = d then 0 else 1)
    cell :: fillRow c cell up rest above
  | _, _ => []

/-- The row after `row` once the first list is longer by `c`. -/
def nextRow (b : List α) (row : List Nat) (c : α) : List Nat :=
  match row with
  | first :: above => (first + 1) :: fillRow c (first + 1) first b above
  | [] => []

/-- The row of the empty list: as many insertions as there are elements. -/
def firstRow (b : List α) : List Nat := List.range (b.length + 1)

/-- The least number of edits between two lists. -/
def editDistance (a b : List α) : Nat := (a.foldl (nextRow b) (firstRow b)).getLast?.getD 0

end CompileWatch.Config
