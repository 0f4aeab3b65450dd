import CompileWatch.Storage.Basic

/-!
# Directory trees

A tree of files, directories and symbolic links. A node is found by its
position, the names that lead down to it, and a change to a directory is made
at its position. Whoever moves about in a tree holds a *spot*: a node together
with the directories that were passed on the way down to it, so that each step
down or up is as cheap as the directory is small.
-/

namespace CompileWatch.Disk

/-- Names from the top of a tree down to a node. -/
abbrev Position := List String

inductive Node where
  | file (bytes : ByteArray) (modified : Timestamp)
  | directory (entries : List (String × Node))
  | link (target : String)

/-- The entries of a directory. -/
abbrev Entries := List (String × Node)

/-- Gives a name a node, in place of the one it had. -/
def setEntry (name : String) (node : Node) : Entries → Entries
  | [] => [(name, node)]
  | entry :: rest =>
    if entry.1 = name then (name, node) :: rest else entry :: setEntry name node rest

def eraseEntry (name : String) (entries : Entries) : Entries := entries.filter (·.1 ≠ name)

theorem lookup_cons (other key : String) (node : Node) (rest : Entries) :
    List.lookup other ((key, node) :: rest) =
      if other = key then some node else rest.lookup other := by
  by_cases h : other = key
  · simp [h]
  · simp [List.lookup_cons, h, beq_eq_false_iff_ne.2 h]

/-- Only the name that is given a node is looked up differently. -/
theorem lookup_setEntry (name other : String) (node : Node) (entries : Entries) :
    (setEntry name node entries).lookup other =
      if other = name then some node else entries.lookup other := by
  induction entries with
  | nil => simp [setEntry, lookup_cons]
  | cons entry rest ih =>
    obtain ⟨key, old⟩ := entry
    by_cases h : key = name
    · simp only [setEntry, h, if_true, lookup_cons]
      split <;> rfl
    · simp only [setEntry, h, if_false, lookup_cons, ih]
      split
      · next hother => rw [if_neg (hother ▸ h)]
      · rfl

/-- Only the name that is erased is looked up differently. -/
theorem lookup_eraseEntry (name other : String) (entries : Entries) :
    (eraseEntry name entries).lookup other =
      if other = name then none else entries.lookup other := by
  unfold eraseEntry
  induction entries with
  | nil => simp
  | cons entry rest ih =>
    obtain ⟨key, old⟩ := entry
    by_cases h : key = name
    · rw [List.filter_cons_of_neg (by simpa using h), ih, lookup_cons, h]
      split <;> rfl
    · rw [List.filter_cons_of_pos (by simpa using h), lookup_cons, lookup_cons, ih]
      split
      · next hother => rw [if_neg (hother ▸ h)]
      · rfl

namespace Node

instance : Inhabited Node := ⟨directory []⟩

/-- The entries of a directory. Nothing else has any. -/
def entries : Node → Entries
  | directory entries => entries
  | _ => []

def child? (n : Node) (name : String) : Option Node := n.entries.lookup name

/-- The node at a position below. -/
def nodeAt? (n : Node) : Position → Option Node
  | [] => some n
  | name :: rest => (n.child? name).bind (·.nodeAt? rest)

/-- Changes the entries of the directory at a position below. Where no directory is, nothing
changes. -/
def editAt (change : Entries → Entries) (n : Node) : Position → Node
  | [] => match n with
    | directory entries => directory (change entries)
    | other => other
  | name :: rest => match n.child? name with
    | some child => directory (setEntry name (child.editAt change rest) n.entries)
    | none => n

mutual

/-- The number of nodes, this one included. -/
def size : Node → Nat
  | directory entries => totalSize entries + 1
  | _ => 1

/-- The number of nodes among and below entries. -/
def totalSize : List (String × Node) → Nat
  | [] => 0
  | (_, node) :: rest => node.size + totalSize rest

end

mutual

/-- The positions of all files and links, this node included. -/
def leaves : Node → List Position
  | directory entries => leavesAmong entries
  | _ => [[]]

/-- The positions of all files and links among and below entries. -/
def leavesAmong : List (String × Node) → List Position
  | [] => []
  | (name, node) :: rest => node.leaves.map (name :: ·) ++ leavesAmong rest

end

end Node

/-- A node as it is met on a walk from the top. -/
structure Spot where
  here : Node
  /-- The directories above, nearest first, each with the name of the entry that leads down. -/
  above : List (String × Node)

namespace Spot

def position (s : Spot) : Position := (s.above.map (·.1)).reverse

/-- The directory above. The top is its own. -/
def up (s : Spot) : Spot :=
  match s.above with
  | [] => s
  | (_, parent) :: above => ⟨parent, above⟩

/-- The entry of a name. -/
def down? (s : Spot) (name : String) : Option Spot :=
  (s.here.child? name).map fun child => ⟨child, (name, s.here) :: s.above⟩

end Spot

/-- All nodes, and the clock that stamps new files. -/
structure Tree where
  root : Node
  clock : Nat

/-- The position of the working directory. It and the directory above it bear names that no path
can spell, so that a walk can leave them upwards but never enters them. -/
def homePosition : Position := ["/", "/"]

/-- Whether a path can spell a name. -/
def isSpelled (name : String) : Bool := !name.toList.contains '/'

namespace Tree

/-- A working directory without entries. -/
def empty : Tree :=
  ⟨homePosition.foldr (fun name below => .directory [(name, below)]) (.directory []), 0⟩

instance : Inhabited Tree := ⟨empty⟩

def top (t : Tree) : Spot := ⟨t.root, []⟩

/-- The working directory, where a path starts that is not absolute. -/
def home (t : Tree) : Spot := homePosition.foldl (fun s name => (s.down? name).getD s) t.top

/-- Puts a node under a name into the directory at a position, in place of any that is there. -/
def put (t : Tree) (dir : Position) (name : String) (node : Node) : Tree :=
  { t with root := t.root.editAt (setEntry name node) dir }

def erase (t : Tree) (dir : Position) (name : String) : Tree :=
  { t with root := t.root.editAt (eraseEntry name) dir }

end Tree

end CompileWatch.Disk
