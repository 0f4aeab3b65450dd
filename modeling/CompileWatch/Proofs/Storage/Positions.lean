import CompileWatch.Proofs.Storage.Walks

/-!
# Positions in a tree

A tree is known by what stands at its positions (`Tree.look`), and where a walk
leads is known by less: it sees of a file only that it is one (`Tree.layout`). A
spot of a walk is a position with what stands there (`Spot.StandsIn`).

A change to one entry of a directory is seen at the place of the entry and nowhere
else, as long as no directory comes or goes with entries of its own (`look_put`,
`look_erase`).
-/

namespace CompileWatch.Disk

open CompileWatch.Path

/-- What stands at a position. A directory stands there without its entries. -/
inductive Item where
  | file (bytes : ByteArray) (modified : Timestamp)
  | directory
  | link (target : String)

/-- What a walk sees of an item. -/
inductive Shape where
  | file
  | directory
  | link (target : String)

def Item.shape : Item → Shape
  | file _ _ => .file
  | directory => .directory
  | link target => .link target

def Node.item : Node → Item
  | file bytes modified => .file bytes modified
  | directory _ => .directory
  | link target => .link target

abbrev Layout := Position → Option Shape

def Node.look (n : Node) (place : Position) : Option Item := (n.nodeAt? place).map Node.item

def Tree.look (t : Tree) : Position → Option Item := t.root.look

def Tree.layout (t : Tree) : Layout := fun place => (t.look place).map Item.shape

theorem Node.nodeAt?_append (n : Node) (place rest : Position) :
    n.nodeAt? (place ++ rest) = (n.nodeAt? place).bind (·.nodeAt? rest) := by
  induction place generalizing n with
  | nil => rfl
  | cons name more ih =>
      show (n.child? name).bind _ = ((n.child? name).bind _).bind _
      rw [Option.bind_assoc]
      exact congrArg (Option.bind _) (funext fun child => ih child)

theorem Node.item_eq_directory {n : Node} :
    n.item = .directory ↔ ∃ nodes, n = .directory nodes := by
  cases n <;> simp [item]

theorem Item.shape_eq_directory {i : Item} : i.shape = .directory ↔ i = .directory := by
  cases i <;> simp [shape]

/-! ## Spots of a tree -/

/-- Whether a node is met below a root by going down through directories, given nearest first. -/
def Standing (root : Node) : Node → List (String × Node) → Prop
  | here, [] => here = root
  | here, (name, parent) :: above => parent.child? name = some here ∧ Standing root parent above

/-- Whether a spot is one of a tree. -/
def Spot.StandsIn (s : Spot) (t : Tree) : Prop := Standing t.root s.here s.above

theorem roams_standing (t : Tree) : Roams t (·.StandsIn t) where
  top := rfl
  up {s} hs := by
    obtain ⟨here, above⟩ := s
    cases above with
    | nil => exact hs
    | cons e above => exact hs.2
  down {s name next} hs hd := by
    obtain ⟨child, hc, rfl⟩ := Option.map_eq_some_iff.1 hd
    exact ⟨hc, hs⟩

namespace Spot

variable {t : Tree} {s : Spot}

@[simp]
theorem position_down (s : Spot) (name : String) (child : Node) :
    (⟨child, (name, s.here) :: s.above⟩ : Spot).position = s.position ++ [name] := by
  simp [position]

@[simp]
theorem position_up (s : Spot) : s.up.position = s.position.dropLast := by
  obtain ⟨here, above⟩ := s
  cases above with
  | nil => rfl
  | cons e above => simp [position, up]

theorem StandsIn.nodeAt? (hs : s.StandsIn t) : t.root.nodeAt? s.position = some s.here := by
  obtain ⟨here, above⟩ := s
  unfold StandsIn at hs
  induction above generalizing here with
  | nil => exact congrArg some hs.symm
  | cons e above ih =>
      obtain ⟨name, parent⟩ := e
      have hparent := ih parent hs.2
      have hposition : (⟨here, (name, parent) :: above⟩ : Spot).position =
          (⟨parent, above⟩ : Spot).position ++ [name] := position_down ⟨parent, above⟩ name here
      rw [hposition, Node.nodeAt?_append, hparent]
      show (parent.child? name).bind _ = _
      rw [hs.1]
      rfl

theorem StandsIn.look (hs : s.StandsIn t) : t.look s.position = some s.here.item := by
  rw [Tree.look, Node.look, hs.nodeAt?]
  rfl

theorem StandsIn.layout (hs : s.StandsIn t) : t.layout s.position = some s.here.item.shape := by
  rw [Tree.layout, hs.look]
  rfl

theorem StandsIn.layout_child (hs : s.StandsIn t) (name : String) :
    t.layout (s.position ++ [name]) = (s.here.child? name).map (·.item.shape) := by
  rw [Tree.layout, Tree.look, Node.look, Node.nodeAt?_append, hs.nodeAt?, Option.bind_some]
  show (((s.here.child? name).bind some).map _).map _ = _
  cases s.here.child? name with
  | none => rfl
  | some child => rfl

end Spot

/-! ## Changes -/

theorem look_below {t : Tree} {place rest : Position} (hplace : t.layout place ≠ some .directory)
    (hrest : rest ≠ []) : t.look (place ++ rest) = none := by
  rw [Tree.look, Node.look, Node.nodeAt?_append]
  cases hn : t.root.nodeAt? place with
  | none => rfl
  | some n =>
      obtain ⟨name, more, rfl⟩ := List.exists_cons_of_ne_nil hrest
      have hchild : n.child? name = none := by
        cases n with
        | directory nodes =>
            refine absurd ?_ hplace
            rw [Tree.layout, Tree.look, Node.look, hn]
            rfl
        | file bytes time => rfl
        | link target => rfl
      show Option.map _ ((n.child? name).bind _) = none
      rw [hchild]
      rfl

namespace Node

variable {n : Node} {nodes : Entries} {change : Entries → Entries} {dir : Position}

/-- Below the directory that is changed stands what its new entries hold. -/
theorem nodeAt?_editAt (rest : Position) : ∀ {n : Node} {dir : Position},
    n.nodeAt? dir = some (directory nodes) →
      (n.editAt change dir).nodeAt? (dir ++ rest) = (directory (change nodes)).nodeAt? rest
  | n, [], h => by
      cases h
      rfl
  | n, name :: more, h => by
      obtain ⟨child, hc, hmore⟩ := Option.bind_eq_some_iff.1 h
      have hnext := nodeAt?_editAt rest hmore
      rw [editAt, hc]
      show ((setEntry name (child.editAt change more) n.entries).lookup name).bind _ = _
      rw [lookup_setEntry, if_pos rfl]
      exact hnext

/-- Elsewhere stands what stood there. -/
theorem look_editAt_of_not_prefix : ∀ {n : Node} {dir place : Position}, ¬ dir <+: place →
    (n.editAt change dir).look place = n.look place
  | n, [], place, h => absurd (List.nil_prefix) h
  | n, name :: more, place, h => by
      rw [editAt]
      cases hc : n.child? name with
      | none => rfl
      | some child =>
          have hn : ∃ nodes, n = directory nodes := by
            cases n with
            | directory nodes => exact ⟨nodes, rfl⟩
            | file _ _ => cases hc
            | link _ => cases hc
          obtain ⟨nodes, rfl⟩ := hn
          cases place with
          | nil => rfl
          | cons other rest =>
              show Option.map _ (((setEntry name _ nodes).lookup other).bind _) =
                Option.map _ ((nodes.lookup other).bind _)
              rw [lookup_setEntry]
              split
              · next heq =>
                subst heq
                have hnext : (child.editAt change more).look rest = child.look rest :=
                  look_editAt_of_not_prefix fun hprefix =>
                    h (List.cons_prefix_cons.2 ⟨rfl, hprefix⟩)
                have hlookup : nodes.lookup other = some child := hc
                rw [hlookup]
                exact hnext
              · rfl

end Node

section Changes

variable {t : Tree} {dir : Position} {name : String}

/-- A change that concerns one name of a directory concerns what stands at its place and below. -/
theorem look_editAt {change : Entries → Entries} (hdir : t.layout dir = some .directory)
    (hplace : t.layout (dir ++ [name]) ≠ some .directory)
    (hchange : ∀ nodes other, other ≠ name → (change nodes).lookup other = nodes.lookup other)
    {node? : Option Node} (hnode : ∀ nodes, (change nodes).lookup name = node?)
    (hleaf : ∀ node ∈ node?, node.entries = []) (place : Position) :
    (t.root.editAt change dir).look place =
      if place = dir ++ [name] then node?.map Node.item else t.look place := by
  obtain ⟨nodes, hnodes⟩ : ∃ nodes, t.root.nodeAt? dir = some (.directory nodes) := by
    rw [Tree.layout, Tree.look, Node.look, Option.map_map] at hdir
    obtain ⟨n, hn, hshape⟩ := Option.map_eq_some_iff.1 hdir
    obtain ⟨nodes, rfl⟩ := Node.item_eq_directory.1 (Item.shape_eq_directory.1 hshape)
    exact ⟨nodes, hn⟩
  by_cases hprefix : dir <+: place
  · obtain ⟨rest, rfl⟩ := hprefix
    rw [Node.look, Node.nodeAt?_editAt rest hnodes]
    cases rest with
    | nil =>
        rw [if_neg (by simp), List.append_nil, Tree.look, Node.look, hnodes]
        rfl
    | cons other more =>
        show Option.map _ (((change nodes).lookup other).bind _) = _
        by_cases hother : other = name
        · subst hother
          rw [hnode]
          cases more with
          | nil =>
              rw [if_pos rfl]
              cases node? <;> rfl
          | cons next more =>
              rw [if_neg (by simp), List.append_cons, look_below hplace (by simp)]
              cases node? with
              | none => rfl
              | some node =>
                  show Option.map _ ((node.entries.lookup next).bind _) = none
                  rw [hleaf node rfl]
                  rfl
        · rw [hchange nodes other hother, if_neg (by simp [hother]), Tree.look, Node.look,
            Node.nodeAt?_append, hnodes]
          rfl
  · rw [Node.look_editAt_of_not_prefix hprefix, if_neg]
    · rfl
    · rintro rfl
      exact hprefix (List.prefix_append _ _)

theorem look_put {node : Node} (hdir : t.layout dir = some .directory)
    (hplace : t.layout (dir ++ [name]) ≠ some .directory) (hleaf : node.entries = [])
    (place : Position) : (t.put dir name node).look place =
      if place = dir ++ [name] then some node.item else t.look place :=
  look_editAt hdir hplace
    (fun nodes other hother => (lookup_setEntry name other node nodes).trans (if_neg hother))
    (fun nodes => (lookup_setEntry name name node nodes).trans (if_pos rfl))
    (fun _ h => Option.some.inj h ▸ hleaf) place

theorem look_erase (hdir : t.layout dir = some .directory)
    (hplace : t.layout (dir ++ [name]) ≠ some .directory) (place : Position) :
    (t.erase dir name).look place = if place = dir ++ [name] then none else t.look place := by
  have hnone : ∀ nodes, (eraseEntry name nodes).lookup name = none := fun nodes =>
    (lookup_eraseEntry name name nodes).trans (if_pos rfl)
  exact look_editAt hdir hplace
    (fun nodes other hother => (lookup_eraseEntry name other nodes).trans (if_neg hother))
    hnone (fun _ h => by cases h) place

end Changes

end CompileWatch.Disk
