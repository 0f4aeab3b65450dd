import CompileWatch.Proofs.Effect
import CompileWatch.Proofs.Storage.Walks

/-!
# Names in directories

The names in a directory differ, and each that a path can spell could stand in a
path as it is: it is not empty and no dots (`Node.isNamed`). An empty tree is of
this kind, and every operation leaves it so, because a name comes into a directory
only from a segment of a path or from `freshName`, and under a name that is there
already an entry is replaced.
-/

namespace CompileWatch.Disk

open CompileWatch.Path

/-! ## Named trees -/

/-- Whether the names of a directory differ, and each that a path can spell is one it can hold. -/
def fitting (names : List String) : Bool :=
  decide names.Nodup && names.all fun name => !isSpelled name || (Component.name name).isStep

mutual

/-- Whether the entries of all directories bear fitting names. -/
def Node.isNamed : Node → Bool
  | .directory entries => fitting (entries.map (·.1)) && allNamed entries
  | _ => true

/-- Whether this holds of the nodes among and below entries. -/
def allNamed : List (String × Node) → Bool
  | [] => true
  | (_, node) :: rest => node.isNamed && allNamed rest

end

theorem fitting_iff {names : List String} : fitting names = true ↔
    names.Nodup ∧ ∀ name ∈ names, isSpelled name = true → (Component.name name).isStep = true := by
  simp only [fitting, Bool.and_eq_true, decide_eq_true_eq, List.all_eq_true, Bool.or_eq_true,
    Bool.not_eq_true', ← Bool.not_eq_true, ← imp_iff_not_or]

theorem isNamed_directory_iff {entries : Entries} : (Node.directory entries).isNamed = true ↔
    fitting (entries.map (·.1)) = true ∧ ∀ entry ∈ entries, entry.2.isNamed = true := by
  have hall : ∀ entries, allNamed entries = true ↔ ∀ entry ∈ entries, entry.2.isNamed = true := by
    intro entries
    induction entries with
    | nil => simp [allNamed]
    | cons entry rest ih => simp [allNamed, ih]
  rw [Node.isNamed, Bool.and_eq_true, hall]

theorem mem_of_lookup {name : String} {node : Node} {entries : Entries}
    (h : entries.lookup name = some node) : (name, node) ∈ entries := by
  obtain ⟨before, later, rfl, -⟩ := List.lookup_eq_some_iff.1 h
  exact List.mem_append_right _ List.mem_cons_self

theorem Node.isNamed_child {n child : Node} {name : String} (h : n.isNamed = true)
    (hc : n.child? name = some child) : child.isNamed = true := by
  cases n with
  | directory entries => exact (isNamed_directory_iff.1 h).2 _ (mem_of_lookup hc)
  | file _ _ => cases hc
  | link _ => cases hc

/-! ## Changing entries -/

section Change

variable {entries : Entries} {name : String} {node : Node}

theorem keys_setEntry (name : String) (node : Node) (entries : Entries) :
    (setEntry name node entries).map (·.1) =
      if name ∈ entries.map (·.1) then entries.map (·.1) else entries.map (·.1) ++ [name] := by
  induction entries with
  | nil => rfl
  | cons entry rest ih =>
      by_cases h : entry.1 = name
      · simp [setEntry, h]
      · simp only [setEntry, if_neg h, List.map_cons, ih, List.mem_cons, Ne.symm h, false_or]
        split <;> rfl

theorem mem_setEntry {entry : String × Node} (h : entry ∈ setEntry name node entries) :
    entry = (name, node) ∨ entry ∈ entries := by
  induction entries with
  | nil => exact .inl (List.mem_singleton.1 h)
  | cons first rest ih =>
      unfold setEntry at h
      split at h
      · exact (List.mem_cons.1 h).imp_right (List.mem_cons_of_mem _)
      · rcases List.mem_cons.1 h with rfl | h
        · exact .inr List.mem_cons_self
        · exact (ih h).imp_right (List.mem_cons_of_mem _)

theorem isNamed_setEntry (h : (Node.directory entries).isNamed = true) (hnode : node.isNamed = true)
    (hname : isSpelled name = true → (Component.name name).isStep = true) :
    (Node.directory (setEntry name node entries)).isNamed = true := by
  obtain ⟨hfitting, hnodes⟩ := isNamed_directory_iff.1 h
  obtain ⟨hnodup, hsteps⟩ := fitting_iff.1 hfitting
  refine isNamed_directory_iff.2 ⟨?_, fun entry he => ?_⟩
  · rw [keys_setEntry]
    split
    · exact hfitting
    · next hnew =>
      refine fitting_iff.2 ⟨?_, fun other hother => ?_⟩
      · refine List.nodup_append.2 ⟨hnodup, by simp, fun other hother last hlast heq => hnew ?_⟩
        rwa [← List.mem_singleton.1 hlast, ← heq]
      · rcases List.mem_append.1 hother with hold | hlast
        · exact hsteps other hold
        · rw [List.mem_singleton.1 hlast]
          exact hname
  · rcases mem_setEntry he with rfl | he
    · exact hnode
    · exact hnodes entry he

theorem isNamed_eraseEntry (h : (Node.directory entries).isNamed = true) :
    (Node.directory (eraseEntry name entries)).isNamed = true := by
  obtain ⟨hfitting, hnodes⟩ := isNamed_directory_iff.1 h
  obtain ⟨hnodup, hsteps⟩ := fitting_iff.1 hfitting
  have hfewer : (eraseEntry name entries).Sublist entries := List.filter_sublist
  exact isNamed_directory_iff.2 ⟨fitting_iff.2 ⟨hnodup.sublist (hfewer.map _), fun other hother =>
    hsteps other ((hfewer.map _).subset hother)⟩, fun entry he => hnodes entry (hfewer.subset he)⟩

end Change

/-- A change that keeps the names of a directory fit keeps those of a tree so, wherever it is
made. -/
theorem Node.isNamed_editAt {change : Entries → Entries}
    (hchange : ∀ entries, (directory entries).isNamed = true →
      (directory (change entries)).isNamed = true) (place : Position) :
    ∀ {n : Node}, n.isNamed = true → (n.editAt change place).isNamed = true := by
  induction place with
  | nil =>
      intro n h
      cases n with
      | directory entries => exact hchange entries h
      | file _ _ => rfl
      | link _ => rfl
  | cons name rest ih =>
      intro n h
      unfold editAt
      split
      · next child hc =>
        cases n with
        | directory entries =>
            have hold := (fitting_iff.1 (isNamed_directory_iff.1 h).1).2 name
              (List.mem_map_of_mem (mem_of_lookup hc))
            exact isNamed_setEntry h (ih (isNamed_child h hc)) hold
        | file _ _ => cases hc
        | link _ => cases hc
      · exact h

theorem Node.isNamed_nodeAt {place : Position} : ∀ {n node : Node}, n.isNamed = true →
    n.nodeAt? place = some node → node.isNamed = true := by
  induction place with
  | nil =>
      intro n node h hn
      cases hn
      exact h
  | cons name rest ih =>
      intro n node h hn
      obtain ⟨child, hc, hn⟩ := Option.bind_eq_some_iff.1 hn
      exact ih (isNamed_child h hc) hn

/-! ## Names from paths -/

theorem isStep_of_mem_pieces {text name : String} (h : name ∈ pieces text) (hdot : name ≠ ".")
    (hdots : name ≠ "..") : (Component.name name).isStep = true := by
  obtain ⟨hname, hne⟩ := List.mem_filter.1 h
  obtain ⟨segment, hsegment, rfl⟩ := List.mem_map.1 hname
  have hslash := slash_not_mem_of_mem_splitOn hsegment
  simp only [Component.isStep, String.toList_ofList, List.contains_eq_mem]
  simp_all

theorem isStep_of_locateTarget {t : Tree} {path : Path} {dir : Spot} {name : String} {slash : Bool}
    (h : locateTarget t path = .ok ⟨dir, some name, slash⟩) :
    (Component.name name).isStep = true := by
  unfold locateTarget at h
  obtain ⟨_, -, h⟩ := of_bind_eq_ok h
  dsimp only at h
  split at h
  · cases h
  · next last hlast =>
    obtain ⟨_, -, h⟩ := of_bind_eq_ok h
    split at h
    · split at h
      · cases h
      · next hdots =>
        split at h
        · cases h
        · cases h
          simp only [Bool.or_eq_true, decide_eq_true_eq, not_or] at hdots
          exact isStep_of_mem_pieces (List.mem_of_getLast? hlast) hdots.1 hdots.2
    · cases h

/-- The name of a file for writing is the last segment of the path or of a link that it leads to. -/
theorem isStep_of_walkToFile {t : Tree} {links : Nat} {dir spot : Spot} {slash : Bool}
    {todo : List String} {name : String} (htodo : ∀ step ∈ todo, ∃ text, step ∈ pieces text)
    (h : walkToFile t links dir slash todo = .ok (spot, name)) :
    (Component.name name).isStep = true := by
  have hstep : ∀ {step rest}, (∀ other ∈ step :: rest, ∃ text, other ∈ pieces text) →
      step ≠ "." → step ≠ ".." → (Component.name step).isStep = true := by
    intro step rest htodo hdot hdots
    obtain ⟨text, htext⟩ := htodo step List.mem_cons_self
    exact isStep_of_mem_pieces htext hdot hdots
  fun_induction walkToFile t links dir slash todo with
  | case1 => cases h
  | case2 _ _ _ _ ih => exact ih (fun step hs => htodo step (List.mem_cons_of_mem _ hs)) h
  | case3 _ _ _ _ _ ih => exact ih (fun step hs => htodo step (List.mem_cons_of_mem _ hs)) h
  | case4 => cases h
  | case5 => cases h
  | case6 => cases h; exact hstep htodo ‹_› ‹_›
  | case7 => cases h
  | case8 => cases h; exact hstep htodo ‹_› ‹_›
  | case9 => cases h
  | case10 => rename_i ih; exact ih (fun step hs => htodo step (List.mem_cons_of_mem _ hs)) h
  | case11 => cases h
  | case12 =>
      rename_i ih
      refine ih (fun step hs => ?_) h
      rcases List.mem_append.1 hs with hs | hs
      · exact ⟨_, hs⟩
      · exact htodo step (List.mem_cons_of_mem _ hs)

theorem isStep_of_locateFile {t : Tree} {path : Path} {dir : Spot} {name : String}
    (h : locateFile t path = .ok (dir, name)) : (Component.name name).isStep = true := by
  unfold locateFile at h
  obtain ⟨_, -, h⟩ := of_bind_eq_ok h
  exact isStep_of_walkToFile (fun _ hstep => ⟨_, hstep⟩) h

theorem isStep_of_locateLink {t : Tree} {path : Path} {destination : String} {dir : Spot}
    {name : String} {slash : Bool}
    (h : locateLink t path destination = .ok ⟨dir, some name, slash⟩) :
    (Component.name name).isStep = true := by
  unfold locateLink at h
  dsimp only at h
  split at h
  · cases h
  · obtain ⟨_, -, h⟩ := of_bind_eq_ok h
    exact isStep_of_locateTarget h

/-- Where a walk arrives, each directory above has the entry that was followed. -/
theorem roams_entries {t : Tree} :
    Roams t fun s => ∀ e ∈ s.above, e.1 ∈ e.2.entries.map (·.1) where
  top _ he := by cases he
  up {s} hs := by
    obtain ⟨here, above⟩ := s
    cases above with
    | nil => exact hs
    | cons e above => exact fun f hf => hs f (List.mem_cons_of_mem _ hf)
  down {s name next} hs hd := by
    obtain ⟨child, hc, rfl⟩ := Option.map_eq_some_iff.1 hd
    intro e he
    rcases List.mem_cons.1 he with rfl | he
    · exact List.mem_map.2 ⟨_, mem_of_lookup hc, rfl⟩
    · exact hs e he

theorem isStep_freshName (entries : Entries) :
    (Component.name (freshName entries)).isStep = true := by
  unfold freshName
  dsimp only
  generalize Option.getD _ 0 = n
  have hdigits : '/' ∉ Nat.toDigits 10 n := fun hslash =>
    absurd (Nat.isDigit_of_mem_toDigits (by decide) (by decide) hslash) (by decide)
  refine Component.isStep_of_length ?_ ?_
  · simp only [String.toList_append, List.mem_append, not_or]
    exact ⟨by decide, by simpa using hdigits⟩
  · rw [String.length_append]
    exact Nat.lt_of_lt_of_le (by decide : 2 < ".tmp".length) (Nat.le_add_right _ _)

/-! ## Operations -/

theorem isNamed_empty : Tree.empty.root.isNamed = true := by decide +kernel

theorem isNamed_locate {t : Tree} (h : t.root.isNamed = true) {path : Path} {spot : Spot}
    (hl : locate t path = .ok spot) : spot.All fun n => n.isNamed = true :=
  (roams_all (fun _ _ _ => Node.isNamed_child) h).locate hl

section Operations

variable {t : Tree} (h : t.root.isNamed = true)

include h

theorem isNamed_put (dir : Position) {name : String} {node : Node} (hnode : node.isNamed = true)
    (hname : isSpelled name = true → (Component.name name).isStep = true) :
    (t.put dir name node).root.isNamed = true :=
  Node.isNamed_editAt (fun _ hentries => isNamed_setEntry hentries hnode hname) dir h

theorem isNamed_erase (dir : Position) (name : String) : (t.erase dir name).root.isNamed = true :=
  Node.isNamed_editAt (fun _ => isNamed_eraseEntry) dir h

theorem isNamed_makeDirectory {path : Path} {made : Tree} (hmade : makeDirectory path t = .ok made) :
    made.root.isNamed = true := by
  unfold makeDirectory at hmade
  obtain ⟨⟨dir, name?, slash⟩, ht, hmade⟩ := of_bind_eq_ok hmade
  cases name? with
  | none => cases hmade
  | some name =>
      dsimp only at hmade
      split at hmade
      · cases hmade
      · cases hmade
        exact isNamed_put h dir.position rfl fun _ => isStep_of_locateTarget ht

theorem isNamed_makeMissing (fuel : Nat) (path : Path) :
    (makeMissing fuel path t).2.root.isNamed = true := by
  have habove : ∀ {fuel path t result made}, t.root.isNamed = true →
      (∀ parent, (makeMissing fuel parent t).2.root.isNamed = true) →
      (Option.map (fun parent => makeMissing fuel parent t) (Path.parent? path)).getD (.ok (), t) =
        (result, made) → made.root.isNamed = true := by
    intro fuel path t result made h ih hmade
    cases hp : path.parent? with
    | none =>
        rw [hp] at hmade
        cases hmade
        exact h
    | some parent =>
        rw [hp] at hmade
        have := ih parent
        rwa [show makeMissing fuel parent t = (result, made) from hmade] at this
  fun_induction makeMissing fuel path t with
  | case1 => exact h
  | case2 => exact h
  | case3 _ _ _ _ made hmade => exact isNamed_makeDirectory h hmade
  | case4 _ _ _ _ _ _ made hmade ih => exact habove h (fun parent => ih parent h) hmade
  | case5 _ _ _ _ _ made hmade done hdone ih =>
      exact isNamed_makeDirectory (habove h (fun parent => ih parent h) hmade) hdone
  | case6 _ _ _ _ _ made hmade _ _ ih => exact habove h (fun parent => ih parent h) hmade
  | case7 => exact h

theorem isNamed_makeDirectories (path : Path) : (makeDirectories path t).2.root.isNamed = true :=
  isNamed_makeMissing h _ path

theorem isNamed_enterDirectory (refused : WriteStep → Option SystemError) (dir : Path) :
    (enterDirectory refused dir t).2.root.isNamed = true := by
  unfold enterDirectory
  split
  · exact h
  · exact isNamed_makeDirectories h dir

theorem isNamed_rename {dir : Position} {name : String} {path : Path} {moved : Tree}
    (hmoved : rename dir name path t = .ok moved) : moved.root.isNamed = true := by
  unfold rename at hmoved
  dsimp only at hmoved
  split at hmoved
  · cases hmoved
  · obtain ⟨⟨parent, last?, slash⟩, ht, hmoved⟩ := of_bind_eq_ok hmoved
    dsimp only at hmoved
    split at hmoved
    · cases hmoved
    · cases hmoved
    · next last node hn =>
      split at hmoved
      · cases hmoved
      · split at hmoved
        · cases hmoved
        · cases hmoved
          exact isNamed_put (isNamed_erase h dir name) parent.position (Node.isNamed_nodeAt h hn)
            fun _ => isStep_of_locateTarget ht

theorem isNamed_replaceFrom (refused : WriteStep → Option SystemError) (dir : Spot) (path : Path)
    (content : String) : (replaceFrom refused dir path content t).2.root.isNamed = true := by
  have hstamped : ({ t with clock := t.clock + 1 } : Tree).root.isNamed = true := h
  have hfile : (Node.file content.toUTF8 (t.clock + 1)).isNamed = true := rfl
  have hbuilt := isNamed_put hstamped dir.position hfile fun _ => isStep_freshName dir.here.entries
  unfold replaceFrom
  dsimp only
  split
  · next done hmoved =>
    split at hmoved
    · cases hmoved
    · exact isNamed_rename hbuilt hmoved
  · exact isNamed_erase hbuilt _ _

theorem isNamed_writeUnless (refused : WriteStep → Option SystemError) (path : Path)
    (content : String) : (writeUnless refused path content t).2.root.isNamed = true := by
  have hentered := isNamed_enterDirectory h refused path.directory
  unfold writeUnless
  dsimp only
  split
  · next heq => rwa [heq] at hentered
  · next heq =>
    rw [heq] at hentered
    split
    · exact hentered
    · exact isNamed_replaceFrom hentered refused _ path content

theorem isNamed_overwrite (path : Path) (bytes : ByteArray) :
    (overwrite path bytes t).2.root.isNamed = true := by
  unfold overwrite
  split
  · exact h
  · next dir name hl =>
    have hstamped : ({ t with clock := t.clock + 1 } : Tree).root.isNamed = true := h
    exact isNamed_put hstamped _ rfl fun _ => isStep_of_locateFile hl

theorem isNamed_setModified (path : Path) (time : Timestamp) :
    (setModified path time t).2.root.isNamed = true := by
  unfold setModified
  split
  · next bytes _ name dir above hl =>
    have hdir := ((isNamed_locate h hl).2 _ List.mem_cons_self)
    have hentry := roams_entries.locate hl _ List.mem_cons_self
    refine isNamed_put h _ rfl ?_
    cases dir with
    | directory entries => exact (fitting_iff.1 (isNamed_directory_iff.1 hdir).1).2 name hentry
    | file _ _ => cases hentry
    | link _ => cases hentry
  · exact h
  · exact h

theorem isNamed_remove (path : Path) : (remove path t).2.root.isNamed = true := by
  unfold remove
  split
  · exact h
  · exact h
  · split
    · exact h
    · exact h
    · split
      · exact h
      · exact isNamed_erase h _ _

theorem isNamed_makeLink (path : Path) (destination : String) :
    (makeLink path destination t).2.root.isNamed = true := by
  unfold makeLink
  split
  · exact h
  · exact h
  · next dir name slash hl =>
    split
    · exact h
    · split
      · exact h
      · exact isNamed_put h _ rfl fun _ => isStep_of_locateLink hl

theorem isNamed_makeDirectoriesAt (path : Path) :
    (makeDirectoriesAt path t).2.root.isNamed = true := by
  have hmade := isNamed_makeDirectories h path
  unfold makeDirectoriesAt
  split <;> next heq => rwa [heq] at hmade

end Operations

end CompileWatch.Disk
