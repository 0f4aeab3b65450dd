import CompileWatch.Proofs.Sources.Disk
import CompileWatch.Proofs.Storage.Routes
import CompileWatch.Watch.Versions

/-!
# One path for each file

A search leaves linked directories out, so what it lists stands where its path
spells it: the position of a source is that of the root with the names of the path
below it (`place_of_source`). Sources of different paths therefore lead to different
files, unless one of them is a link itself (`isSymlink_of_sameFile`).

That exception is real. Links to files are not left out, so a file and a link beside
it are two sources, and one edit raises the versions of both
(`linked_file_tracked_twice`).
-/

namespace CompileWatch.Disk

open CompileWatch.Path Sources

variable {t : Tree} {query : Query} {root p q : Path} {place : Position}

/-! ## The files that paths lead to -/

/-- Whether a path leads to the file at a position. -/
def DenotesFile (t : Tree) (path : Path) (place : Position) : Prop :=
  Leads t.layout true path place ∧ t.layout place = some .file

/-- Whether two paths lead to one file. -/
def SameFile (t : Tree) (p q : Path) : Prop :=
  ∃ place, DenotesFile t p place ∧ DenotesFile t q place

theorem SameFile.symm (h : SameFile t p q) : SameFile t q p := by
  obtain ⟨place, hp, hq⟩ := h
  exact ⟨place, hq, hp⟩

/-! ## Sources stand where their paths spell them -/

/-- The path of names below a directory. -/
def pathBelow (root : Path) (names : List String) : Path :=
  names.foldl (fun dir name => dir.join ⟨name⟩) root

theorem pathBelow_concat (root : Path) (names : List String) (name : String) :
    pathBelow root (names ++ [name]) = (pathBelow root names).join ⟨name⟩ := List.foldl_concat ..

/-- A listed entry that is no link, and that leads anywhere, stands right below its directory. -/
theorem position_entry (ht : t.root.isNamed = true) {dir entry : Path} {entries : List Path}
    (hl : list t dir = .ok entries) (he : entry ∈ entries) (hlink : isSymlink t entry = false)
    {spot : Spot} (hs : locate t entry = .ok spot) : ∃ above name, locate t dir = .ok above ∧
      entry = dir.join ⟨name⟩ ∧ spot.position = above.position ++ [name] := by
  obtain ⟨nodes, above, hdir, rfl⟩ := list_eq_ok hl
  obtain ⟨name, hmem, hspelled, rfl⟩ := mem_list he
  have hname := (fitting_iff.1 (fitting_of_locate ht hdir)).2 name hmem hspelled
  obtain ⟨-, habove⟩ := spot_of_entry hdir hname hlink hs
  refine ⟨_, name, hdir, rfl, ?_⟩
  obtain ⟨here, above'⟩ := spot
  obtain rfl : above' = (name, .directory nodes) :: above := habove
  exact Spot.position_down ⟨.directory nodes, above⟩ name here

theorem position_reached (ht : t.root.isNamed = true) {dir : Path}
    (hr : Reached storage query t root dir) : ∀ {spot : Spot}, locate t dir = .ok spot →
      ∃ top names, locate t root = .ok top ∧ dir = pathBelow root names ∧
        spot.position = top.position ++ names := by
  induction hr with
  | refl => exact fun {spot} hs => ⟨spot, [], hs, rfl, (List.append_nil _).symm⟩
  | tail _ hleads ih =>
      intro spot hs
      obtain ⟨entries, hlist, hmem, _, hlink, _⟩ := hleads
      obtain ⟨above, name, habove, rfl, hposition⟩ := position_entry ht hlist hmem hlink hs
      obtain ⟨top, names, htop, rfl, hnames⟩ := ih habove
      refine ⟨top, names ++ [name], htop, (pathBelow_concat root names name).symm, ?_⟩
      rw [hposition, hnames, List.append_assoc]

theorem place_of_source (ht : t.root.isNamed = true) (hp : IsSource storage query t root p)
    (hlink : isSymlink t p = false) (hplace : DenotesFile t p place) :
    ∃ top names, locate t root = .ok top ∧ p = pathBelow root names ∧
      place = top.position ++ names := by
  obtain ⟨dir, entries, hreached, hlist, hmem, -⟩ := hp
  obtain ⟨spot, hs, rfl⟩ := locate_iff.2 hplace.1
  obtain ⟨above, name, habove, rfl, hposition⟩ := position_entry ht hlist hmem hlink hs
  obtain ⟨top, names, htop, rfl, hnames⟩ := position_reached ht hreached habove
  refine ⟨top, names ++ [name], htop, (pathBelow_concat root names name).symm, ?_⟩
  rw [hposition, hnames, List.append_assoc]

/-- Two different sources lead to one file only if one of them is a link. -/
theorem isSymlink_of_sameFile (ht : t.root.isNamed = true) (hp : IsSource storage query t root p)
    (hq : IsSource storage query t root q) (hne : p ≠ q) (hsame : SameFile t p q) :
    isSymlink t p = true ∨ isSymlink t q = true := by
  by_contra hlinks
  rw [not_or, Bool.not_eq_true, Bool.not_eq_true] at hlinks
  obtain ⟨place, hp', hq'⟩ := hsame
  obtain ⟨top, names, htop, rfl, hplace⟩ := place_of_source ht hp hlinks.1 hp'
  obtain ⟨top', names', htop', rfl, hplace'⟩ := place_of_source ht hq hlinks.2 hq'
  obtain rfl : top = top' := Except.ok.inj (htop.symm.trans htop')
  exact hne (congrArg (pathBelow root) (List.append_cancel_left (hplace.symm.trans hplace')))

/-! ## Edits of one file -/

/-- Whether two trees differ at most in the file at a position. -/
structure EditsFile (t edited : Tree) (place : Position) : Prop where
  before : t.layout place = some .file
  after : edited.layout place = some .file
  elsewhere : ∀ other, other ≠ place → edited.look other = t.look other

theorem EditsFile.layout_eq {edited : Tree} (he : EditsFile t edited place) :
    edited.layout = t.layout := by
  funext other
  by_cases hother : other = place
  · rw [hother, he.after, he.before]
  · rw [Tree.layout, he.elsewhere other hother, Tree.layout]

/-- Whether a look at the time of a file raises its version. -/
def Raises (table : VersionTable) (t : Tree) (path : Path) : Prop :=
  ∃ time, modified t path = .ok time ∧ (table.observe path time).1.isSome = true

/-- What an edit raises leads to the file that was edited. -/
theorem denotesFile_of_raises {edited : Tree} (he : EditsFile t edited place)
    {table : VersionTable} (hbefore : ¬ Raises table t p) (hafter : Raises table edited p) :
    DenotesFile t p place := by
  obtain ⟨time, htime, hsome⟩ := hafter
  obtain ⟨target, item, hleads, hlook, hitem⟩ := modified_eq_ok_iff.1 htime
  rw [he.layout_eq] at hleads
  by_cases htarget : target = place
  · subst htarget
    exact ⟨hleads, he.before⟩
  · rw [he.elsewhere target htarget] at hlook
    exact absurd ⟨time, modified_eq_ok_iff.2 ⟨target, item, hleads, hlook, hitem⟩, hsome⟩ hbefore

/-! ## One path for each file -/

/-- Files are tracked under one path each, apart from those that links among the sources lead to:
links to directories are left out of a search, links to files are not. So sources lead to different
files just if those that are links do, and an edit of one file raises the versions of two sources
only if one of the two is a link. -/
theorem one_path_per_file_iff (ht : t.root.isNamed = true) (root : Path) (extension : String)
    (outDir : Option Path) (journal : List LogEntry) :
    let sources := answer (collect storage root extension outDir) ⟨t, journal⟩
    ((∀ p ∈ sources, ∀ q ∈ sources, p ≠ q → ¬ SameFile t p q) ↔
      ∀ p ∈ sources, isSymlink t p = true → ∀ q ∈ sources, p ≠ q → ¬ SameFile t p q) ∧
    (∀ p ∈ sources, ∀ q ∈ sources, p ≠ q → SameFile t p q →
      isSymlink t p = true ∨ isSymlink t q = true) ∧
    ∀ edited place table, EditsFile t edited place → (∀ p ∈ sources, ¬ Raises table t p) →
      ∀ p ∈ sources, ∀ q ∈ sources, p ≠ q → Raises table edited p → Raises table edited q →
        SameFile t p q ∧ (isSymlink t p = true ∨ isSymlink t q = true) := by
  intro sources
  have hsource : ∀ p ∈ sources, IsSource storage ⟨extension, outDir.map root.join⟩ t root p :=
    fun p hp => (mem_collect_iff (looks_storage _) (storage_bounded ht)).1 hp
  have hlinks : ∀ p ∈ sources, ∀ q ∈ sources, p ≠ q → SameFile t p q →
      isSymlink t p = true ∨ isSymlink t q = true := fun p hp q hq hne hsame =>
    isSymlink_of_sameFile ht (hsource p hp) (hsource q hq) hne hsame
  refine ⟨⟨fun hall p hp _ => hall p hp, fun hall p hp q hq hne hsame => ?_⟩, hlinks, ?_⟩
  · rcases hlinks p hp q hq hne hsame with hlink | hlink
    · exact hall p hp hlink q hq hne hsame
    · exact hall q hq hlink p hp hne.symm hsame.symm
  · intro edited place table he hseen p hp q hq hne hraised hraised'
    have hsame : SameFile t p q := ⟨place, denotesFile_of_raises he (hseen p hp) hraised,
      denotesFile_of_raises he (hseen q hq) hraised'⟩
    exact ⟨hsame, hlinks p hp q hq hne hsame⟩

/-- A file with a link to it beside it. -/
def linkedFile : Tree :=
  ⟨.directory [("p", .directory [("a.ts", .file ByteArray.empty 1), ("b.ts", .link "a.ts")])], 0⟩

theorem denotesFile_linkedFile {path : Path} (hpath : path = ⟨"/p/a.ts"⟩ ∨ path = ⟨"/p/b.ts"⟩) :
    DenotesFile linkedFile path ["p", "a.ts"] := by
  refine ⟨?_, rfl⟩
  rcases hpath with rfl | rfl
  · refine ⟨by decide +kernel, ?_⟩
    rw [show startAt "/p/a.ts" _ = [] from if_pos (by decide +kernel),
      show steps "/p/a.ts" = ["p", "a.ts"] by decide +kernel]
    exact .enter (by decide +kernel) rfl (.file (by decide +kernel) rfl)
  · refine ⟨by decide +kernel, ?_⟩
    rw [show startAt "/p/b.ts" _ = [] from if_pos (by decide +kernel),
      show steps "/p/b.ts" = ["p", "b.ts"] by decide +kernel]
    have hlink : linkedFile.layout (["p"] ++ ["b.ts"]) = some (.link "a.ts") := rfl
    refine .enter (by decide +kernel) rfl (.through (by decide +kernel) hlink (fun _ => rfl) ?_)
    rw [show startAt "a.ts" ([] ++ ["p"]) = ["p"] by decide +kernel,
      show steps "a.ts" ++ [] = ["a.ts"] by decide +kernel]
    exact .file (by decide +kernel) rfl

theorem list_linkedFile : list linkedFile ⟨"/p"⟩ = .ok [⟨"/p/a.ts"⟩, ⟨"/p/b.ts"⟩] := by
  have hlocate : locate linkedFile ⟨"/p"⟩ = .ok ⟨.directory
      [("a.ts", .file ByteArray.empty 1), ("b.ts", .link "a.ts")], [("p", linkedFile.root)]⟩ := by
    rw [locate, show checkText "/p" = .ok () by decide +kernel,
      show steps "/p" = ["p"] by decide +kernel,
      show startOf linkedFile "/p" _ = linkedFile.top from if_pos (by decide +kernel)]
    simp [bind, Except.bind, walk, linkedFile, Spot.down?, Tree.top, Node.child?, Node.entries,
      nameLimit]
    decide +kernel
  rw [list, hlocate]
  decide +kernel

theorem isSource_linkedFile {path : Path} (hpath : path = ⟨"/p/a.ts"⟩ ∨ path = ⟨"/p/b.ts"⟩) :
    path ∈ answer (collect storage ⟨"/p"⟩ "ts" none) ⟨linkedFile, []⟩ := by
  have hnamed : linkedFile.root.isNamed = true := by decide +kernel
  refine (mem_collect_iff (looks_storage _) (storage_bounded hnamed)).2
    ⟨⟨"/p"⟩, _, .refl, list_linkedFile, by simpa using hpath, ?_, ?_⟩
  · obtain ⟨⟨here, above⟩, hlocate, hposition⟩ := locate_iff.2 (denotesFile_linkedFile hpath).1
    show isDir linkedFile path = false
    have hlook := look_of_locate hlocate
    rw [hposition] at hlook
    cases here with
    | directory nodes => cases hlook
    | file bytes time => rw [isDir, hlocate]
    | link target => cases hlook
  · rcases hpath with rfl | rfl <;> decide +kernel

theorem one_path_per_file_iff_linkedFile : linkedFile.root.isNamed = true ∧
    (isSymlink linkedFile ⟨"/p/a.ts"⟩ = true ∨ isSymlink linkedFile ⟨"/p/b.ts"⟩ = true) :=
  have hnamed : linkedFile.root.isNamed = true := by decide +kernel
  ⟨hnamed, (one_path_per_file_iff hnamed ⟨"/p"⟩ "ts" none []).2.1
    _ (isSource_linkedFile (.inl rfl)) _ (isSource_linkedFile (.inr rfl)) (by decide +kernel)
    ⟨_, denotesFile_linkedFile (.inl rfl), denotesFile_linkedFile (.inr rfl)⟩⟩

/-- The link is a source beside the file, and one edit raises both of their versions. -/
theorem linked_file_tracked_twice :
    let sources := answer (collect storage ⟨"/p"⟩ "ts" none) ⟨linkedFile, []⟩
    let table := ((VersionTable.mk .empty).track ⟨"/p/a.ts"⟩ (some 1)).track ⟨"/p/b.ts"⟩ (some 1)
    let edited := linkedFile.put ["p"] "a.ts" (.file ByteArray.empty 2)
    ⟨"/p/a.ts"⟩ ∈ sources ∧ ⟨"/p/b.ts"⟩ ∈ sources ∧
      SameFile linkedFile ⟨"/p/a.ts"⟩ ⟨"/p/b.ts"⟩ ∧
      EditsFile linkedFile edited ["p", "a.ts"] ∧
      ¬ Raises table linkedFile ⟨"/p/a.ts"⟩ ∧ ¬ Raises table linkedFile ⟨"/p/b.ts"⟩ ∧
      Raises table edited ⟨"/p/a.ts"⟩ ∧ Raises table edited ⟨"/p/b.ts"⟩ := by
  intro sources table edited
  have hedits : EditsFile linkedFile edited ["p", "a.ts"] := ⟨rfl, rfl, fun other hother =>
    (look_put rfl (fun h => by cases h) rfl other).trans (if_neg hother)⟩
  have hbefore : ∀ path, path = ⟨"/p/a.ts"⟩ ∨ path = ⟨"/p/b.ts"⟩ →
      ¬ Raises table linkedFile path := by
    rintro path hpath ⟨time, htime, hsome⟩
    have hone : modified linkedFile path = .ok 1 :=
      modified_eq_ok_iff.2 ⟨_, _, (denotesFile_linkedFile hpath).1, rfl, rfl⟩
    rw [hone] at htime
    cases htime
    rcases hpath with rfl | rfl
    · exact absurd hsome (by decide +kernel)
    · exact absurd hsome (by decide +kernel)
  have hafter : ∀ path, path = ⟨"/p/a.ts"⟩ ∨ path = ⟨"/p/b.ts"⟩ → Raises table edited path := by
    intro path hpath
    refine ⟨2, modified_eq_ok_iff.2 ⟨["p", "a.ts"], .file ByteArray.empty 2, ?_, rfl, rfl⟩, ?_⟩
    · rw [hedits.layout_eq]
      exact (denotesFile_linkedFile hpath).1
    · rcases hpath with rfl | rfl <;> decide +kernel
  exact ⟨isSource_linkedFile (.inl rfl), isSource_linkedFile (.inr rfl),
    ⟨_, denotesFile_linkedFile (.inl rfl), denotesFile_linkedFile (.inr rfl)⟩, hedits,
    hbefore _ (.inl rfl), hbefore _ (.inr rfl), hafter _ (.inl rfl), hafter _ (.inr rfl)⟩

end CompileWatch.Disk
