import CompileWatch.Proofs.Effect
import CompileWatch.Proofs.Path.Joining
import CompileWatch.Storage.Disk
import Mathlib.Data.List.Basic

/-!
# Walks through directories

A walk never leaves the tree it started in, so what holds of the top and is kept
by each move holds wherever a walk arrives (`Roams.locate`). And a walk goes on
from a directory as if it had started there, only with fewer links left to follow
(`walk_append`). An entry of a directory is therefore met where the directory was
met, and if it is a directory and no link, it is the node that bears its name
there (`locate_entry`): links on the way to a directory do not matter for what is
below it.
-/

namespace CompileWatch.Disk

open CompileWatch.Path

theorem walk_of_locate {t : Tree} {path : Path} {spot : Spot} (h : locate t path = .ok spot) :
    walk t true linkLimit (startOf t path.text t.home) (steps path.text) = .ok spot := by
  unfold locate at h
  obtain ⟨_, -, hw⟩ := of_bind_eq_ok h
  exact hw

/-! ## Walks stay within the tree -/

/-- Whether a property of spots holds at the top of a tree and after each move. -/
structure Roams (t : Tree) (P : Spot → Prop) : Prop where
  top : P t.top
  up : ∀ {s}, P s → P s.up
  down : ∀ {s name next}, P s → s.down? name = some next → P next

namespace Roams

variable {t : Tree} {P : Spot → Prop} (hP : Roams t P)

include hP

theorem home : P t.home := by
  have htop := hP.top
  unfold Tree.home
  generalize t.top = s at htop
  generalize homePosition = names
  induction names generalizing s with
  | nil => exact htop
  | cons name rest ih =>
      refine ih _ ?_
      show P ((s.down? name).getD s)
      cases hd : s.down? name with
      | none => exact htop
      | some next => exact hP.down htop hd

theorem startOf {dir : Spot} (hdir : P dir) (text : String) : P (startOf t text dir) := by
  unfold Disk.startOf
  split
  · exact hP.top
  · exact hdir

theorem walk {follow : Bool} {links : Nat} {dir spot : Spot} {steps : List String} (hdir : P dir)
    (hw : walk t follow links dir steps = .ok spot) : P spot := by
  fun_induction Disk.walk t follow links dir steps with
  | case1 => cases hw; exact hdir
  | case2 _ _ _ ih => exact ih hdir hw
  | case3 _ _ _ _ ih => exact ih (hP.up hdir) hw
  | case4 => cases hw
  | case5 => cases hw
  | case6 _ _ _ _ _ _ _ next hd _ _ ih => exact ih (hP.down hdir hd) hw
  | case7 _ _ _ _ _ _ next hd => cases hw; exact hP.down hdir hd
  | case8 => cases hw
  | case9 _ _ _ _ _ _ _ next hd => cases hw; exact hP.down hdir hd
  | case10 => cases hw
  | case11 dir _ _ _ _ _ _ _ target _ _ _ ih => exact ih (hP.startOf hdir target) hw

theorem locate {path : Path} {spot : Spot} (hl : locate t path = .ok spot) : P spot :=
  hP.walk (hP.startOf hP.home path.text) (walk_of_locate hl)

end Roams

/-- Whether the node of a spot and all directories above it have a property. -/
def Spot.All (P : Node → Prop) (s : Spot) : Prop := P s.here ∧ ∀ e ∈ s.above, P e.2

theorem Spot.All.up {P : Node → Prop} {s : Spot} (h : s.All P) : s.up.All P := by
  obtain ⟨here, above⟩ := s
  cases above with
  | nil => exact h
  | cons e above =>
      exact ⟨h.2 e List.mem_cons_self, fun f hf => h.2 f (List.mem_cons_of_mem _ hf)⟩

theorem Spot.All.down {P : Node → Prop} (hP : ∀ n name child, P n → n.child? name = some child → P child)
    {s next : Spot} {name : String} (h : s.All P) (hd : s.down? name = some next) : next.All P := by
  obtain ⟨child, hc, rfl⟩ := Option.map_eq_some_iff.1 hd
  refine ⟨hP _ _ _ h.1 hc, fun e he => ?_⟩
  rcases List.mem_cons.1 he with rfl | he
  · exact h.1
  · exact h.2 e he

/-- What holds of the root and passes to children holds wherever a walk arrives. -/
theorem roams_all {t : Tree} {P : Node → Prop}
    (hP : ∀ n name child, P n → n.child? name = some child → P child) (h : P t.root) :
    Roams t (Spot.All P) where
  top := ⟨h, fun _ he => by cases he⟩
  up := Spot.All.up
  down := Spot.All.down hP

/-! ## Walks to entries -/

theorem walk_of_dot {t : Tree} {links : Nat} {dir spot : Spot} {steps : List String}
    (h : walk t true links dir (steps ++ ["."]) = .ok spot) :
    walk t true links dir steps = .ok spot := by
  fun_induction walk t true links dir steps with
  | case1 => simpa [walk] using h
  | case2 links dir rest ih => exact ih (by rwa [List.cons_append, walk, if_pos rfl] at h)
  | case3 links dir rest hdot ih =>
      exact ih (by rwa [List.cons_append, walk, if_neg hdot, if_pos rfl] at h)
  | case4 links dir step rest hdot hdots hlong =>
      rwa [List.cons_append, walk, if_neg hdot, if_neg hdots, if_pos hlong] at h
  | case5 links dir step rest hdot hdots hshort hdown =>
      rw [List.cons_append, walk, if_neg hdot, if_neg hdots, if_neg hshort, hdown] at h
      cases h
  | case6 links dir step rest hdot hdots hshort next hdown entries hhere ih =>
      rw [List.cons_append, walk, if_neg hdot, if_neg hdots, if_neg hshort, hdown] at h
      simp only [hhere] at h
      exact ih h
  | case7 links dir step hdot hdots hshort next hdown bytes time hhere =>
      rw [List.cons_append, walk, if_neg hdot, if_neg hdots, if_neg hshort, hdown] at h
      simp only [hhere] at h
      cases h
  | case8 links dir step rest hdot hdots hshort next hdown bytes time hhere =>
      rw [List.cons_append, walk, if_neg hdot, if_neg hdots, if_neg hshort, hdown] at h
      simp [hhere] at h
  | case9 links dir step rest hdot hdots hshort next hdown target hhere hlast => simp at hlast
  | case10 dir step rest hdot hdots hshort next hdown target hhere hlast =>
      rw [List.cons_append, walk, if_neg hdot, if_neg hdots, if_neg hshort, hdown] at h
      simp [hhere] at h
  | case11 dir step rest hdot hdots hshort next hdown target hhere hlast links ih =>
      rw [List.cons_append, walk, if_neg hdot, if_neg hdots, if_neg hshort, hdown] at h
      simp only [hhere] at h
      rw [if_neg (by simp), ← List.append_assoc] at h
      exact ih h

/-- What comes after a directory is walked from there, with the links that are left. -/
theorem walk_append {t : Tree} {links : Nat} {dir spot : Spot} {steps : List String}
    (h : walk t true links dir steps = .ok spot) {nodes : Entries}
    (hspot : spot.here = .directory nodes) :
    ∃ left, ∀ follow rest, rest ≠ [] →
      walk t follow links dir (steps ++ rest) = walk t follow left spot rest := by
  fun_induction walk t true links dir steps with
  | case1 links dir =>
      cases h
      exact ⟨links, fun _ _ _ => rfl⟩
  | case2 links dir rest ih =>
      obtain ⟨left, ih⟩ := ih h
      exact ⟨left, fun follow more hmore => by
        rw [List.cons_append, walk, if_pos rfl, ih follow more hmore]⟩
  | case3 links dir rest hdot ih =>
      obtain ⟨left, ih⟩ := ih h
      exact ⟨left, fun follow more hmore => by
        rw [List.cons_append, walk, if_neg hdot, if_pos rfl, ih follow more hmore]⟩
  | case4 => cases h
  | case5 => cases h
  | case6 links dir step rest hdot hdots hshort next hdown entries hhere ih =>
      obtain ⟨left, ih⟩ := ih h
      refine ⟨left, fun follow more hmore => ?_⟩
      rw [List.cons_append, walk, if_neg hdot, if_neg hdots, if_neg hshort, hdown]
      simp only [hhere]
      exact ih follow more hmore
  | case7 links dir step hdot hdots hshort next hdown bytes time hhere =>
      cases h
      rw [hhere] at hspot
      cases hspot
  | case8 => cases h
  | case9 links dir step rest hdot hdots hshort next hdown target hhere hlast => simp at hlast
  | case10 => cases h
  | case11 dir step rest hdot hdots hshort next hdown target hhere hlast links ih =>
      obtain ⟨left, ih⟩ := ih h
      refine ⟨left, fun follow more hmore => ?_⟩
      rw [List.cons_append, walk, if_neg hdot, if_neg hdots, if_neg hshort, hdown]
      simp only [hhere]
      rw [if_neg (by simp [hmore]), ← List.append_assoc]
      exact ih follow more hmore

/-! ## Texts of entries -/

theorem pieces_append_slash {text joined : String} {front rest : List Char}
    (htext : text.toList = front ∨ text.toList = front ++ ['/'])
    (hjoined : joined.toList = front ++ '/' :: rest) (hslash : '/' ∉ rest) (hne : rest ≠ []) :
    pieces joined = pieces text ++ [String.ofList rest] := by
  have hfront : pieces text = ((front.splitOn '/').map String.ofList).filter (· ≠ "") := by
    unfold pieces
    rcases htext with htext | htext
    · rw [htext]
    · rw [htext, List.splitOn_append_cons_self, List.splitOn_nil, List.map_append, List.filter_append]
      simp
  rw [hfront, pieces, hjoined, List.splitOn_append_cons_self, List.splitOn_eq_singleton hslash,
    List.map_append, List.filter_append]
  simp [hne]

section Entry

variable {path : Path} {name : String} (htext : path.text ≠ "")
  (hname : (Component.name name).isStep = true)

include htext hname

theorem toList_entry : ∃ front,
    (path.text.toList = front ∨ path.text.toList = front ++ ['/']) ∧
      (path.join ⟨name⟩).text.toList = front ++ '/' :: name.toList :=
  toList_join htext (isAbsolute_of_isStep (c := .name name) hname)

theorem steps_join : steps (path.join ⟨name⟩).text = pieces path.text ++ [name] := by
  obtain ⟨hslash, hne, -, -⟩ := segment_of_isStep hname
  change '/' ∉ name.toList at hslash
  change name.toList ≠ [] at hne
  obtain ⟨front, hfront, hjoined⟩ := toList_entry htext hname
  have hend : endsInSlash (path.join ⟨name⟩).text = false := by
    rw [endsInSlash, hjoined, List.getLast?_append_of_ne_nil _ (by simp), decide_eq_false_iff_not,
      List.getLast?_cons_of_ne_nil hne]
    exact fun hlast => hslash (List.mem_of_getLast? hlast)
  rw [steps, hend, if_neg (by decide), pieces_append_slash hfront hjoined hslash hne,
    String.ofList_toList]

theorem startOf_join (t : Tree) (dir : Spot) :
    startOf t (path.join ⟨name⟩).text dir = startOf t path.text dir := by
  obtain ⟨front, hfront, hjoined⟩ := toList_entry htext hname
  have hsame : (path.join ⟨name⟩).text.startsWith "/" = path.text.startsWith "/" := by
    rw [Bool.eq_iff_iff, String.startsWith_string_iff, String.startsWith_string_iff, hjoined]
    show ['/'] <+: _ ↔ ['/'] <+: _
    rcases hfront with hfront | hfront
    · rw [hfront]
      cases front with
      | nil => exact absurd (String.toList_eq_nil_iff.1 hfront) htext
      | cons c front => simp
    · rw [hfront]
      cases front with
      | nil => simp
      | cons c front => simp
  rw [startOf, startOf, hsame]

end Entry

/-! ## Directories among entries -/

section Entries

variable {t : Tree} {path : Path} {nodes : Entries} {above : List (String × Node)}
  (hl : locate t path = .ok ⟨.directory nodes, above⟩)

include hl

theorem text_ne_of_locate : path.text ≠ "" := by
  intro hempty
  unfold locate checkText at hl
  rw [hempty] at hl
  cases hl

/-- An entry of a directory is met there, however it is spelled. -/
theorem exists_walk_entry {name : String} (hname : (Component.name name).isStep = true) :
    ∃ left, ∀ follow, walk t follow linkLimit (startOf t (path.join ⟨name⟩).text t.home)
      (steps (path.join ⟨name⟩).text) = walk t follow left ⟨.directory nodes, above⟩ [name] := by
  have htext := text_ne_of_locate hl
  have hwalk : walk t true linkLimit (startOf t path.text t.home) (pieces path.text) =
      .ok ⟨.directory nodes, above⟩ := by
    have hwalk := walk_of_locate hl
    unfold steps at hwalk
    split at hwalk
    · exact walk_of_dot hwalk
    · exact hwalk
  obtain ⟨left, hleft⟩ := walk_append hwalk rfl
  refine ⟨left, fun follow => ?_⟩
  rw [steps_join htext hname, startOf_join htext hname]
  exact hleft follow [name] (by simp)

/-- An entry that is no link is met right below its directory. -/
theorem spot_of_entry {name : String} (hname : (Component.name name).isStep = true)
    (hlink : isSymlink t (path.join ⟨name⟩) = false) {spot : Spot}
    (hs : locate t (path.join ⟨name⟩) = .ok spot) :
    nodes.lookup name = some spot.here ∧ spot.above = (name, .directory nodes) :: above := by
  obtain ⟨left, hwalk⟩ := exists_walk_entry hl hname
  have hdot : name ≠ "." ∧ name ≠ ".." := by
    constructor <;> rintro rfl <;> exact absurd hname (by decide)
  obtain ⟨_, hc, -⟩ := of_bind_eq_ok hs
  have hs := walk_of_locate hs
  have hitself : locateItself t (path.join ⟨name⟩) =
      walk t false left ⟨.directory nodes, above⟩ [name] := by
    rw [locateItself, hc, ← hwalk]
    rfl
  rw [isSymlink, hitself, walk, if_neg hdot.1, if_neg hdot.2] at hlink
  rw [hwalk, walk, if_neg hdot.1, if_neg hdot.2] at hs
  by_cases hlong : nameLimit < name.utf8ByteSize
  · rw [if_pos hlong] at hs
    cases hs
  · rw [if_neg hlong] at hs hlink
    cases hd : (⟨.directory nodes, above⟩ : Spot).down? name with
    | none => rw [hd] at hs; cases hs
    | some next =>
        obtain ⟨child, hchild, rfl⟩ := Option.map_eq_some_iff.1 hd
        rw [hd] at hs hlink
        have hspot : spot = ⟨child, (name, .directory nodes) :: above⟩ := by
          cases child with
          | directory entries => simpa [walk, eq_comm] using hs
          | file bytes time => simpa [eq_comm] using hs
          | link target => simp at hlink
        rw [hspot]
        exact ⟨hchild, rfl⟩

theorem locate_entry {name : String} (hname : (Component.name name).isStep = true)
    (hdir : isDir t (path.join ⟨name⟩) = true) (hlink : isSymlink t (path.join ⟨name⟩) = false) :
    ∃ child above, nodes.lookup name = some child ∧
      locate t (path.join ⟨name⟩) = .ok ⟨child, above⟩ := by
  cases hs : locate t (path.join ⟨name⟩) with
  | error e => rw [isDir, hs] at hdir; cases hdir
  | ok spot => exact ⟨spot.here, spot.above, (spot_of_entry hl hname hlink hs).1, rfl⟩

end Entries

end CompileWatch.Disk
