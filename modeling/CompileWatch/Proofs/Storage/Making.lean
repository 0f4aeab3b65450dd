import CompileWatch.Proofs.Storage.Named
import CompileWatch.Proofs.Storage.Routes
import Mathlib.Data.List.Nodup
import Mathlib.Data.List.Perm.Subperm
import Mathlib.Logic.Relation

/-!
# Making directories

Whatever an operation makes, removes or replaces is an entry that a path names: the
last name of the path, in the directory that the names before it lead to (`Names`).

Making the missing directories of a path only adds to a tree. All that stood in it
still stands, and each directory that is new is one that the path or a parent of it
leads to (`Prepared`). This holds of one directory and carries over from parent to
path, and therefore of them all, also when the making stops half way.
-/

namespace CompileWatch.Disk

open CompileWatch.Path

/-! ## Entries that paths name -/

/-- Whether a path names an entry of the directory at a position. -/
structure Names (m : Layout) (path : Path) (dir : Position) (name : String) : Prop where
  text : checkText path.text = .ok ()
  last : (pieces path.text).getLast? = some name
  entry : IsEntryName name
  route : Route m true linkLimit (startAt path.text (homeOn m)) (pieces path.text).dropLast dir
  directory : m dir = some .directory

namespace Names

variable {m wider : Layout} {path : Path} {dir : Position} {name : String}

theorem pieces_eq (hn : Names m path dir name) :
    pieces path.text = (pieces path.text).dropLast ++ [name] :=
  (List.dropLast_append_getLast? name hn.last).symm

theorem isStep (hn : Names m path dir name) : (Component.name name).isStep = true :=
  isStep_of_mem_pieces (List.mem_of_getLast? hn.last) hn.entry.1 hn.entry.2.1

theorem ne_slash (hn : Names m path dir name) : name ≠ "/" := by
  intro heq
  have hstep := hn.isStep
  rw [heq] at hstep
  exact absurd hstep (by decide)

theorem mono (hn : Names m path dir name)
    (hm : ∀ place shape, m place = some shape → wider place = some shape)
    (hhome : homeOn wider = homeOn m) : Names wider path dir name where
  text := hn.text
  last := hn.last
  entry := hn.entry
  route := hhome ▸ hn.route.mono hm
  directory := hm _ _ hn.directory

theorem leads_directory (hn : Names m path dir name)
    (here : m (dir ++ [name]) = some .directory) : Leads m true path (dir ++ [name]) := by
  refine ⟨hn.text, ?_⟩
  unfold steps
  rw [hn.pieces_eq]
  split
  · rw [List.append_assoc]
    exact hn.route.append hn.directory (by simp) fun _ => .enter hn.entry here (.dot .done)
  · exact hn.route.append hn.directory (by simp) fun _ => .enter hn.entry here .done

theorem leads_file (hn : Names m path dir name) (here : m (dir ++ [name]) = some .file)
    (hslash : endsInSlash path.text = false) : Leads m true path (dir ++ [name]) := by
  refine ⟨hn.text, ?_⟩
  rw [steps, hslash, if_neg (by decide), hn.pieces_eq]
  exact hn.route.append hn.directory (by simp) fun _ => .file hn.entry here

end Names

/-- The working directory is where it was if the change was to a name that could stand in a path. -/
theorem homeOn_eq {m changed : Layout} {dir : Position} {name : String} (hname : name ≠ "/")
    (h : ∀ place, place ≠ dir ++ [name] → changed place = m place) : homeOn changed = homeOn m := by
  refine homeOn_congr fun place => ?_
  rw [h]
  exact fun heq => hname (List.cons.inj (List.append_inj' heq rfl).2).1.symm

theorem names_of_locateTarget {t : Tree} {path : Path} {dir : Spot} {name : String} {slash : Bool}
    (h : locateTarget t path = .ok ⟨dir, some name, slash⟩) :
    dir.StandsIn t ∧ Names t.layout path dir.position name ∧ endsInSlash path.text = slash := by
  unfold locateTarget at h
  obtain ⟨_, hcheck, h⟩ := of_bind_eq_ok h
  dsimp only at h
  split at h
  · cases h
  · next last hlast =>
    obtain ⟨spot, hwalk, h⟩ := of_bind_eq_ok h
    split at h
    · next nodes hhere =>
      split at h
      · cases h
      · next hdots =>
        split at h
        · cases h
        · next hshort =>
          cases h
          have hstands := (roams_standing t).walk (start_standsIn t path.text) hwalk
          have hroute := route_of_walk (start_standsIn t path.text) hwalk
          rw [position_start] at hroute
          simp only [Bool.or_eq_true, decide_eq_true_eq, not_or] at hdots
          refine ⟨hstands, ⟨hcheck, hlast, ⟨hdots.1, hdots.2, Nat.le_of_not_lt hshort⟩, hroute, ?_⟩,
            rfl⟩
          rw [hstands.layout, hhere]
          rfl
    · cases h

/-! ## Fresh names -/

theorem freshName_not_mem (entries : Entries) : freshName entries ∉ entries.map (·.1) := by
  unfold freshName
  dsimp only
  generalize entries.map (·.1) = taken
  cases hfind : (List.range (taken.length + 1)).find? fun n => !taken.contains s!".tmp{n}" with
  | some n =>
      have hfree := List.find?_some hfind
      simpa using hfree
  | none =>
      -- more numbers than names would have to be taken
      have hall := List.find?_eq_none.1 hfind
      have htaken : (List.range (taken.length + 1)).map (fun n => s!".tmp{n}") ⊆ taken := by
        intro name hname
        obtain ⟨n, hn, rfl⟩ := List.mem_map.1 hname
        simpa using hall n hn
      have hinj : Function.Injective fun n : Nat => s!".tmp{n}" := by
        intro a b hab
        have hdigits : Nat.toDigits 10 a = Nat.toDigits 10 b := by
          have hlists := congrArg String.toList hab
          simpa [Nat.toString_eq_ofList_toDigits] using hlists
        rw [← Nat.ofDigitChars_ten_toDigits (n := a), hdigits, Nat.ofDigitChars_ten_toDigits]
      have hlength := (List.subperm_of_subset (List.nodup_range.map hinj) htaken).length_le
      rw [List.length_map, List.length_range] at hlength
      omega

theorem look_freshName {t : Tree} {dir : Spot} (hdir : dir.StandsIn t) :
    t.look (dir.position ++ [freshName dir.here.entries]) = none := by
  have hchild : dir.here.child? (freshName dir.here.entries) = none := by
    rw [Node.child?, List.lookup_eq_none_iff]
    intro entry hentry
    have hne : freshName dir.here.entries ≠ entry.1 := fun heq =>
      freshName_not_mem dir.here.entries (heq ▸ List.mem_map_of_mem hentry)
    simpa using hne
  have hlayout := hdir.layout_child (freshName dir.here.entries)
  rw [hchild] at hlayout
  exact Option.map_eq_none_iff.1 hlayout

/-! ## Making directories -/

/-- Where all items stand that stood before, so do their shapes. -/
theorem layout_kept {t made : Tree}
    (h : ∀ place item, t.look place = some item → made.look place = some item) (place : Position)
    (shape : Shape) (hshape : t.layout place = some shape) : made.layout place = some shape := by
  obtain ⟨item, hitem, rfl⟩ := Option.map_eq_some_iff.1 hshape
  rw [Tree.layout, h place item hitem]
  rfl

/-- Whether a path is another or above it. -/
def Above (dir path : Path) : Prop :=
  Relation.ReflTransGen (fun lower upper => lower.parent? = some upper) path dir

/-- Whether a tree came out of another by making directories that were missing of a path. -/
structure Prepared (path : Path) (t made : Tree) : Prop where
  kept : ∀ place item, t.look place = some item → made.look place = some item
  added : ∀ place item, t.look place = none → made.look place = some item →
    item = .directory ∧ ∃ dir, Above dir path ∧ Leads made.layout true dir place
  home : homeOn made.layout = homeOn t.layout

namespace Prepared

variable {path parent : Path} {t mid made : Tree}

theorem refl (path : Path) (t : Tree) : Prepared path t t where
  kept _ _ h := h
  added place item hnone hsome := by rw [hnone] at hsome; cases hsome
  home := rfl

theorem trans (h : Prepared path t mid) (h' : Prepared path mid made) : Prepared path t made where
  kept place item hitem := h'.kept place item (h.kept place item hitem)
  added place item hnone hsome := by
    cases hmid : mid.look place with
    | none => exact h'.added place item hmid hsome
    | some other =>
        obtain ⟨rfl, dir, habove, hleads⟩ := h.added place other hnone hmid
        rw [h'.kept place _ hmid, Option.some.injEq] at hsome
        exact ⟨hsome.symm, dir, habove, hleads.mono (layout_kept h'.kept) h'.home⟩
  home := h'.home.trans h.home

theorem of_parent (h : Prepared parent t made) (hparent : path.parent? = some parent) :
    Prepared path t made where
  kept := h.kept
  added place item hnone hsome := by
    obtain ⟨hitem, dir, habove, hleads⟩ := h.added place item hnone hsome
    exact ⟨hitem, dir, .head hparent habove, hleads⟩
  home := h.home

end Prepared

theorem of_makeDirectory {path : Path} {t made : Tree} (h : makeDirectory path t = .ok made) :
    ∃ dir name, Names t.layout path dir name ∧ t.look (dir ++ [name]) = none ∧
      ∀ place, made.look place =
        if place = dir ++ [name] then some .directory else t.look place := by
  unfold makeDirectory at h
  obtain ⟨⟨dir, name?, slash⟩, htarget, h⟩ := of_bind_eq_ok h
  cases name? with
  | none => cases h
  | some name =>
      obtain ⟨hstands, hnames, -⟩ := names_of_locateTarget htarget
      dsimp only at h
      split at h
      · cases h
      · next hfree =>
        cases h
        have hlayout : t.layout (dir.position ++ [name]) = none := by
          rw [hstands.layout_child, hfree]
          rfl
        refine ⟨dir.position, name, hnames, Option.map_eq_none_iff.1 hlayout, ?_⟩
        exact look_put hnames.directory (by rw [hlayout]; exact nofun) rfl

theorem prepared_makeDirectory {path : Path} {t made : Tree} (h : makeDirectory path t = .ok made) :
    Prepared path t made := by
  obtain ⟨dir, name, hnames, hfree, hlook⟩ := of_makeDirectory h
  have hkept : ∀ place item, t.look place = some item → made.look place = some item := by
    intro place item hitem
    rw [hlook, if_neg, hitem]
    rintro rfl
    rw [hfree] at hitem
    cases hitem
  have hhome : homeOn made.layout = homeOn t.layout :=
    homeOn_eq hnames.ne_slash fun place hplace => by
      rw [Tree.layout, hlook, if_neg hplace]
      rfl
  refine ⟨hkept, fun place item hnone hsome => ?_, hhome⟩
  rw [hlook] at hsome
  split at hsome
  · next heq =>
    subst heq
    cases hsome
    refine ⟨rfl, path, .refl, (hnames.mono (layout_kept hkept) hhome).leads_directory ?_⟩
    rw [Tree.layout, hlook, if_pos rfl]
    rfl
  · rw [hnone] at hsome
    cases hsome

theorem prepared_makeMissing (fuel : Nat) (path : Path) (t : Tree) :
    Prepared path t (makeMissing fuel path t).2 := by
  -- what is made first is missing of the parent, and therefore of the path
  have hparent : ∀ {fuel path t result made},
      (∀ parent, Prepared parent t (makeMissing fuel parent t).2) →
      (Option.map (fun parent => makeMissing fuel parent t) (Path.parent? path)).getD (.ok (), t) =
        (result, made) → Prepared path t made := by
    intro fuel path t result made ih hmade
    cases hp : path.parent? with
    | none =>
        rw [hp] at hmade
        cases hmade
        exact .refl path t
    | some parent =>
        rw [hp] at hmade
        have hmade : makeMissing fuel parent t = (result, made) := hmade
        have := ih parent
        rw [hmade] at this
        exact this.of_parent hp
  fun_induction makeMissing fuel path t with
  | case1 => exact .refl _ _
  | case2 => exact .refl _ _
  | case3 _ _ _ _ made hmade => exact prepared_makeDirectory hmade
  | case4 _ _ _ _ _ _ made hmade ih => exact hparent ih hmade
  | case5 _ _ _ _ _ made hmade done hdone ih =>
      exact (hparent ih hmade).trans (prepared_makeDirectory hdone)
  | case6 _ _ _ _ _ made hmade _ _ ih => exact hparent ih hmade
  | case7 => exact .refl _ _

theorem prepared_makeDirectories (path : Path) (t : Tree) :
    Prepared path t (makeDirectories path t).2 := prepared_makeMissing _ path t

end CompileWatch.Disk
