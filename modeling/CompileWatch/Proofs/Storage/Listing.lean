import CompileWatch.Proofs.Path.Joining
import CompileWatch.Proofs.Sources.Ascending
import CompileWatch.Proofs.Text.Lines
import CompileWatch.Storage.Remote

/-!
# Listings of remote directories

A remote machine prints the names in a directory one on a line, and the entries are
read from these lines. A carriage return at the end of a name is taken for a part of
the line's ending, so an entry is shown under its name without it, and one whose name
is a carriage return and nothing else is not shown at all (`perm_parseListing`). For
all other names the listing is exact: it holds the entries, each once, in path order
(`listing_exact_iff`).
-/

namespace CompileWatch.Remote

open CompileWatch.Path

/-- Whether a text can be the name of an entry and stand on a line of its own. -/
structure IsEntryName (name : String) : Prop where
  not_dots : name ∉ ["", ".", ".."]
  no_slash : '/' ∉ name.toList
  no_break : '\n' ∉ name.toList

/-- What a machine prints for the names in a directory. -/
def printNames (names : List String) : String := String.join (names.map (· ++ "\n"))

/-- Whether paths are the entries of a directory that have some names: these and no others, each once
and in path order. -/
structure AreEntries (dir : Path) (names : List String) (paths : List Path) : Prop where
  ascending : paths.Pairwise (compare · · = .lt)
  mem_iff : ∀ p, p ∈ paths ↔ ∃ name ∈ names, p = dir.join ⟨name⟩

variable {dir : Path} {name other : String} {names : List String}

theorem IsEntryName.isStep (h : IsEntryName name) : (Component.name name).isStep = true := by
  simp [Component.isStep, h.no_slash, h.not_dots]

/-- Two entries of a directory have two names. -/
theorem join_name_injective (hname : '/' ∉ name.toList) (hother : '/' ∉ other.toList)
    (h : dir.join ⟨name⟩ = dir.join ⟨other⟩) : name = other := by
  have hrelative : ∀ text : String, '/' ∉ text.toList →
      (⟨text⟩ : Path).isAbsolute = false := by
    intro text hslash
    rw [isAbsolute, beq_eq_false_iff_ne]
    intro hhead
    obtain ⟨rest, heq⟩ := List.head?_eq_some_iff.1 hhead
    exact hslash (heq ▸ List.mem_cons_self)
  unfold join at h
  rw [hrelative name hname, hrelative other hother] at h
  simp only [Bool.false_eq_true, if_false] at h
  split at h
  · exact String.append_right_inj _ |>.1 (Path.mk.inj h)
  · exact String.append_right_inj _ |>.1 (Path.mk.inj h)

/-- The names under which entries are shown. -/
def shownNames (names : List String) : List String := (names.map Text.withoutReturn).filter (· ≠ "")

theorem perm_parseListing (dir : Path) (hnames : ∀ name ∈ names, IsEntryName name) :
    (parseListing dir (printNames names)).Perm ((shownNames names).map fun name => dir.join ⟨name⟩) := by
  rw [parseListing, printNames, Text.lines_ended fun name hname => (hnames name hname).no_break]
  exact perm_sort _

theorem slash_not_mem_withoutReturn (h : '/' ∉ name.toList) :
    '/' ∉ (Text.withoutReturn name).toList := by
  rw [Text.withoutReturn, String.toList_ofList, Text.dropCarriageReturn]
  split
  · exact fun hmem => h (List.dropLast_subset _ hmem)
  · exact h

/-- Whether the end of a name is taken for a part of the line's ending. -/
def EndsInReturn (name : String) : Prop := name.toList.getLast? = some '\r'

/-- A name with a carriage return at its end is shown only if there is a longer one that is shown so. -/
theorem exists_longer (hnames : ∀ name ∈ names, IsEntryName name)
    (hexact : AreEntries dir names (parseListing dir (printNames names))) (hname : name ∈ names)
    (hend : EndsInReturn name) :
    ∃ longer ∈ names, EndsInReturn longer ∧ longer.length = name.length + 1 := by
  have hmem := (perm_parseListing dir hnames).subset ((hexact.mem_iff _).2 ⟨name, hname, rfl⟩)
  obtain ⟨shown, hshown, hjoin⟩ := List.mem_map.1 hmem
  obtain ⟨longer, hlonger, rfl⟩ := List.mem_map.1 (List.mem_filter.1 hshown).1
  have hsame : Text.withoutReturn longer = name :=
    join_name_injective (slash_not_mem_withoutReturn (hnames longer hlonger).no_slash)
      (hnames name hname).no_slash hjoin
  by_cases hreturn : EndsInReturn longer
  · obtain ⟨front, hfront⟩ := List.getLast?_eq_some_iff.1 hreturn
    refine ⟨longer, hlonger, hreturn, ?_⟩
    have hdropped : Text.withoutReturn longer = String.ofList front := by
      rw [Text.withoutReturn, Text.dropCarriageReturn, hfront, if_pos List.getLast?_concat,
        List.dropLast_concat]
    rw [← hsame, hdropped, ← String.length_toList, hfront, String.length_ofList]
    simp
  · rw [Text.withoutReturn_eq_self hreturn] at hsame
    exact absurd (hsame ▸ hend) hreturn

/-- Of finitely many names one with a carriage return at its end would have to be the longest. -/
theorem not_endsInReturn (hnames : ∀ name ∈ names, IsEntryName name)
    (hexact : AreEntries dir names (parseListing dir (printNames names))) :
    ∀ name ∈ names, ¬ EndsInReturn name := by
  intro name hname hend
  have hgrow : ∀ n, ∃ longer ∈ names, EndsInReturn longer ∧ n ≤ longer.length := by
    intro n
    induction n with
    | zero => exact ⟨name, hname, hend, Nat.zero_le _⟩
    | succ n ih =>
        obtain ⟨long, hlong, hreturn, hn⟩ := ih
        obtain ⟨longer, hlonger, hlast, hlength⟩ := exists_longer hnames hexact hlong hreturn
        exact ⟨longer, hlonger, hlast, by omega⟩
  obtain ⟨longest, hmax⟩ := Option.isSome_iff_exists.1
    (List.isSome_max?_of_mem (List.mem_map_of_mem (f := String.length) hname))
  obtain ⟨longer, hlonger, -, hlength⟩ := hgrow (longest + 1)
  have hle := (List.max?_eq_some_iff.1 hmax).2 _ (List.mem_map_of_mem hlonger)
  omega

theorem areEntries_of_not_endsInReturn (hnames : ∀ name ∈ names, IsEntryName name)
    (hdistinct : names.Nodup) (hend : ∀ name ∈ names, ¬ EndsInReturn name) :
    AreEntries dir names (parseListing dir (printNames names)) := by
  have hshown : shownNames names = names := by
    have hsame : names.map Text.withoutReturn = names :=
      (List.map_congr_left fun name hname => Text.withoutReturn_eq_self (hend name hname)).trans
        (List.map_id _)
    rw [shownNames, hsame]
    refine List.filter_eq_self.2 fun name hname => decide_eq_true ?_
    rintro rfl
    exact (hnames "" hname).not_dots (by decide)
  have hperm := perm_parseListing dir hnames
  rw [hshown] at hperm
  constructor
  · have hentries : (names.map fun name => dir.join ⟨name⟩).Pairwise
        fun p q => p.components ≠ q.components := by
      refine List.pairwise_map.2 (hdistinct.imp_of_mem fun {name other} hname hother hne heq => ?_)
      rw [components_join_name dir (hnames name hname).isStep,
        components_join_name dir (hnames other hother).isStep] at heq
      exact hne (by simpa using heq)
    rw [parseListing, printNames, Text.lines_ended fun name hname => (hnames name hname).no_break]
    show (sort ((shownNames names).map _)).Pairwise _
    rw [hshown]
    exact ascending_sort hentries
  · intro p
    rw [hperm.mem_iff, List.mem_map]
    exact exists_congr fun name => and_congr_right fun _ => eq_comm

/-- A listing is in path order and shows every name without a carriage return at its end, an empty
rest apart. It is exactly the entries of a directory just if none of their names has one there. -/
theorem listing_exact_iff (dir : Path) (hnames : ∀ name ∈ names, IsEntryName name)
    (hdistinct : names.Nodup) :
    (parseListing dir (printNames names)).Pairwise (compare · · ≠ .gt) ∧
      (parseListing dir (printNames names)).Perm
        ((shownNames names).map fun name => dir.join ⟨name⟩) ∧
      (AreEntries dir names (parseListing dir (printNames names)) ↔
        ∀ name ∈ names, ¬ EndsInReturn name) :=
  ⟨pairwise_sort _, perm_parseListing dir hnames, not_endsInReturn hnames,
    areEntries_of_not_endsInReturn hnames hdistinct⟩

/-- Blanks, dots and a carriage return in the middle of a name are no trouble. -/
theorem listing_exact_iff_odd :
    let names := ["lib", " b\r.ts", "...", "a\tA\\"]
    (∀ name ∈ names, IsEntryName name) ∧ names.Nodup ∧
      AreEntries ⟨"/p/"⟩ names (parseListing ⟨"/p/"⟩ (printNames names)) := by
  intro names
  have hnames : ∀ name ∈ names, IsEntryName name := by
    have hmarks : ∀ name ∈ names, name ∉ ["", ".", ".."] ∧ '/' ∉ name.toList ∧
        '\n' ∉ name.toList := by decide
    exact fun name hname => ⟨(hmarks name hname).1, (hmarks name hname).2.1, (hmarks name hname).2.2⟩
  have hdistinct : names.Nodup := by decide
  refine ⟨hnames, hdistinct, (listing_exact_iff ⟨"/p/"⟩ hnames hdistinct).2.2.2 ?_⟩
  unfold EndsInReturn
  decide

/-- A carriage return at the end of a name is lost, and the entry with it. -/
theorem return_is_lost :
    IsEntryName "a\r" ∧ parseListing ⟨"/p"⟩ (printNames ["a\r"]) = [⟨"/p/a"⟩] ∧
      ¬ AreEntries ⟨"/p"⟩ ["a\r"] (parseListing ⟨"/p"⟩ (printNames ["a\r"])) := by
  have hlisting : parseListing ⟨"/p"⟩ (printNames ["a\r"]) = [⟨"/p/a"⟩] := by decide +kernel
  refine ⟨⟨by decide, by decide, by decide⟩, hlisting, fun hexact => ?_⟩
  have hmem := (hexact.mem_iff (Path.join ⟨"/p"⟩ ⟨"a\r"⟩)).2 ⟨"a\r", by simp, rfl⟩
  rw [hlisting] at hmem
  revert hmem
  decide +kernel

end CompileWatch.Remote
