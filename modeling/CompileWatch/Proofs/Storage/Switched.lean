import CompileWatch.Proofs.Storage.History
import Mathlib.Data.List.Basic

/-!
# Letter case switched off

A file is kept under the key of the handle that stored it, and looked up under the
key of the handle that asks. While case counts, a key has the capitals of its path;
once case no longer counts, what is asked for has none. So a store that was filled
before case was switched off shows under a path just the file that was stored last
in lower-case spelling (`toOption_read_withFiles`), and a file whose name has a
capital is out of reach under every spelling, its own included
(`capitals_out_of_reach`).

Where case is switched off before the first file is stored, nothing of this
happens. Both orders are one statement about the handle that stores the files
(`reaches_withFiles_iff`).
-/

namespace CompileWatch.Memory

open CompileWatch.Path

variable {h g : Handle} {p q : Path} {c : String}

/-! ## Keys of two handles -/

theorem key_eq_key_iff : h.key p = g.key q ↔ h.normal p = g.normal q := by
  constructor
  · intro heq
    rw [← h.components_key, heq, g.components_key]
  · intro heq
    rw [h.key_eq, g.key_eq, h.place_eq, g.place_eq]
    exact congrArg ofComponents heq

/-- What a path is to the folding handle follows from what it is to any other. -/
theorem folding_normal (h : Handle) (p : Path) :
    folding.normal p = (h.normal p).map Component.lowered := by
  unfold Handle.normal
  rw [List.map_map]
  refine List.map_congr_left fun d _ => ?_
  show d.lowered = (h.kept d).lowered
  unfold Handle.kept
  split
  · rfl
  · exact (Component.lowered_lowered d).symm

/-- A path that is kept as another is asked for is the other, letter case aside. -/
theorem folding_normal_of_eq (hpq : h.normal p = folding.normal q) :
    folding.normal p = folding.normal q := by
  rw [folding_normal h p, hpq, folding_normal folding q, List.map_map]
  exact List.map_congr_left fun d _ => Component.lowered_lowered d

/-! ## Filled through one handle, read through another -/

/-- The text that files leave at a place when they are stored in order: that of the last one there. -/
def Handle.lastText? (h : Handle) (place : List Component) (files : List (Path × String)) :
    Option String :=
  (files.reverse.find? fun file => h.normal file.1 = place).map (·.2)

section LastText

variable {place : List Component} {files more : List (Path × String)}

theorem lastText?_concat (file : Path × String) : h.lastText? place (files ++ [file]) =
    if h.normal file.1 = place then some file.2 else h.lastText? place files := by
  unfold Handle.lastText?
  rw [List.reverse_concat, List.find?_cons]
  by_cases hfile : h.normal file.1 = place
  · simp [hfile]
  · simp [hfile]

/-- Files that belong elsewhere change nothing. -/
theorem lastText?_append (hmore : ∀ file ∈ more, h.normal file.1 ≠ place) :
    h.lastText? place (files ++ more) = h.lastText? place files := by
  unfold Handle.lastText?
  rw [List.reverse_append, List.find?_append, List.find?_eq_none.2, Option.none_or]
  intro file hfile
  simpa using hmore file (List.mem_reverse.1 hfile)

theorem lastText?_eq_some_iff : h.lastText? place files = some c ↔
    ∃ first q rest, files = first ++ (q, c) :: rest ∧ h.normal q = place ∧
      ∀ later ∈ rest, h.normal later.1 ≠ place := by
  constructor
  · intro hlast
    obtain ⟨⟨q, text⟩, hfind, rfl⟩ := Option.map_eq_some_iff.1 hlast
    obtain ⟨hq, rest, first, hfiles, hrest⟩ := List.find?_eq_some_iff_append.1 hfind
    refine ⟨first.reverse, q, rest.reverse, ?_, by simpa using hq, fun later hlater => ?_⟩
    · rw [← files.reverse_reverse, hfiles]
      simp
    · simpa using hrest later (List.mem_reverse.1 hlater)
  · rintro ⟨first, q, rest, rfl, hq, hrest⟩
    rw [List.append_cons, lastText?_append hrest, lastText?_concat, if_pos hq]

end LastText

theorem text?_withFiles (h : Handle) (files : List (Path × String)) (key : Path) :
    ((h.withFiles files).files.find? key).map (·.content) =
      h.lastText? key.components files := by
  induction files using List.reverseRecOn with
  | nil => rfl
  | append_singleton files file ih =>
      have hput : h.withFiles (files ++ [file]) =
          (h.withFiles files).put (h.key file.1) file.2 := List.foldl_concat ..
      rw [hput, Store.find?_put, lastText?_concat, ← ih]
      by_cases hfile : h.normal file.1 = key.components
      · rw [if_pos hfile, if_pos (same_iff.2 ((h.components_key _).trans hfile))]
        rfl
      · rw [if_neg hfile, if_neg fun hsame => hfile ((h.components_key _).symm.trans (same_iff.1 hsame))]

theorem toOption_read_withFiles (h g : Handle) (files : List (Path × String)) (q : Path) :
    (g.read q (h.withFiles files)).toOption = h.lastText? (g.normal q) files := by
  rw [g.toOption_read, Handle.file?, text?_withFiles, g.components_key]

theorem read_withFiles_iff {files : List (Path × String)} : g.read q (h.withFiles files) = .ok c ↔
    h.lastText? (g.normal q) files = some c := by
  rw [← toOption_read_withFiles]
  cases g.read q (h.withFiles files) with
  | ok text => simp [Except.toOption]
  | error e => simp [Except.toOption]

theorem contains_of_read {s : Store} (hr : g.read q s = .ok c) : g.contains q s = true := by
  have hfile : (g.file? s q).isSome = true := by
    rw [← Option.isSome_map (f := File.content), ← g.toOption_read, hr]
    rfl
  rw [Handle.contains, Bool.or_eq_true]
  exact .inl hfile

/-! ## Files within reach -/

/-- Whether a store, asked without regard to letter case, shows a text under every spelling of a
path. -/
def Store.Reaches (s : Store) (p : Path) (text : String) : Prop :=
  ∀ q, folding.key q = folding.key p → folding.contains q s = true ∧ folding.read q s = .ok text

/-- A file that no later one replaces is within reach just if it was stored in lower case, or an
earlier file with the same text was, the last one so spelled. -/
theorem reaches_withFiles_iff {before after : List (Path × String)}
    (hlast : ∀ later ∈ after, folding.key later.1 ≠ folding.key p) :
    (h.withFiles (before ++ (p, c) :: after)).Reaches p c ↔
      h.key p = folding.key p ∨ ∃ first q rest, before = first ++ (q, c) :: rest ∧
        h.key q = folding.key p ∧ ∀ other ∈ rest, h.key other.1 ≠ folding.key p := by
  have hafter : ∀ later ∈ after, h.normal later.1 ≠ folding.normal p := fun later hlater heq =>
    hlast later hlater (key_eq_key_iff.2 (folding_normal_of_eq heq))
  have htext : h.lastText? (folding.normal p) (before ++ (p, c) :: after) =
      if h.normal p = folding.normal p then some c else h.lastText? (folding.normal p) before := by
    rw [List.append_cons, lastText?_append hafter, lastText?_concat]
  have hreaches : (h.withFiles (before ++ (p, c) :: after)).Reaches p c ↔
      h.lastText? (folding.normal p) (before ++ (p, c) :: after) = some c := by
    constructor
    · intro hall
      exact read_withFiles_iff.1 (hall p rfl).2
    · intro hsome q hq
      have hread : folding.read q (h.withFiles (before ++ (p, c) :: after)) = .ok c := by
        rw [read_withFiles_iff, key_eq_key_iff.1 hq]
        exact hsome
      exact ⟨contains_of_read hread, hread⟩
  rw [hreaches, htext]
  simp only [key_eq_key_iff, ne_eq]
  split
  · next heq => simp [heq]
  · next hne => rw [lastText?_eq_some_iff, or_iff_right hne]

/-- Letter case switched off before files are stored leaves each file within reach that no later one
replaces. Switched off afterwards, it does so just if the file was stored in lower case, or the last
of the earlier files that were has the same text. -/
theorem files_reached_after_switch_iff {before after : List (Path × String)} {p : Path} {c : String}
    (hlast : ∀ later ∈ after, folding.key later.1 ≠ folding.key p) :
    (folding.withFiles (before ++ (p, c) :: after)).Reaches p c ∧
      ((exact.withFiles (before ++ (p, c) :: after)).Reaches p c ↔
        exact.key p = folding.key p ∨ ∃ first q rest, before = first ++ (q, c) :: rest ∧
          exact.key q = folding.key p ∧ ∀ other ∈ rest, exact.key other.1 ≠ folding.key p) :=
  ⟨(reaches_withFiles_iff hlast).2 (.inl rfl), reaches_withFiles_iff hlast⟩

/-- A newer text under a name with a capital, over an older one in lower case. -/
theorem files_reached_after_switch_iff_readme :
    let files : List (Path × String) :=
      [(⟨"/p/readme"⟩, "old"), (⟨"/p//./ReadMe"⟩, "new"), (⟨"/p/Σας"⟩, "")]
    (folding.withFiles files).Reaches ⟨"/p//./ReadMe"⟩ "new" ∧
      ¬ (exact.withFiles files).Reaches ⟨"/p//./ReadMe"⟩ "new" ∧
      folding.read ⟨"/P/README"⟩ (exact.withFiles files) = .ok "old" := by
  intro files
  have hlast : ∀ later ∈ [((⟨"/p/Σας"⟩ : Path), "")],
      folding.key later.1 ≠ folding.key ⟨"/p//./ReadMe"⟩ := by decide +kernel
  obtain ⟨hfolding, hexact⟩ :=
    @files_reached_after_switch_iff [(⟨"/p/readme"⟩, "old")] _ _ "new" hlast
  refine ⟨hfolding, fun hreaches => ?_, by decide +kernel⟩
  rcases hexact.1 hreaches with hkey | ⟨first, q, rest, hbefore, _⟩
  · exact absurd hkey (by decide +kernel)
  · have hmem : (q, "new") ∈ [((⟨"/p/readme"⟩ : Path), "old")] := by
      rw [hbefore]
      exact List.mem_append_right _ List.mem_cons_self
    simp at hmem

/-- A file whose name has a capital is lost when letter case is switched off, to its own name too. -/
theorem capitals_out_of_reach :
    let s := exact.withFiles [(⟨"/P/Index.ts"⟩, "x")]
    folding.contains ⟨"/P/Index.ts"⟩ s = false ∧
      folding.read ⟨"/P/Index.ts"⟩ s = .error (.notFound ⟨"/P/Index.ts"⟩) ∧
      ¬ s.Reaches ⟨"/P/Index.ts"⟩ "x" := by
  intro s
  have hlost : folding.contains ⟨"/P/Index.ts"⟩ s = false := by decide +kernel
  refine ⟨hlost, by decide +kernel, fun hreaches => ?_⟩
  have hfound := (hreaches ⟨"/P/Index.ts"⟩ rfl).1
  rw [hlost] at hfound
  cases hfound

end CompileWatch.Memory
