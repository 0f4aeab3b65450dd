import CompileWatch.Build.Request
import CompileWatch.Proofs.Storage.Contents
import CompileWatch.Proofs.Storage.Traced

/-!
# Which entry files are found

On a storage whose looks change nothing, the discovery of entry files is two
selections from lists: of the configured paths those that exist, and of the
conventional ones the first that is a file (`run_discover`).

The two ask for different things. A configured directory exists, so it is taken
for an entry file, and it also keeps the conventional files from being tried.
What is discovered is files exactly when no configured path is a directory
(`discovered_are_files_iff`).
-/

namespace CompileWatch.Entries

variable {σ : Type} (storage : Storage σ) (s : σ)

/-- Whether there is something at a path. -/
def Exists (path : Path) : Bool := answer (storage.contains path) s

def IsDirectory (path : Path) : Bool := answer (storage.isDir path) s

/-- Something that is there and no directory. -/
def IsFile (path : Path) : Bool := Exists storage s path && !IsDirectory storage s path

/-- The paths at which entry files are looked for in any project. -/
def candidates (root : Path) : List Path := conventional.map fun name => root.join ⟨name⟩

/-- The configured paths that pass a test, or else the first conventional file. -/
def select (keep : Path → Bool) (root : Path) (configured : List Path) :
    Except HostError (List Path) :=
  match configured.filter keep with
  | [] => match (candidates root).find? (IsFile storage s) with
    | some path => .ok [path]
    | none => .error (missing root)
  | found => .ok found

/-- What a discovery of usable files answers: the configured files in configured order, where there
is none the first conventional file, and where that is missing too a failure of the
configuration. -/
structure FindsFiles (root : Path) (configured : List Path)
    (found : Except HostError (List Path)) : Prop where
  ok_iff : (∃ files, found = .ok files) ↔
    (∃ path ∈ configured, IsFile storage s path) ∨ ∃ path ∈ candidates root, IsFile storage s path
  nonempty : ∀ files, found = .ok files → files ≠ []
  files : ∀ files, found = .ok files → ∀ path ∈ files, IsFile storage s path
  selected : ∀ files, found = .ok files →
    files = configured.filter (IsFile storage s) ∨
      configured.filter (IsFile storage s) = [] ∧
        ∃ path, (candidates root).find? (IsFile storage s) = some path ∧ files = [path]
  refused : ∀ e, found = .error e → ∃ text, e = .configuration text

section Selection

variable {storage s} {root : Path} {configured : List Path}

theorem FindsFiles.of_configured (h : configured.filter (IsFile storage s) ≠ []) :
    FindsFiles storage s root configured (.ok (configured.filter (IsFile storage s))) where
  ok_iff := by
    obtain ⟨path, hpath⟩ := List.exists_mem_of_ne_nil _ h
    exact iff_of_true ⟨_, rfl⟩ (.inl ⟨path, List.mem_filter.1 hpath⟩)
  nonempty := by
    intro files hfiles
    cases hfiles
    exact h
  files := by
    intro files hfiles path hpath
    cases hfiles
    exact (List.mem_filter.1 hpath).2
  selected := by
    intro files hfiles
    cases hfiles
    exact .inl rfl
  refused := by
    intro e he
    cases he

theorem FindsFiles.of_candidate {path : Path} (h : configured.filter (IsFile storage s) = [])
    (hfirst : (candidates root).find? (IsFile storage s) = some path) :
    FindsFiles storage s root configured (.ok [path]) where
  ok_iff := iff_of_true ⟨_, rfl⟩
    (.inr ⟨path, List.mem_of_find?_eq_some hfirst, List.find?_some hfirst⟩)
  nonempty := by
    intro files hfiles
    cases hfiles
    simp
  files := by
    intro files hfiles other hother
    cases hfiles
    rw [List.mem_singleton.1 hother]
    exact List.find?_some hfirst
  selected := by
    intro files hfiles
    cases hfiles
    exact .inr ⟨h, path, hfirst, rfl⟩
  refused := by
    intro e he
    cases he

theorem FindsFiles.of_none (h : configured.filter (IsFile storage s) = [])
    (hnone : (candidates root).find? (IsFile storage s) = none) :
    FindsFiles storage s root configured (.error (missing root)) where
  ok_iff := by
    refine iff_of_false ?_ ?_
    · intro ⟨files, hfiles⟩
      cases hfiles
    · intro hsome
      rcases hsome with ⟨path, hpath, hfile⟩ | ⟨path, hpath, hfile⟩
      · exact List.filter_eq_nil_iff.1 h path hpath hfile
      · exact List.find?_eq_none.1 hnone path hpath hfile
  nonempty := by
    intro files hfiles
    cases hfiles
  files := by
    intro files hfiles
    cases hfiles
  selected := by
    intro files hfiles
    cases hfiles
  refused := by
    intro e he
    cases he
    exact ⟨_, rfl⟩

theorem findsFiles_select :
    FindsFiles storage s root configured (select storage s (IsFile storage s) root configured) := by
  unfold select
  cases hkept : configured.filter (IsFile storage s) with
  | cons path rest =>
      have hne : configured.filter (IsFile storage s) ≠ [] := by
        rw [hkept]
        exact List.cons_ne_nil path rest
      have hfinds : FindsFiles storage s root configured _ := .of_configured hne
      rw [hkept] at hfinds
      exact hfinds
  | nil =>
      cases hfirst : (candidates root).find? (IsFile storage s) with
      | some path => exact .of_candidate hkept hfirst
      | none => exact .of_none hkept hfirst

/-- Existing and being a file are the same for the configured paths if none is a directory. -/
theorem filter_exists_eq
    (h : ∀ path ∈ configured, Exists storage s path → ¬ IsDirectory storage s path) :
    configured.filter (Exists storage s) = configured.filter (IsFile storage s) := by
  refine List.filter_congr fun path hp => ?_
  cases hexists : Exists storage s path with
  | false => simp [IsFile, hexists]
  | true => simp [IsFile, hexists, h path hp hexists]

theorem select_of_mem {keep : Path → Bool} {path : Path} (hp : path ∈ configured)
    (hkeep : keep path) : select storage s keep root configured = .ok (configured.filter keep) := by
  have hmem : path ∈ configured.filter keep := List.mem_filter.2 ⟨hp, hkeep⟩
  unfold select
  split
  · next hnil => simp [hnil] at hmem
  · rfl

end Selection

/-! ## The discovery as a selection -/

section Discovery

variable {storage} (hstill : storage.Still)

include hstill

theorem run_contains (path : Path) :
    (storage.contains path).run s = (Exists storage s path, s) :=
  Prod.ext rfl ((hstill s).contains path s rfl)

theorem run_isDir (path : Path) :
    (storage.isDir path).run s = (IsDirectory storage s path, s) :=
  Prod.ext rfl ((hstill s).isDir path s rfl)

theorem run_existing (paths : List Path) :
    (existing storage paths).run s = (paths.filter (Exists storage s), s) := by
  induction paths with
  | nil => rfl
  | cons path rest ih =>
      rw [existing, StateT.run_bind, run_contains s hstill]
      show ((existing storage rest >>= fun others =>
        pure (if Exists storage s path then path :: others else others)).run s) = _
      rw [StateT.run_bind, ih, List.filter_cons]
      rfl

theorem run_firstFile (root : Path) (names : List String) :
    (firstFile storage root names).run s =
      ((names.map fun name => root.join ⟨name⟩).find? (IsFile storage s), s) := by
  induction names with
  | nil => rfl
  | cons name rest ih =>
      rw [firstFile, StateT.run_bind, run_contains s hstill, List.map_cons, List.find?_cons]
      cases hexists : Exists storage s (root.join ⟨name⟩) with
      | false =>
          simp only [IsFile, hexists, Bool.false_and]
          exact ih
      | true =>
          show ((storage.isDir (root.join ⟨name⟩) >>= fun isDir =>
            if isDir then firstFile storage root rest else pure (some (root.join ⟨name⟩))).run s) = _
          rw [StateT.run_bind, run_isDir s hstill]
          cases hdir : IsDirectory storage s (root.join ⟨name⟩) with
          | true =>
              simp only [IsFile, hexists, hdir, Bool.not_true, Bool.and_false]
              exact ih
          | false =>
              simp only [IsFile, hexists, hdir, Bool.not_false, Bool.and_true]
              rfl

/-- A discovery keeps the configured paths that exist, files or not. -/
theorem run_discover (root : Path) (configured : List Path) :
    (discover storage root configured).run s =
      (select storage s (Exists storage s) root configured, s) := by
  unfold discover select
  rw [StateT.run_bind, run_existing s hstill]
  cases configured.filter (Exists storage s) with
  | cons path rest => rfl
  | nil =>
      show ((firstFile storage root conventional >>= fun
        | some path => pure (Except.ok [path])
        | none => pure (.error (missing root))).run s) = _
      rw [StateT.run_bind, run_firstFile s hstill, candidates]
      cases (conventional.map fun name => root.join ⟨name⟩).find? (IsFile storage s) with
      | some path => rfl
      | none => rfl

/-- A discovery leaves the files alone, and it finds usable files exactly when no configured path
is a directory. -/
theorem discovered_are_files_iff (root : Path) (configured : List Path) :
    after (discover storage root configured) s = s ∧
      (FindsFiles storage s root configured (answer (discover storage root configured) s) ↔
        ∀ path ∈ configured, Exists storage s path → ¬ IsDirectory storage s path) := by
  have hrun := run_discover s hstill root configured
  have hanswer : answer (discover storage root configured) s = _ := congrArg Prod.fst hrun
  refine ⟨congrArg Prod.snd hrun, ?_⟩
  rw [hanswer]
  constructor
  · intro hfinds path hp hexists hdir
    have hmem : path ∈ configured.filter (Exists storage s) := List.mem_filter.2 ⟨hp, hexists⟩
    have hfile : IsFile storage s path = true :=
      hfinds.files _ (select_of_mem hp hexists) path hmem
    simp [IsFile, hdir] at hfile
  · intro hfiles
    have hsame : select storage s (Exists storage s) root configured =
        select storage s (IsFile storage s) root configured := by
      unfold select
      rw [filter_exists_eq hfiles]
    rw [hsame]
    exact findsFiles_select

end Discovery

/-- A project with one source, which is in a directory. -/
def oneSource : Memory.Store := Memory.exact.withFiles [(⟨"/p/src/index.ts"⟩, "")]

/-- A configured file that is gone, and the conventional one found in its place. -/
theorem discovered_are_files_iff_gone :
    Memory.exact.storage.Still ∧
      FindsFiles Memory.exact.storage oneSource ⟨"/p"⟩ [⟨"/p/gone.ts"⟩]
        (answer (discover Memory.exact.storage ⟨"/p"⟩ [⟨"/p/gone.ts"⟩]) oneSource) ∧
      (answer (discover Memory.exact.storage ⟨"/p"⟩ [⟨"/p/gone.ts"⟩]) oneSource).toOption =
        some [⟨"/p/src/index.ts"⟩] := by
  have hstill : Memory.exact.storage.Still := fun _ => Memory.exact.looks_storage _
  have hgone : Exists Memory.exact.storage oneSource ⟨"/p/gone.ts"⟩ = false := by decide +kernel
  refine ⟨hstill, ?_, by decide +kernel⟩
  refine (discovered_are_files_iff oneSource hstill ⟨"/p"⟩ [⟨"/p/gone.ts"⟩]).2.2 ?_
  intro path hp hexists
  rw [List.mem_singleton.1 hp, hgone] at hexists
  cases hexists

/-- A configured directory is found instead of the file in it. -/
theorem directory_is_discovered :
    answer (discover Memory.exact.storage ⟨"/p"⟩ [⟨"/p/src"⟩]) oneSource = .ok [⟨"/p/src"⟩] ∧
      IsDirectory Memory.exact.storage oneSource ⟨"/p/src"⟩ = true ∧
      IsFile Memory.exact.storage oneSource ⟨"/p/src/index.ts"⟩ = true ∧
      ¬ FindsFiles Memory.exact.storage oneSource ⟨"/p"⟩ [⟨"/p/src"⟩]
        (answer (discover Memory.exact.storage ⟨"/p"⟩ [⟨"/p/src"⟩]) oneSource) := by
  have hfound : answer (discover Memory.exact.storage ⟨"/p"⟩ [⟨"/p/src"⟩]) oneSource =
      .ok [⟨"/p/src"⟩] := rfl
  refine ⟨hfound, by decide +kernel, by decide +kernel, fun hfinds => ?_⟩
  have hfile := hfinds.files _ hfound ⟨"/p/src"⟩ (by simp)
  have hdir : IsFile Memory.exact.storage oneSource ⟨"/p/src"⟩ = false := by decide +kernel
  rw [hdir] at hfile
  cases hfile

end CompileWatch.Entries
