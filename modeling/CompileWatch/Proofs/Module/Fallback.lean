import CompileWatch.FrontEnd.LineChecker
import CompileWatch.Proofs.Module.Resolution
import CompileWatch.Proofs.Storage.Directories

/-!
# Where a fallback leads

A fallback directory `d` is there to give a specifier `s` one of two meanings, the
files `d/s/index.d.ts` and `d/s.d.ts`. Two things can come between that intent and
what a resolution does.

The paths are joined, and what is joined to a directory leaves it behind if it is
absolute. So an absolute specifier is looked for at one and the same place for all
directories, and the search stays below its directories exactly when the specifier
is relative, unless no directory can be left (`fallback_stays_below_iff`).

And a candidate is taken because it exists, which a directory does as well as a
file. A directory that is named like a declaration is a hit that cannot be read,
and hides the declarations after it; nothing else is in the way
(`fallback_names_files_iff`).
-/

namespace CompileWatch

open CompileWatch.Path

variable {σ : Type} (inside : Storage σ)

/-! ## Joining and leaving -/

namespace Path

/-- A directory, a slash and a text. An empty directory gets no slash, which would be a root. -/
def slash (dir : Path) (text : String) : Path :=
  if dir.text = "" then ⟨text⟩ else ⟨dir.text ++ "/" ++ text⟩

theorem components_slash {dir : Path} (hdir : dir.text ≠ "") (text : String) :
    (dir.slash text).components =
      dir.components ++ (text.toList.splitOn '/').filterMap componentOfSegment? := by
  have hne : dir.text.toList ≠ [] := mt String.toList_eq_nil_iff.1 hdir
  rw [slash, if_neg hdir, components_eq, String.toList_append, String.toList_append,
    List.append_assoc]
  exact componentsOf_append_slash hne text.toList

theorem components_slash_name (dir : Path) {name : String}
    (h : (Component.name name).isStep = true) :
    (dir.slash name).components = dir.components ++ [.name name] := by
  by_cases hdir : dir.text = ""
  · rw [slash, if_pos hdir, components_name h, components_eq dir, hdir]
    rfl
  · rw [components_slash hdir]
    exact congrArg (_ ++ ·) (filterMap_step (c := .name name) h)

theorem prefix_slash (dir : Path) (text : String) :
    dir.components <+: (dir.slash text).components := by
  by_cases hdir : dir.text = ""
  · rw [components_eq dir, hdir]
    exact List.nil_prefix
  · rw [components_slash hdir]
    exact List.prefix_append _ _

/-- What is joined to a directory stands behind it if it is relative, or if the directory is one
that an absolute path does not leave. -/
theorem same_join_slash_iff (dir : Path) (text : String) :
    (dir.join ⟨text⟩).same (dir.slash text) = true ↔
      (⟨text⟩ : Path).isAbsolute = false ∨ dir.text = "" ∨ dir.components = [.root] := by
  by_cases hdir : dir.text = ""
  · have hjoin : dir.join ⟨text⟩ = ⟨text⟩ := by simp [join, hdir]
    rw [hjoin, slash, if_pos hdir]
    exact iff_of_true (same_self _) (.inr (.inl hdir))
  · rw [same_iff, components_slash hdir]
    cases habs : (⟨text⟩ : Path).isAbsolute with
    | false => exact iff_of_true (components_join_relative hdir habs) (.inl rfl)
    | true =>
        obtain ⟨rest, htext⟩ := List.head?_eq_some_iff.1 (beq_iff_eq.1 habs)
        have hroot : (dir.join ⟨text⟩).components =
            [.root] ++ (text.toList.splitOn '/').filterMap componentOfSegment? := by
          rw [join, habs, if_pos rfl, components_eq]
          show componentsOf text.toList = _
          rw [htext, componentsOf_slash]
          rfl
        rw [hroot, List.append_cancel_right_eq]
        simp [hdir, eq_comm]

end Path

/-! ## The candidates of a directory -/

namespace SearchPath

/-- The declaration files that a directory stands for. -/
def declarations (dir : Path) (specifier : String) : List Path :=
  [(dir.slash specifier).slash "index.d.ts", dir.slash (specifier ++ ".d.ts")]

/-- The candidates of a search, each with the directory that offers it. -/
def offers (search : SearchPath) (specifier : String) : List (Path × Path) :=
  search.dirs.flatMap fun dir => (candidates dir specifier).map (dir, ·)

variable {search : SearchPath} {dir : Path} {specifier : String}

theorem map_snd_offers : (search.offers specifier).map (·.2) = search.allCandidates specifier := by
  simp [offers, allCandidates, List.map_flatMap, Function.comp_def]

theorem mem_offers {path : Path} (h : (dir, path) ∈ search.offers specifier) :
    dir ∈ search.dirs ∧ path ∈ candidates dir specifier := by
  obtain ⟨other, hother, hpath⟩ := List.mem_flatMap.1 h
  obtain ⟨_, hcandidate, heq⟩ := List.mem_map.1 hpath
  cases heq
  exact ⟨hother, hcandidate⟩

theorem isAbsolute_append (ending : String) (h : (⟨ending⟩ : Path).isAbsolute = false) :
    (⟨specifier ++ ending⟩ : Path).isAbsolute = (⟨specifier⟩ : Path).isAbsolute := by
  unfold isAbsolute at h ⊢
  rw [String.toList_append]
  cases hs : specifier.toList with
  | nil => simpa [hs] using h
  | cons c rest => rfl

/-- The candidates of a directory are its declarations under one condition for both. -/
theorem candidates_same_iff :
    List.Forall₂ (fun p q => p.same q = true) (candidates dir specifier)
        (declarations dir specifier) ↔
      (⟨specifier⟩ : Path).isAbsolute = false ∨ dir.text = "" ∨ dir.components = [.root] := by
  have hindex : (Component.name "index.d.ts").isStep = true := by decide
  have hfirst : ((dir.join ⟨specifier⟩).join ⟨"index.d.ts"⟩).same
      ((dir.slash specifier).slash "index.d.ts") = true ↔
        (dir.join ⟨specifier⟩).same (dir.slash specifier) = true := by
    rw [same_iff, same_iff, components_join_name _ hindex, components_slash_name _ hindex,
      List.append_cancel_right_eq]
  simp only [candidates, declarations, List.forall₂_cons, List.forall₂_nil_right_iff, and_true,
    hfirst, same_join_slash_iff, isAbsolute_append ".d.ts" (by decide), and_self]

/-- A directory that offers its declarations is not left by what it offers. -/
theorem startsWith_of_same
    (h : List.Forall₂ (fun p q => p.same q = true) (candidates dir specifier)
      (declarations dir specifier)) {path : Path} (hpath : path ∈ candidates dir specifier) :
    path.startsWith dir = true := by
  simp only [candidates, declarations, List.forall₂_cons, List.forall₂_nil_right_iff, and_true,
    same_iff] at h
  rw [startsWith, List.isPrefixOf_iff_prefix]
  simp only [candidates, List.mem_cons, List.not_mem_nil, or_false] at hpath
  rcases hpath with rfl | rfl
  · rw [h.1]
    exact (prefix_slash dir specifier).trans (prefix_slash _ "index.d.ts")
  · rw [h.2]
    exact prefix_slash dir (specifier ++ ".d.ts")

end SearchPath

namespace ModuleResolver

/-! ## Staying below the directories -/

/-- A search goes on as long as nothing is found, and takes what it has asked for last. -/
theorem exists_probes (offers : List (Path × Path)) (t : Traced σ) :
    ∃ probes, probes <+: offers ∧
      (after (firstExisting (Traced.storage inside) (offers.map (·.2))) t).calls =
        t.calls ++ probes.map (.contains ·.2) ∧
      ∀ path, answer (firstExisting (Traced.storage inside) (offers.map (·.2))) t = some path →
        ∃ probe ∈ probes, probe.2 = path := by
  induction offers generalizing t with
  | nil =>
      exact ⟨[], List.nil_prefix, (List.append_nil t.calls).symm, fun path hpath => by cases hpath⟩
  | cons offer rest ih =>
      obtain ⟨dir, path⟩ := offer
      simp only [List.map_cons, firstExisting, answer_bind, after_bind]
      cases hthere : answer ((Traced.storage inside).contains path) t with
      | true =>
          refine ⟨[(dir, path)], ⟨rest, rfl⟩, rfl, fun found hfound => ?_⟩
          cases hfound
          exact ⟨_, List.mem_cons_self, rfl⟩
      | false =>
          obtain ⟨probes, hprobes, hcalls, hfound⟩ :=
            ih (after ((Traced.storage inside).contains path) t)
          refine ⟨(dir, path) :: probes, List.cons_prefix_cons.2 ⟨rfl, hprobes⟩, ?_, ?_⟩
          · refine hcalls.trans ?_
            rw [List.map_cons, List.append_cons]
            rfl
          · intro found hanswer
            obtain ⟨probe, hprobe, hpath⟩ := hfound found hanswer
            exact ⟨probe, List.mem_cons_of_mem _ hprobe, hpath⟩

/-- A search that stays below its directories: each directory offers the declarations that it stands
for, and whatever is asked for and found for a directory has its components in front. -/
structure StaysBelow (search : SearchPath) (specifier : String) (probes : List (Path × Path))
    (found : Option ResolvedModule) : Prop where
  declarations : ∀ dir ∈ search.dirs, List.Forall₂ (fun p q => p.same q = true)
    (SearchPath.candidates dir specifier) (SearchPath.declarations dir specifier)
  asked : ∀ probe ∈ probes, probe.2.startsWith probe.1 = true
  found : ∀ m, found = some m → ∃ probe ∈ probes, m.path = probe.2 ∧ m.path.startsWith probe.1 = true

/-- A fallback asks for the candidates of its directories in order and for nothing else, and takes
one that it has asked for. It stays below the directories exactly when the specifier is relative,
or else no directory can be left by an absolute path, being empty or the root. -/
theorem fallback_stays_below_iff (native : NativeResolution (Traced σ)) (options : CompilerOptions)
    (search : SearchPath) (specifier : String) (t : Traced σ) :
    let r : ModuleResolver (Traced σ) := ⟨native, Traced.storage inside, options, search⟩
    ∃ probes, probes <+: search.offers specifier ∧
      (after (r.resolveFallback specifier) t).calls = t.calls ++ probes.map (.contains ·.2) ∧
      (∀ m, answer (r.resolveFallback specifier) t = some m → m.origin = .fallback ∧
        ∃ probe ∈ probes, m.path = probe.2) ∧
      (StaysBelow search specifier probes (answer (r.resolveFallback specifier) t) ↔
        (⟨specifier⟩ : Path).isAbsolute = false ∨
          ∀ dir ∈ search.dirs, dir.text = "" ∨ dir.components = [.root]) := by
  intro r
  obtain ⟨probes, hprobes, hcalls, hfound⟩ :=
    exists_probes inside (search.offers specifier) t
  rw [SearchPath.map_snd_offers] at hcalls hfound
  have hasked : ∀ m, answer (r.resolveFallback specifier) t = some m →
      m.origin = .fallback ∧ ∃ probe ∈ probes, m.path = probe.2 := by
    intro m hm
    obtain ⟨path, hpath, rfl⟩ := Option.map_eq_some_iff.1 hm
    obtain ⟨probe, hprobe, heq⟩ := hfound path hpath
    exact ⟨rfl, probe, hprobe, heq.symm⟩
  refine ⟨probes, hprobes, hcalls, hasked, ?_⟩
  have hdirs : (∀ dir ∈ search.dirs, List.Forall₂ (fun p q => p.same q = true)
      (SearchPath.candidates dir specifier) (SearchPath.declarations dir specifier)) ↔
      (⟨specifier⟩ : Path).isAbsolute = false ∨
        ∀ dir ∈ search.dirs, dir.text = "" ∨ dir.components = [.root] := by
    simp only [SearchPath.candidates_same_iff]
    cases (⟨specifier⟩ : Path).isAbsolute <;> simp
  rw [← hdirs]
  refine ⟨StaysBelow.declarations, fun hsame => ?_⟩
  have hbelow : ∀ probe ∈ probes, probe.2.startsWith probe.1 = true := by
    intro probe hprobe
    obtain ⟨hdir, hpath⟩ := SearchPath.mem_offers (hprobes.subset hprobe)
    exact SearchPath.startsWith_of_same (hsame probe.1 hdir) hpath
  refine ⟨hsame, hbelow, fun m hm => ?_⟩
  obtain ⟨-, probe, hprobe, hpath⟩ := hasked m hm
  exact ⟨probe, hprobe, hpath, hpath ▸ hbelow probe hprobe⟩

/-- A declaration outside of all fallback directories. -/
def outsideTypes : Memory.Store := Memory.exact.withFiles [(⟨"/etc/pkg.d.ts"⟩, "")]

/-- An absolute specifier is looked for where it says, and found outside of the directories. -/
theorem absolute_specifier_escapes :
    let r : ModuleResolver (Traced Memory.Store) :=
      ⟨LineChecker.resolveModule, Traced.storage Memory.exact.storage, {}, ⟨[⟨"/types"⟩]⟩⟩
    answer (r.resolveFallback "/etc/pkg") ⟨outsideTypes, []⟩ =
        some ⟨⟨"/etc/pkg.d.ts"⟩, .fallback⟩ ∧
      (after (r.resolveFallback "/etc/pkg") ⟨outsideTypes, []⟩).calls =
        [.contains ⟨"/etc/pkg/index.d.ts"⟩, .contains ⟨"/etc/pkg.d.ts"⟩] ∧
      (⟨"/etc/pkg.d.ts"⟩ : Path).startsWith ⟨"/types"⟩ = false ∧
      ∀ probes, ¬ StaysBelow r.fallback "/etc/pkg" probes
        (answer (r.resolveFallback "/etc/pkg") ⟨outsideTypes, []⟩) := by
  intro r
  have hcandidates : ¬ List.Forall₂ (fun p q : Path => p.same q = true)
      (SearchPath.candidates ⟨"/types"⟩ "/etc/pkg")
      (SearchPath.declarations ⟨"/types"⟩ "/etc/pkg") := by
    rw [SearchPath.candidates_same_iff]
    decide +kernel
  exact ⟨by decide +kernel, by decide +kernel, by decide +kernel, fun probes hstays =>
    hcandidates (hstays.declarations ⟨"/types"⟩ List.mem_cons_self)⟩

/-! ## Finding files -/

section Files

open Memory

variable (h : Handle) (s : Store)

def isReadable (path : Path) : Bool := (h.read path s).isOk

theorem isReadable_iff {path : Path} :
    isReadable h s path = true ↔ ∃ text, h.read path s = .ok text := by
  unfold isReadable
  cases h.read path s <;> simp [Except.isOk, Except.toBool]

theorem contains_iff_isReadable {path : Path} :
    h.contains path s = true ↔ isReadable h s path = true ∨ h.isDir path s = true := by
  rw [isReadable_iff]
  exact Handle.contains_iff_read_or_isDir

theorem run_firstExisting (paths : List Path) :
    (firstExisting h.storage paths).run s = (paths.find? (h.contains · s), s) := by
  induction paths with
  | nil => rfl
  | cons path rest ih =>
      have hrun : (firstExisting h.storage (path :: rest)).run s =
          (if h.contains path s then pure (some path) else firstExisting h.storage rest).run s := rfl
      rw [hrun, List.find?_cons]
      cases h.contains path s with
      | true => rfl
      | false => exact ih

/-- What a resolution finds among candidates if it finds declaration files: what it has from a
fallback directory can be read, and unless the import is resolved natively it is the first of the
candidates that can. -/
structure NamesFiles (candidates : List Path) (native? : Option Path)
    (found : Option ResolvedModule) : Prop where
  readable : ∀ m, found = some m → m.origin = .fallback → ∃ text, h.read m.path s = .ok text
  first : native? = none → ∀ path, candidates.find? (isReadable h s) = some path →
    found = some ⟨path, .fallback⟩

variable {h s} {candidates : List Path}

/-- A first hit that can be read is also the first that can be read. -/
theorem find?_isReadable
    (hhit : ∀ path, candidates.find? (h.contains · s) = some path → isReadable h s path = true) :
    candidates.find? (isReadable h s) = candidates.find? (h.contains · s) := by
  cases hfound : candidates.find? (h.contains · s) with
  | none =>
      rw [List.find?_eq_none] at hfound ⊢
      exact fun path hpath hread =>
        hfound path hpath ((contains_iff_isReadable h s).2 (.inl hread))
  | some path =>
      obtain ⟨-, before, rest, hsplit, hbefore⟩ := List.find?_eq_some_iff_append.1 hfound
      refine List.find?_eq_some_iff_append.2 ⟨hhit path hfound, before, rest, hsplit, ?_⟩
      intro other hother
      have hgone := hbefore other hother
      rw [Bool.not_eq_true', Bool.eq_false_iff] at hgone ⊢
      exact fun hread => hgone ((contains_iff_isReadable h s).2 (.inl hread))

theorem namesFiles_iff_hit :
    NamesFiles h s candidates none
        ((candidates.find? (h.contains · s)).map (⟨·, .fallback⟩)) ↔
      ∀ path, candidates.find? (h.contains · s) = some path → isReadable h s path = true := by
  constructor
  · intro hnames path hpath
    rw [hpath] at hnames
    exact (isReadable_iff h s).2 (hnames.readable ⟨path, .fallback⟩ rfl rfl)
  · intro hhit
    refine ⟨fun m hm _ => ?_, fun _ path hpath => ?_⟩
    · obtain ⟨path, hpath, rfl⟩ := Option.map_eq_some_iff.1 hm
      exact (isReadable_iff h s).1 (hhit path hpath)
    · rw [← find?_isReadable hhit, hpath]
      rfl

/-- What is hit first can be read just if no directory among the candidates comes before all that
can be read. A directory that is a file as well is no obstacle. -/
theorem hit_isReadable_iff :
    (∀ path, candidates.find? (h.contains · s) = some path → isReadable h s path = true) ↔
      ∀ before dir rest, candidates = before ++ dir :: rest → h.isDir dir s = true →
        ∃ file ∈ before ++ [dir], isReadable h s file = true := by
  constructor
  · intro hhit before dir rest hsplit hdir
    have hthere : h.contains dir s = true := (contains_iff_isReadable h s).2 (.inr hdir)
    -- the search ends in this place at the latest
    have hsome : ((before ++ [dir]).find? (h.contains · s)).isSome = true :=
      List.find?_isSome.2 ⟨dir, by simp, hthere⟩
    obtain ⟨file, hfile⟩ := Option.isSome_iff_exists.1 hsome
    refine ⟨file, List.mem_of_find?_eq_some hfile, hhit file ?_⟩
    rw [hsplit, List.append_cons, List.find?_append, hfile, Option.some_or]
  · intro hdirs path hpath
    obtain ⟨hthere, before, rest, hsplit, hbefore⟩ := List.find?_eq_some_iff_append.1 hpath
    rcases (contains_iff_isReadable h s).1 hthere with hread | hdir
    · exact hread
    · obtain ⟨file, hfile, hread⟩ := hdirs before path rest hsplit hdir
      rcases List.mem_append.1 hfile with hfile | hfile
      · -- whatever can be read is there, and nothing before the hit is
        have hgone := hbefore file hfile
        rw [(contains_iff_isReadable h s).2 (.inl hread)] at hgone
        cases hgone
      · rw [← List.mem_singleton.1 hfile]
        exact hread

variable (h s)

/-- What a resolution has from a fallback directory is the first candidate that is there. It names a
file that can be read, and the first of the candidates that can, exactly when every directory among
the candidates comes after such a file or is one itself. -/
theorem fallback_names_files_iff (native : NativeResolution Store) (options : CompilerOptions)
    (search : SearchPath) (specifier : String) (importer : Path) :
    let r : ModuleResolver Store := ⟨native, h.storage, options, search⟩
    let native? := answer (native options h.storage specifier importer) s
    let found := answer (r.resolve specifier importer) s
    let left := after (r.resolve specifier importer) s
    (native? = none → found =
      ((search.allCandidates specifier).find? (h.contains · left)).map (⟨·, .fallback⟩)) ∧
    (NamesFiles h left (search.allCandidates specifier) native? found ↔
      (native? = none → ∀ before dir rest, search.allCandidates specifier = before ++ dir :: rest →
        h.isDir dir left = true → ∃ file ∈ before ++ [dir], isReadable h left file = true)) := by
  intro r native? found left
  cases hnative : native? with
  | some path =>
      have hfound : found = some ⟨path, .native⟩ := (resolve_of_some (r := r) hnative).1
      refine ⟨nofun, iff_of_true ⟨fun m hm ho => ?_, nofun⟩ nofun⟩
      rw [hfound] at hm
      cases hm
      cases ho
  | none =>
      obtain ⟨hanswer, hafter⟩ := resolve_of_missed (r := r) hnative
      have hrun := run_firstExisting h
        (after (native options h.storage specifier importer) s) (search.allCandidates specifier)
      have hleft : left = after (native options h.storage specifier importer) s :=
        hafter.trans (congrArg Prod.snd hrun)
      have hfound : found =
          ((search.allCandidates specifier).find? (h.contains · left)).map (⟨·, .fallback⟩) := by
        rw [hleft]
        rw [answer_resolveFallback] at hanswer
        exact hanswer.trans (congrArg _ (congrArg Prod.fst hrun))
      refine ⟨fun _ => hfound, ?_⟩
      rw [hfound, namesFiles_iff_hit, hit_isReadable_iff]
      simp

end Files

/-- A directory that is named like a declaration, and a declaration further on. -/
def hiddenTypes : Memory.Store :=
  Memory.exact.withFiles [(⟨"/types/pkg.d.ts/x.ts"⟩, ""), (⟨"/more/pkg/index.d.ts"⟩, "")]

/-- A directory is found where a declaration is meant, and hides the one that is there. -/
theorem directory_hides_declaration :
    let r : ModuleResolver Memory.Store :=
      ⟨LineChecker.resolveModule, Memory.exact.storage, {}, ⟨[⟨"/types"⟩, ⟨"/more"⟩]⟩⟩
    let native? := answer (r.native r.options r.storage "pkg" ⟨"/p/a.ts"⟩) hiddenTypes
    let found := answer (r.resolve "pkg" ⟨"/p/a.ts"⟩) hiddenTypes
    let left := after (r.resolve "pkg" ⟨"/p/a.ts"⟩) hiddenTypes
    native? = none ∧ found = some ⟨⟨"/types/pkg.d.ts"⟩, .fallback⟩ ∧
      isReadable Memory.exact left ⟨"/types/pkg.d.ts"⟩ = false ∧
      (r.fallback.allCandidates "pkg").find? (isReadable Memory.exact left) =
        some ⟨"/more/pkg/index.d.ts"⟩ ∧
      ¬ NamesFiles Memory.exact left (r.fallback.allCandidates "pkg") native? found := by
  intro r native? found left
  have hmissed : native? = none := by decide +kernel
  have hfound : found = some ⟨⟨"/types/pkg.d.ts"⟩, .fallback⟩ := by decide +kernel
  have hfirst : (r.fallback.allCandidates "pkg").find? (isReadable Memory.exact left) =
      some ⟨"/more/pkg/index.d.ts"⟩ := by decide +kernel
  refine ⟨hmissed, hfound, by decide +kernel, hfirst, fun hnames => ?_⟩
  have hother := hnames.first hmissed _ hfirst
  rw [hfound] at hother
  exact absurd hother (by decide)

end ModuleResolver

end CompileWatch
