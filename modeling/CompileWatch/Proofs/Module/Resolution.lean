import CompileWatch.Proofs.Asking
import CompileWatch.Proofs.Path.Joining
import CompileWatch.Proofs.Storage.Contents

/-!
# What a resolution asks and answers

An import is resolved natively, or else by going through the candidates of the
fallback directories until one is there (`Tried`). A traced storage shows the
second part as it happens: one question for each candidate up to the first that
is there, and no other call.

What a native resolution asks is its own affair. For the imports of a file to be
independent of each other it has to be a function of the files, however it finds
its answer, and has to leave the files as they are.
-/

namespace CompileWatch

open CompileWatch.Path

variable {σ : Type} {inside : Storage σ}

theorem ResolvedModule.isDeclaration_of_suffix {m : ResolvedModule}
    (h : ".d.ts".toList <:+ m.path.text.toList) : m.isDeclaration = true := by
  obtain ⟨name, hname, hending⟩ := exists_fileName? (by decide) (by decide) h
  rw [isDeclaration, hname]
  exact List.isSuffixOf_iff_suffix.2 hending

theorem SearchPath.isDeclaration_of_mem {search : SearchPath} {specifier : String} {path : Path}
    (h : path ∈ search.allCandidates specifier) (origin : ModuleOrigin) :
    (⟨path, origin⟩ : ResolvedModule).isDeclaration = true := by
  obtain ⟨dir, _, hpath⟩ := List.mem_flatMap.1 h
  refine ResolvedModule.isDeclaration_of_suffix ?_
  simp only [candidates, List.mem_cons, List.not_mem_nil, or_false] at hpath
  rcases hpath with rfl | rfl
  · exact suffix_join _ ⟨"index".toList, rfl⟩
  · exact suffix_join _ ⟨specifier.toList, String.toList_append.symm⟩

namespace ModuleResolver

/-- How a list of candidates is gone through: up to the first that is there, or to its end. Given
are the candidates that were asked for, and what was found. -/
inductive Tried (there : Path → Bool) (candidates : List Path) : List Path → Option Path → Prop
  | hit (missed : List Path) {rest : List Path} {path : Path} : candidates = missed ++ path :: rest →
      (∀ other ∈ missed, there other = false) → there path = true →
      Tried there candidates (missed ++ [path]) (some path)
  | miss : (∀ path ∈ candidates, there path = false) → Tried there candidates candidates none

namespace Tried

variable {there : Path → Bool} {candidates probes : List Path} {found : Option Path}

theorem cons {path : Path} (hpath : there path = false) (h : Tried there candidates probes found) :
    Tried there (path :: candidates) (path :: probes) found := by
  have hall : ∀ {paths : List Path}, (∀ other ∈ paths, there other = false) →
      ∀ other ∈ path :: paths, there other = false :=
    fun hpaths => List.forall_mem_cons.2 ⟨hpath, hpaths⟩
  cases h with
  | hit missed hc hmissed hthere =>
      exact .hit (path :: missed) (congrArg (path :: ·) hc) (hall hmissed) hthere
  | miss hmissed => exact .miss (hall hmissed)

theorem mem_candidates (h : Tried there candidates probes found) {path : Path}
    (hpath : found = some path) : path ∈ candidates := by
  cases h with
  | hit _ hc _ _ =>
      cases hpath
      rw [hc]
      simp
  | miss _ => cases hpath

end Tried

theorem tried_firstExisting (hstill : inside.Still) :
    ∀ (candidates : List Path) (t : Traced σ), ∃ probes found,
      Tried (fun path => answer (inside.contains path) t.inner) candidates probes found ∧
        answer (firstExisting (Traced.storage inside) candidates) t = found ∧
        after (firstExisting (Traced.storage inside) candidates) t =
          ⟨t.inner, t.calls ++ probes.map .contains⟩
  | [], t => by
      refine ⟨[], none, .miss (by simp), rfl, ?_⟩
      rw [List.map_nil, List.append_nil]
      rfl
  | path :: rest, t => by
      have hasked : after ((Traced.storage inside).contains path) t =
          ⟨t.inner, t.calls ++ [.contains path]⟩ := by
        show (⟨after (inside.contains path) t.inner, _⟩ : Traced σ) = _
        rw [(hstill t.inner).contains path t.inner rfl]
      have hanswer : answer ((Traced.storage inside).contains path) t =
          answer (inside.contains path) t.inner := rfl
      simp only [firstExisting, answer_bind, after_bind, hasked, hanswer]
      cases hthere : answer (inside.contains path) t.inner with
      | true => exact ⟨[path], some path, .hit [] rfl (by simp) hthere, rfl, rfl⟩
      | false =>
          obtain ⟨probes, found, htried, ha, hs⟩ :=
            tried_firstExisting hstill rest ⟨t.inner, t.calls ++ [.contains path]⟩
          refine ⟨path :: probes, found, htried.cons hthere, ha, ?_⟩
          exact hs.trans (by rw [List.map_cons, List.append_assoc]; rfl)

/-- A native resolution that is a function of the files, and leaves them as they are. -/
def FindsBy (r : ModuleResolver (Traced σ)) (find : String → Path → σ → Option Path) : Prop :=
  ∀ specifier importer t,
    answer (r.native r.options r.storage specifier importer) t = find specifier importer t.inner ∧
      (after (r.native r.options r.storage specifier importer) t).inner = t.inner

section Stages

variable {τ : Type} {r : ModuleResolver τ} {specifier : String} {importer : Path} {t : τ}

theorem resolve_of_some {path : Path}
    (hsome : answer (r.native r.options r.storage specifier importer) t = some path) :
    answer (r.resolve specifier importer) t = some ⟨path, .native⟩ ∧
      after (r.resolve specifier importer) t =
        after (r.native r.options r.storage specifier importer) t := by
  rw [resolve, answer_bind, after_bind, hsome]
  exact ⟨rfl, rfl⟩

theorem resolve_of_missed
    (hnone : answer (r.native r.options r.storage specifier importer) t = none) :
    let asked := after (r.native r.options r.storage specifier importer) t
    answer (r.resolve specifier importer) t = answer (r.resolveFallback specifier) asked ∧
      after (r.resolve specifier importer) t = after (r.resolveFallback specifier) asked := by
  rw [resolve, answer_bind, after_bind, hnone]
  exact ⟨rfl, rfl⟩

theorem answer_resolveFallback : answer (r.resolveFallback specifier) t =
    (answer (firstExisting r.storage (r.fallback.allCandidates specifier)) t).map
      (⟨·, .fallback⟩) := rfl

theorem after_resolveFallback : after (r.resolveFallback specifier) t =
    after (firstExisting r.storage (r.fallback.allCandidates specifier)) t := rfl

end Stages

section Resolver

variable {r : ModuleResolver (Traced σ)} (hstill : inside.Still)
  (hr : r.storage = Traced.storage inside)

include hstill hr

/-- An import that is not resolved natively. -/
theorem resolve_of_none {specifier : String} {importer : Path} {t : Traced σ}
    (hnone : answer (r.native r.options r.storage specifier importer) t = none) :
    let asked := after (r.native r.options r.storage specifier importer) t
    ∃ probes found, Tried (fun path => answer (inside.contains path) asked.inner)
        (r.fallback.allCandidates specifier) probes found ∧
      answer (r.resolve specifier importer) t = found.map (⟨·, .fallback⟩) ∧
      after (r.resolve specifier importer) t =
        ⟨asked.inner, asked.calls ++ probes.map .contains⟩ := by
  intro asked
  obtain ⟨hanswer, hafter⟩ := resolve_of_missed hnone
  rw [answer_resolveFallback] at hanswer
  rw [after_resolveFallback] at hafter
  obtain ⟨probes, found, htried, ha, hs⟩ :=
    tried_firstExisting hstill (r.fallback.allCandidates specifier) asked
  rw [← hr] at ha hs
  exact ⟨probes, found, htried, hanswer.trans (congrArg _ ha), hafter.trans hs⟩

variable {find : String → Path → σ → Option Path} (hfind : r.FindsBy find)

include hfind

theorem inner_resolve (specifier : String) (importer : Path) (t : Traced σ) :
    (after (r.resolve specifier importer) t).inner = t.inner := by
  have hnative := (hfind specifier importer t).2
  cases ha : answer (r.native r.options r.storage specifier importer) t with
  | some path => rw [(resolve_of_some ha).2, hnative]
  | none =>
      obtain ⟨probes, found, -, -, hafter⟩ := resolve_of_none hstill hr ha
      rw [hafter]
      exact hnative

/-- What was asked before does not matter. -/
theorem answer_resolve_congr {t u : Traced σ} (h : u.inner = t.inner) (specifier : String)
    (importer : Path) :
    answer (r.resolve specifier importer) u = answer (r.resolve specifier importer) t := by
  obtain ⟨hut, hunder⟩ := hfind specifier importer u
  obtain ⟨htt, htnder⟩ := hfind specifier importer t
  have hsame : answer (r.native r.options r.storage specifier importer) u =
      answer (r.native r.options r.storage specifier importer) t := by rw [hut, htt, h]
  rw [resolve, answer_bind, answer_bind, hsame]
  cases answer (r.native r.options r.storage specifier importer) t with
  | some path => rfl
  | none =>
      obtain ⟨asked, hasked⟩ := asks_resolveFallback hstill (fun _ hprobe => hprobe) hr specifier
        (after (r.native r.options r.storage specifier importer) t)
      refine (hasked.again _ fun call _ => ?_).1
      rw [id, id, hunder, h, htnder]
      exact .refl inside _ call

theorem answer_resolveAll (importer : Path) : ∀ (specifiers : List String) (t : Traced σ),
    answer (r.resolveAll importer specifiers) t =
      specifiers.map fun specifier => answer (r.resolve specifier importer) t
  | [], _ => rfl
  | specifier :: rest, t => by
      have hrest := answer_resolveAll importer rest (after (r.resolve specifier importer) t)
      rw [resolveAll, answer_bind, answer_bind, hrest, List.map_cons]
      refine congrArg (_ :: ·) (List.map_congr_left fun other _ => ?_)
      exact answer_resolve_congr hstill hr hfind (inner_resolve hstill hr hfind _ _ _) other importer

end Resolver

/-- Each import of a file is resolved as it would be alone. What is found natively is taken without
further questions; otherwise the candidates of the fallback directories, two a directory, are asked
for in order until one is there, which is a declaration file, and nothing else is asked. -/
theorem resolution_exact {r : ModuleResolver (Traced σ)} (hstill : inside.Still)
    (hr : r.storage = Traced.storage inside) {find : String → Path → σ → Option Path}
    (hfind : r.FindsBy find) (importer : Path) (specifiers : List String) (t : Traced σ) :
    answer (r.resolveAll importer specifiers) t =
        specifiers.map (fun specifier => answer (r.resolve specifier importer) t) ∧
      ∀ specifier,
        let asked := after (r.native r.options r.storage specifier importer) t
        match find specifier importer t.inner with
        | some path => answer (r.resolve specifier importer) t = some ⟨path, .native⟩ ∧
            after (r.resolve specifier importer) t = asked
        | none => ∃ probes found,
            Tried (fun path => answer (inside.contains path) t.inner)
              (r.fallback.dirs.flatMap fun dir =>
                [(dir.join ⟨specifier⟩).join ⟨"index.d.ts"⟩, dir.join ⟨specifier ++ ".d.ts"⟩])
              probes found ∧
            answer (r.resolve specifier importer) t = found.map (⟨·, .fallback⟩) ∧
            (∀ m, answer (r.resolve specifier importer) t = some m → m.isDeclaration = true) ∧
            after (r.resolve specifier importer) t =
              ⟨t.inner, asked.calls ++ probes.map .contains⟩ := by
  refine ⟨answer_resolveAll hstill hr hfind importer specifiers t, fun specifier => ?_⟩
  intro asked
  obtain ⟨hanswer, hinner⟩ := hfind specifier importer t
  rw [← hanswer]
  cases hnative : answer (r.native r.options r.storage specifier importer) t with
  | some path => exact resolve_of_some hnative
  | none =>
      obtain ⟨probes, found, htried, ha, hs⟩ := resolve_of_none hstill hr hnative
      rw [hinner] at htried hs
      refine ⟨probes, found, htried, ha, fun m hm => ?_, hs⟩
      rw [ha] at hm
      obtain ⟨path, hpath, rfl⟩ := Option.map_eq_some_iff.1 hm
      exact SearchPath.isDeclaration_of_mem (htried.mem_candidates hpath) .fallback

/-! ## A resolution by the line checker -/

theorem findsBy_of_onlyAsks {r : ModuleResolver (Traced σ)} {may : Call → Prop}
    (hr : r.storage = Traced.storage inside) (h : r.native.OnlyAsks inside may) :
    r.FindsBy fun specifier importer s =>
      answer (r.native r.options r.storage specifier importer) ⟨s, []⟩ := by
  intro specifier importer t
  obtain ⟨asked, hasked⟩ := h r.options specifier importer ⟨t.inner, []⟩
  rw [← hr] at hasked
  obtain ⟨hanswer, hafter⟩ := hasked.again t fun call _ => .refl inside _ call
  refine ⟨hanswer, ?_⟩
  rw [show after (r.native r.options r.storage specifier importer) t = _ from hafter]
  rfl

/-- A file beside the importer, and declarations of one module in the second and the third of three
fallback directories. -/
def mixedLayout : Memory.Store :=
  Memory.exact.withFiles
    [(⟨"/p/util.ts"⟩, ""), (⟨"/two/pkg.d.ts"⟩, ""), (⟨"/three/pkg/index.d.ts"⟩, "")]

def mixedResolver : ModuleResolver (Traced Memory.Store) :=
  ⟨LineChecker.resolveModule, Traced.storage Memory.exact.storage, {},
    ⟨[⟨"/one"⟩, ⟨"/two"⟩, ⟨"/three"⟩]⟩⟩

theorem resolution_exact_mixed :
    answer (mixedResolver.resolveAll ⟨"/p/a.ts"⟩ ["./util", "pkg", "gone"]) ⟨mixedLayout, []⟩ =
      [some ⟨⟨"/p/util.ts"⟩, .native⟩, some ⟨⟨"/two/pkg.d.ts"⟩, .fallback⟩, none] := by
  have hstill : Memory.exact.storage.Still := fun _ => Memory.exact.looks_storage _
  have hnative : mixedResolver.native.OnlyAsks Memory.exact.storage Call.IsProbe :=
    LineChecker.resolveModule_onlyAsks hstill fun _ hprobe => hprobe
  have hfind := findsBy_of_onlyAsks (r := mixedResolver) rfl hnative
  exact (resolution_exact hstill rfl hfind _ _ _).1.trans (by decide +kernel)

end ModuleResolver

end CompileWatch
