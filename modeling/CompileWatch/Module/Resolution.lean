import CompileWatch.Module.Resolved
import CompileWatch.Module.SearchPath
import CompileWatch.Options.Basic
import CompileWatch.Storage.Basic

/-!
# Module resolution

An import is resolved by the front end first, and what it finds always wins.
Only then the fallback directories are tried: each offers two files, and the
first file that exists is taken. No directory is listed, so a search costs at
most two questions a directory. An import that leads nowhere is no failure.
-/

namespace CompileWatch

/-- A front end's own way to find a module: options, file system, specifier and importing file. -/
abbrev NativeResolution (σ : Type) :=
  CompilerOptions → Storage σ → String → Path → StateM σ (Option Path)

/-- What is needed to resolve imports. -/
structure ModuleResolver (σ : Type) where
  native : NativeResolution σ
  storage : Storage σ
  options : CompilerOptions
  fallback : SearchPath

namespace ModuleResolver

variable {σ : Type}

/-- The first of some paths that exists; those after it are not asked for. -/
def firstExisting (storage : Storage σ) : List Path → StateM σ (Option Path)
  | [] => pure none
  | path :: rest => do
    if ← storage.contains path then return some path else firstExisting storage rest

/-- What the fallback directories offer for a module. -/
def resolveFallback (r : ModuleResolver σ) (specifier : String) :
    StateM σ (Option ResolvedModule) := do
  let found ← firstExisting r.storage (r.fallback.allCandidates specifier)
  return found.map (⟨·, .fallback⟩)

/-- The module that a file means by a specifier. -/
def resolve (r : ModuleResolver σ) (specifier : String) (importer : Path) :
    StateM σ (Option ResolvedModule) := do
  match ← r.native r.options r.storage specifier importer with
  | some path => return some ⟨path, .native⟩
  | none => r.resolveFallback specifier

/-- The modules that a file means by some specifiers, each in its place. -/
def resolveAll (r : ModuleResolver σ) (importer : Path) :
    List String → StateM σ (List (Option ResolvedModule))
  | [] => pure []
  | specifier :: rest => do
    let first ← r.resolve specifier importer
    let others ← r.resolveAll importer rest
    return first :: others

end ModuleResolver

end CompileWatch
