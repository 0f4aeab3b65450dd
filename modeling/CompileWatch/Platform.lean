import CompileWatch.Host.Program
import CompileWatch.Host.Session

/-!
# Platforms

What every build and every session is given besides its project: the file
system, the compiler, and the directory in which it runs.
-/

namespace CompileWatch

structure Platform (σ κ : Type) where
  storage : Storage σ
  frontEnd : FrontEnd σ κ
  currentDir : Path
  /-- Whether the operating system can watch a path of a state for changes. -/
  canObserve : σ → Path → Bool

namespace Platform

variable {σ κ : Type}

/-- The environment that a state offers to a project. -/
def environment (p : Platform σ κ) (store : σ) (options : CompilerOptions) : HostEnvironment :=
  .detect p.currentDir p.storage store options

/-- The host of a build over a state. -/
def programHost (p : Platform σ κ) (store : σ) (config : HostConfig) : ProjectHost σ κ :=
  ⟨config, p.environment store config.options, p.storage, p.frontEnd⟩

/-- The host of a session over a state, at a moment with the given versions. -/
def sessionHost (p : Platform σ κ) (store : σ) (config : HostConfig) (versions : VersionTable) :
    SessionHost σ κ :=
  ⟨config, p.environment store config.options, p.storage, p.frontEnd, versions⟩

end Platform

end CompileWatch
