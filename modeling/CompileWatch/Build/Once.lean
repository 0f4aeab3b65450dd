import CompileWatch.Build.Request
import CompileWatch.Platform

/-!
# Builds

Compiles a whole program once. Diagnostics are part of the result and never fail
a build; a missing list of entries, an output that cannot be written and a
failure of the front end do.
-/

namespace CompileWatch

variable {σ κ : Type}

/-- Carries out a build request. -/
def build (p : Platform σ κ) (request : BuildRequest) :
    Exec σ (Except HostError BuildResult) := do
  match request.requireEntries with
  | .error e => return .error e
  | .ok () =>
    let host := p.programHost (← get).store request.hostConfig
    match ← p.frontEnd.emitProgram request.entryFiles request.options host.view with
    | .error e => return .error e
    | .ok result =>
      Diagnostic.reportAll result.diagnostics
      Exec.info "build finished"
      return .ok result

end CompileWatch
