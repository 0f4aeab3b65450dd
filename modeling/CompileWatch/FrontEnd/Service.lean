import CompileWatch.FrontEnd.Interface
import CompileWatch.Path.Table

/-!
# Keyed services

A language service that keeps one analysis per file and makes a new one only
when the version of the file has changed. What an analysis finds out about a
text, and what output follows from it, is the business of an *analyst*; the
keeping is the same for all of them.
-/

namespace CompileWatch

/-- What was found out about one version of a file. -/
structure Analysis (ρ : Type) where
  version : Nat
  text : String
  findings : ρ

/-- How texts are judged. -/
structure Analyst (σ ρ : Type) where
  /-- What is found out about the text of a file. -/
  study : AnalysisHost σ → Path → String → Exec σ ρ
  /-- The output of a file with such a text. -/
  output : CompilerOptions → Path → String → ρ → EmitOutput
  /-- What there is to say. -/
  report : ρ → List Diagnostic

/-- The latest analysis of each file, and how many were made. -/
structure Knowledge (ρ : Type) where
  analyses : Path.Table (Analysis ρ) := .empty
  count : Nat := 0

instance {ρ : Type} : Inhabited (Knowledge ρ) := ⟨{}⟩

namespace Knowledge

variable {ρ : Type}

/-- Keeps a new analysis. -/
def learn (k : Knowledge ρ) (file : Path) (analysis : Analysis ρ) : Knowledge ρ :=
  ⟨k.analyses.set file analysis, k.count + 1⟩

/-- The analysis of a file that is up to date. -/
def current? (k : Knowledge ρ) (file : Path) (version : Nat) : Option (Analysis ρ) :=
  (k.analyses.find? file).filter (·.version == version)

end Knowledge

namespace Analyst

variable {σ ρ : Type}

/-- The analysis of the present version of a file. A file without version or text has none. -/
def analyze (analyst : Analyst σ ρ) (host : AnalysisHost σ) (file : Path) :
    StateT (Knowledge ρ) (Exec σ) (Option (Analysis ρ)) := do
  match host.scriptVersion file with
  | none => return none
  | some version =>
    match (← get).current? file version with
    | some analysis => return some analysis
    | none =>
      match ← host.scriptSnapshot file with
      | none => return none
      | some text =>
        let findings ← analyst.study host file text
        let analysis : Analysis ρ := ⟨version, text, findings⟩
        modify (·.learn file analysis)
        return some analysis

/-- The output of one file; a file without analysis is skipped. -/
def emitOutput (analyst : Analyst σ ρ) (host : AnalysisHost σ) (file : Path) :
    StateT (Knowledge ρ) (Exec σ) EmitOutput := do
  match ← analyst.analyze host file with
  | none => return .skipped
  | some analysis => return analyst.output host.options file analysis.text analysis.findings

def diagnosticsOf (analyst : Analyst σ ρ) (host : AnalysisHost σ) (file : Path) :
    StateT (Knowledge ρ) (Exec σ) (List Diagnostic) := do
  return ((← analyst.analyze host file).map fun analysis => analyst.report analysis.findings).getD []

end Analyst

end CompileWatch
