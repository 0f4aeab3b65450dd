import CompileWatch.Document.Basic
import CompileWatch.Journal
import CompileWatch.Path.Basic

/-!
# Diagnostics

What the compiler says about a program. A diagnostic with a location points into
a source; one without is about the build as a whole.
-/

namespace CompileWatch

inductive Severity where
  | error | warning | suggestion | message
deriving DecidableEq, Repr

namespace Severity

def name : Severity → String
  | error => "error"
  | warning => "warning"
  | suggestion => "suggestion"
  | message => "message"

def all : List Severity := [error, warning, suggestion, message]

end Severity

/-- A place in a source. Lines and columns count from one. -/
structure Location where
  file : Path
  line : Nat
  column : Nat
deriving DecidableEq, Repr

structure Diagnostic where
  severity : Severity
  code : Option Nat
  message : String
  location : Option Location
deriving DecidableEq, Repr

namespace Diagnostic

def isError (d : Diagnostic) : Bool := d.severity = .error

/-- The file that a diagnostic points into. -/
def file? (d : Diagnostic) : Option Path := d.location.map (·.file)

/-- The console form: place, severity, code and message. -/
def text (d : Diagnostic) : String :=
  let place := match d.location with
    | some l => s!"{l.file.text}({l.line},{l.column}): "
    | none => ""
  let code := match d.code with
    | some n => s!" TS{n}"
    | none => ""
  s!"{place}{d.severity.name}{code}: {d.message}"

/-- A diagnostic as a document. -/
def encode (d : Diagnostic) : Document :=
  .ofFields
    [("severity", .text d.severity.name),
     ("code", .ofOption (.integer <| Int.ofNat ·) d.code),
     ("message", .text d.message),
     ("location", .ofOption (fun place => .ofFields
       [("file", .text place.file.text), ("line", .integer place.line),
        ("column", .integer place.column)]) d.location)]

/-- Reports diagnostics in console form, errors as warnings of the journal. -/
def reportAll : List Diagnostic → Exec σ Unit
  | [] => pure ()
  | d :: rest => do
    Exec.report (if d.isError then .warn else .info) d.text
    reportAll rest

end Diagnostic

end CompileWatch
