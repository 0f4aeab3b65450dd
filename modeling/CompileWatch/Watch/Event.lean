import CompileWatch.Diagnostic
import CompileWatch.Document.Json.Reader
import CompileWatch.Document.Json.Writer

/-!
# Events of a session

A session tells what happens as a stream of events. Each event is one line of
JSON, from which it can be read back.
-/

namespace CompileWatch

inductive WatchEvent where
  /-- The session is set up. -/
  | watchStarted (root : String) (files : Nat)
  /-- A tracked file has a later time. -/
  | fileChanged (path : String) (version : Nat)
  /-- The output of a file was made. -/
  | emitted (path : String) (artifacts : List String) (emitSkipped : Bool)
  /-- A diagnostic, in console form. -/
  | diagnostic (message : String)
  /-- Something failed, and the session goes on. -/
  | error (message : String)
  | shutdown
deriving DecidableEq, Repr

namespace WatchEvent

def ofDiagnostic (d : Diagnostic) : WatchEvent := diagnostic d.text

/-- The name that tells the kinds of event apart. -/
def tag : WatchEvent → String
  | watchStarted _ _ => "watch_started"
  | fileChanged _ _ => "file_changed"
  | emitted _ _ _ => "emitted"
  | diagnostic _ => "diagnostic"
  | error _ => "error"
  | shutdown => "shutdown"

/-- The fields that an event has besides its tag. -/
def fields : WatchEvent → List (String × Document)
  | watchStarted root files => [("root", .text root), ("files", .integer files)]
  | fileChanged path version => [("path", .text path), ("version", .integer version)]
  | emitted path artifacts emitSkipped =>
    [("path", .text path), ("artifacts", .array (artifacts.map .text)),
     ("emit_skipped", .bool emitSkipped)]
  | diagnostic message => [("message", .text message)]
  | error message => [("message", .text message)]
  | shutdown => []

/-- An event as a document. -/
def encode (e : WatchEvent) : Document :=
  .ofFields (("command", .text "watch") :: ("event", .text e.tag) :: e.fields)

/-- The line of an event. -/
def line (e : WatchEvent) : String := Json.render e.encode

/-! ## Reading events back -/

def textField? (document : Document) (key : String) : Option String :=
  match document.field? key with
  | some (.text value) => some value
  | _ => none

def countField? (document : Document) (key : String) : Option Nat :=
  match document.field? key with
  | some (.integer (.ofNat value)) => some value
  | _ => none

def flagField? (document : Document) (key : String) : Option Bool :=
  match document.field? key with
  | some (.bool value) => some value
  | _ => none

def textsField? (document : Document) (key : String) : Option (List String) :=
  match document.field? key with
  | some (.array items) => items.mapM fun
    | .text value => some value
    | _ => none
  | _ => none

/-- The event that a document stands for. -/
def decode? (document : Document) : Option WatchEvent := do
  let command ← textField? document "command"
  if command ≠ "watch" then none
  match ← textField? document "event" with
  | "watch_started" =>
    return watchStarted (← textField? document "root") (← countField? document "files")
  | "file_changed" =>
    return fileChanged (← textField? document "path") (← countField? document "version")
  | "emitted" =>
    return emitted (← textField? document "path") (← textsField? document "artifacts")
      (← flagField? document "emit_skipped")
  | "diagnostic" => return diagnostic (← textField? document "message")
  | "error" => return error (← textField? document "message")
  | "shutdown" => return shutdown
  | _ => none

/-- The event that a line stands for. -/
def ofLine? (line : String) : Option WatchEvent := (Json.parse? line).bind decode?

end WatchEvent

end CompileWatch
