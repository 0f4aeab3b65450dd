import CompileWatch.Decimal.Shortest
import CompileWatch.Document.Basic
import CompileWatch.Text.Lines
import CompileWatch.Text.Quoted

/-!
# Documents of the wrong shape

What a reader of a document can find in place of what it expects, and how that
is put into words.
-/

namespace CompileWatch

/-- A document as an error names it: its kind, and its value when it is a single one. -/
def Document.describe : Document → String
  | .null => "null"
  | .bool true => "boolean `true`"
  | .bool false => "boolean `false`"
  | .integer value => s!"integer `{value}`"
  | .number value => s!"floating point `{value.render Decimal.plainLayout}`"
  | .text value => s!"string {Text.quoted value}"
  | .array _ => "sequence"
  | .object _ => "map"

/-- Why a document could not be read as what was expected. -/
inductive ShapeError where
  /-- A document of another kind than `expected`. -/
  | wrongKind (found : Document) (expected : String)
  /-- An array of `length` items where fewer were expected. -/
  | tooLong (length : Nat)
  /-- An object that should have named exactly one alternative. -/
  | notOneKey
  | unknownVariant (found : String) (known : List String)
  /-- A value of a known option that names nothing known. -/
  | unsupported (option value : String)

/-- How a list of alternatives is read out. -/
def ShapeError.alternatives (known : List String) : String :=
  " or ".intercalate (known.map fun name => s!"`{name}`")

def ShapeError.message : ShapeError → String
  | .wrongKind found expected => s!"invalid type: {found.describe}, expected {expected}"
  | .tooLong length => s!"invalid length {length}, expected fewer elements in array"
  | .notOneKey => "invalid value: map, expected map with a single key"
  | .unknownVariant found known => s!"unknown variant `{found}`, expected {alternatives known}"
  | .unsupported option value => s!"unsupported {option} value `{value}`"

namespace Document

def expectBool : Document → Except ShapeError Bool
  | .bool value => .ok value
  | other => .error (.wrongKind other "a boolean")

/-- A text; `expected` names what the text is for. -/
def expectText (expected : String) : Document → Except ShapeError String
  | .text value => .ok value
  | other => .error (.wrongKind other expected)

/-- Null for absence, anything else for a value. -/
def expectOptional (read : Document → Except ShapeError α) :
    Document → Except ShapeError (Option α)
  | .null => .ok none
  | other => some <$> read other

/-- An array whose items all read. -/
def expectArray (read : Document → Except ShapeError α) : Document → Except ShapeError (List α)
  | .array items => items.mapM read
  | other => .error (.wrongKind other "a sequence")

/-- One of several names: the name as a text, or as the single key of an object whose value is
null. -/
def expectName (known : List (String × α)) : Document → Except ShapeError α
  | .text name => find name
  | .object [(name, payload)] => do
    let value ← find name
    match payload with
    | .null => .ok value
    | other => .error (.wrongKind other "unit")
  | .object _ => .error .notOneKey
  | other => .error (.wrongKind other "string or map")
where
  find (name : String) : Except ShapeError α :=
    match known.find? fun k => k.1 == name with
    | some (_, value) => .ok value
    | none => .error (.unknownVariant name (known.map (·.1)))

/-- A record as it is read: the record so far, and the keys that it does not know. -/
abbrev RecordReading (α : Type) := α × List String

/-- Reads a record from an object, whose keys come in order, or from an array of the values of its
known keys. `step` gives the record with one more key read, or nothing for an unknown key, and
`inner` tells the unknown keys inside the value of a key. -/
def expectRecord (kind : String) (known : List String)
    (step : α → String → Document → Except ShapeError (Option (RecordReading α))) (start : α) :
    Document → Except ShapeError (RecordReading α)
  | .object fields =>
    fields.foldlM (fun (record, unknown) (key, value) => do
      match ← step record key value with
      | some (record, inner) => .ok (record, unknown ++ inner.map fun k => s!"{key}.{k}")
      | none => .ok (record, unknown ++ [key])) (start, [])
  | .array items => do
    let read ← ((known.zip items).zipIdx).foldlM (fun (record, unknown) ((key, value), place) => do
      match ← step record key value with
      | some (record, inner) => .ok (record, unknown ++ inner.map fun k => s!"{place}.{k}")
      | none => .ok (record, unknown)) (start, [])
    if known.length < items.length then .error (.tooLong items.length) else .ok read
  | other => .error (.wrongKind other kind)

end Document

end CompileWatch
