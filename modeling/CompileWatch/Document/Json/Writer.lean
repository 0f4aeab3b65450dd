import CompileWatch.Decimal.Shortest
import CompileWatch.Document.Basic
import CompileWatch.Text.Lines

/-!
# Writing JSON

Documents on one line, without blanks between tokens. In a string, quotes,
backslashes and control characters are escaped, so that no line break of a text
breaks the line.
-/

namespace CompileWatch.Json

/-- One character as it stands in a string. -/
def escapeChar (c : Char) : List Char :=
  if c = '"' || c = '\\' then ['\\', c]
  else if c = '\x08' then ['\\', 'b']
  else if c = '\t' then ['\\', 't']
  else if c = '\n' then ['\\', 'n']
  else if c = '\x0c' then ['\\', 'f']
  else if c = '\r' then ['\\', 'r']
  else if c.toNat < 0x20 then
    ['\\', 'u', '0', '0', Nat.digitChar (c.toNat / 16), Nat.digitChar (c.toNat % 16)]
  else [c]

/-- A string with its quotes. -/
def writeText (text : String) : List Char := '"' :: (text.toList.flatMap escapeChar ++ ['"'])

def writeInteger (value : Int) : List Char :=
  if value < 0 then '-' :: Nat.toDigits 10 value.natAbs else Nat.toDigits 10 value.natAbs

mutual

/-- The characters of a document. -/
def write : Document → List Char
  | .null => "null".toList
  | .bool true => "true".toList
  | .bool false => "false".toList
  | .integer value => writeInteger value
  | .number value => (value.render Decimal.plainLayout).toList
  | .text value => writeText value
  | .array items => '[' :: (writeItems items ++ [']'])
  | .object fields => '\x7b' :: (writeFields fields ++ ['\x7d'])

/-- The items of an array with commas between them. -/
def writeItems : List Document → List Char
  | [] => []
  | [item] => write item
  | item :: rest => write item ++ ',' :: writeItems rest

/-- The fields of an object with commas between them. -/
def writeFields : List (String × Document) → List Char
  | [] => []
  | [(key, value)] => writeText key ++ ':' :: write value
  | (key, value) :: rest => writeText key ++ ':' :: (write value ++ ',' :: writeFields rest)

end

/-- The line of a document. -/
def render (document : Document) : String := String.ofList (write document)

end CompileWatch.Json
