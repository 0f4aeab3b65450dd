import CompileWatch.Document.Json5.Spelling

/-!
# Reading JSON5

What spellings mean, settled from left to right. A whole number is an integer
of 64 bits with sign, digits of base sixteen are 32 bits without one, and every
other number is a double; numbers that are not finite have no value in a
document and become null.
-/

namespace CompileWatch.Json5

open CompileWatch.Decimal

/-- Why a text has no value. -/
inductive ReadFailure where
  /-- The text breaks the grammar. -/
  | malformed
  | hexOutOfRange
  | integerOutOfRange
  | notANumber
  | numberTooLarge
  | trailUnitAlone
  | trailUnitExpected
  | trailUnitMissing
  | pairOutOfRange
deriving DecidableEq, Repr

/-- How a failure is put to the reader. What breaks the grammar is not told apart. -/
def ReadFailure.message : ReadFailure → String
  | malformed => "<syntax>"
  | hexOutOfRange => "error parsing hex"
  | integerOutOfRange => "error parsing integer"
  | notANumber => "error parsing number"
  | numberTooLarge => "error parsing number: too large"
  | trailUnitAlone => "unexpected unicode trail surrogate"
  | trailUnitExpected => "expecting unicode trail surrogate"
  | trailUnitMissing => "missing unicode trail surrogate"
  | pairOutOfRange => "invalid non-BMP unicode sequence"

/-- The number below 2^32 that digits of base sixteen spell. -/
def hexWord (digits : List Char) : Except ReadFailure Nat :=
  match Json.hexNumber? digits with
  | some n => if digits.isEmpty || 0x100000000 ≤ n then .error .hexOutOfRange else .ok n
  | none => .error .hexOutOfRange

/-- What a character after a backslash stands for. -/
def unescape : Char → Char
  | 'b' => '\x08'
  | 'f' => '\x0c'
  | 'n' => '\n'
  | 'r' => '\r'
  | 't' => '\t'
  | 'v' => '\x0b'
  | c => c

/-- The digits or the character of a piece, as they are written. -/
def Piece.spelled : Piece → List Char
  | .plain c => [c]
  | .escaped c => [c]
  | .nul => ['0']
  | .byte digits => digits
  | .unit digits => digits

/-- The character of two code units. The offset 0x10000 is set as a bit and not added, so a pair
whose lead unit carries that bit already does not gain it. -/
def pairChar? (lead trail : Nat) : Option Char :=
  let code := ((lead - 0xD800) <<< 10) ||| ((trail - 0xDC00) + 0x10000)
  if h : code.isValidChar then some (Char.ofNatAux code h) else none

/-- The characters that pieces stand for. -/
def readPiecesText : List Piece → Except ReadFailure (List Char)
  | [] => .ok []
  | .plain c :: rest => (c :: ·) <$> readPiecesText rest
  | .escaped c :: rest => (unescape c :: ·) <$> readPiecesText rest
  | .nul :: rest => ('\x00' :: ·) <$> readPiecesText rest
  | .byte digits :: rest => do
    let code ← hexWord digits
    (Char.ofNat code :: ·) <$> readPiecesText rest
  | .unit digits :: rest => do
    let code ← hexWord digits
    if Json.isTrailUnit code then .error .trailUnitAlone
    else if Json.isLeadUnit code then
      match rest with
      | [] => .error .trailUnitMissing
      | next :: rest => do
        let trail ← hexWord next.spelled
        if Json.isTrailUnit trail then
          match pairChar? code trail with
          | some c => (c :: ·) <$> readPiecesText rest
          | none => .error .pairOutOfRange
        else .error .trailUnitExpected
    else (Char.ofNat code :: ·) <$> readPiecesText rest

def readText (pieces : List Piece) : Except ReadFailure String :=
  String.ofList <$> readPiecesText pieces

/-- Whether a literal is in base sixteen; one with a sign is not taken for such. -/
def isHexLiteral : List Char → Bool
  | '0' :: x :: _ :: _ => x = 'x' || x = 'X'
  | _ => false

/-- The literals that name a number which is not finite. -/
def nonFiniteLiterals : List (List Char) :=
  ["Infinity".toList, "-Infinity".toList, "NaN".toList, "-NaN".toList]

/-- Whether a literal has the form of a whole number: neither point nor decimal exponent, and not
one of the names. -/
def isWholeLiteral (literal : List Char) : Bool :=
  !literal.contains '.' &&
    (isHexLiteral literal || (!literal.contains 'e' && !literal.contains 'E')) &&
    !nonFiniteLiterals.contains literal

/-- A leading sign, and what follows it. -/
def splitSign : List Char → Bool × List Char
  | '-' :: rest => (true, rest)
  | '+' :: rest => (false, rest)
  | cs => (false, cs)

/-- The value of a whole literal. -/
def readInteger (literal : List Char) : Except ReadFailure Int :=
  if isHexLiteral literal then Int.ofNat <$> hexWord (literal.drop 2)
  else
    let (negative, digits) := splitSign literal
    let n := Json.decimalNumber digits
    if digits.isEmpty || !digits.all Char.isDigit then .error .integerOutOfRange
    else if n < 0x8000000000000000 || (negative && n = 0x8000000000000000) then
      .ok (if negative then -n else n)
    else .error .integerOutOfRange

/-- Digits, point and exponent of a decimal without sign. -/
def decimalParts? (cs : List Char) : Option (List Char × List Char × Int) :=
  let (whole, afterWhole) := Json.spanDigits cs
  let (fraction, afterFraction) := match afterWhole with
    | '.' :: rest => Json.spanDigits rest
    | rest => ([], rest)
  match Json.readExponent afterFraction with
  | some (exponent, []) =>
    if whole.isEmpty && fraction.isEmpty then none else some (whole, fraction, exponent.getD 0)
  | _ => none

/-- The value of any other literal; nothing if it is not finite. -/
def readDouble (literal : List Char) : Except ReadFailure (Option Binary64) :=
  let (negative, unsigned) := splitSign literal
  if unsigned = "Infinity".toList || unsigned = "NaN".toList then .ok none
  else
    match decimalParts? unsigned with
    | some (whole, fraction, exponent) =>
      match Binary64.ofDecimal? negative (Json.decimalNumber (whole ++ fraction))
        (exponent - fraction.length) with
      | some x => .ok (some x)
      | none => .error .numberTooLarge
    | none => .error .notANumber

/-- The value of a number. -/
def readLiteral (literal : List Char) : Except ReadFailure Document :=
  if isWholeLiteral literal then .integer <$> readInteger literal
  else (Document.ofOption .number) <$> readDouble literal

mutual

/-- The document that a spelling stands for. -/
def Spelling.document : Spelling → Except ReadFailure Document
  | .null => .ok .null
  | .bool value => .ok (.bool value)
  | .text pieces => .text <$> readText pieces
  | .number literal => readLiteral literal
  | .array items => .array <$> documents items
  | .object fields => .ofFields <$> fieldDocuments fields

/-- The documents of an array. -/
def documents : List Spelling → Except ReadFailure (List Document)
  | [] => .ok []
  | item :: rest => do
    let first ← item.document
    (first :: ·) <$> documents rest

/-- The fields of an object, each key before its value. -/
def fieldDocuments :
    List (List Piece × Spelling) → Except ReadFailure (List (String × Document))
  | [] => .ok []
  | (key, value) :: rest => do
    let name ← readText key
    let document ← value.document
    ((name, document) :: ·) <$> fieldDocuments rest

end

/-- The document that a text spells. -/
def read (text : String) : Except ReadFailure Document :=
  match Spelling.ofText? text with
  | some spelling => spelling.document
  | none => .error .malformed

end CompileWatch.Json5
