import CompileWatch.Document.Json.Reader
import CompileWatch.Document.Json5.Characters

/-!
# The grammar of JSON5

JSON with comments, single quotes, unquoted keys, one trailing comma in a list
and more ways to write a number. A text that follows the grammar is read into a
tree of spellings first; what the spellings mean is settled afterwards, so a
text that breaks the grammar anywhere is refused before any value is looked at.
-/

namespace CompileWatch.Json5

/-- What a string or a key is spelled of. -/
inductive Piece where
  /-- A character that stands for itself. -/
  | plain (c : Char)
  /-- A backslash before a letter or a sign. -/
  | escaped (c : Char)
  /-- A backslash before a zero. -/
  | nul
  /-- A character below 256, by two digits. -/
  | byte (digits : List Char)
  /-- A code unit of 16 bits, by four digits. -/
  | unit (digits : List Char)

/-- A value as it is written. -/
inductive Spelling where
  | null
  | bool (value : Bool)
  | text (pieces : List Piece)
  | number (literal : List Char)
  | array (items : List Spelling)
  | object (fields : List (List Piece × Spelling))

def isHexDigit (c : Char) : Bool := (Json.hexValue? c).isSome

/-- What follows the end of a block comment. -/
def afterBlockComment? : List Char → Option (List Char)
  | '*' :: '/' :: rest => some rest
  | _ :: rest => afterBlockComment? rest
  | [] => none

theorem length_afterBlockComment {cs rest : List Char} (h : afterBlockComment? cs = some rest) :
    rest.length ≤ cs.length := by
  fun_induction afterBlockComment? cs with
  | case1 => simp_all; omega
  | case2 c cs _ ih =>
    have := ih h
    simp only [List.length_cons]
    omega
  | case3 => simp at h

/-- What follows blanks and comments. A block comment that never ends is none. -/
def skip (cs : List Char) : List Char :=
  match cs with
  | '/' :: '*' :: rest =>
    match h : afterBlockComment? rest with
    | some after =>
      have := length_afterBlockComment h
      skip after
    | none => cs
  | '/' :: '/' :: rest => skip (rest.dropWhile fun c => !isLineTerminator c)
  | c :: rest => if isSpace c then skip rest else cs
  | [] => []
termination_by cs.length
decreasing_by
  · simp only [List.length_cons]
    omega
  · have := (List.dropWhile_sublist (fun c => !isLineTerminator c) (l := rest)).length_le
    simp only [List.length_cons]
    omega
  · simp

/-- The pieces of a string up to its closing quote. A backslash joins two lines. -/
def readPieces (quote : Char) : List Char → Option (List Piece × List Char)
  | '\\' :: 'x' :: a :: b :: rest =>
    if [a, b].all isHexDigit then
      (readPieces quote rest).map fun (pieces, after) => (.byte [a, b] :: pieces, after)
    else none
  | '\\' :: 'u' :: a :: b :: c :: d :: rest =>
    if [a, b, c, d].all isHexDigit then
      (readPieces quote rest).map fun (pieces, after) => (.unit [a, b, c, d] :: pieces, after)
    else none
  | '\\' :: '0' :: rest =>
    (readPieces quote rest).map fun (pieces, after) => (.nul :: pieces, after)
  | '\\' :: '\r' :: '\n' :: rest => readPieces quote rest
  | '\\' :: c :: rest =>
    if isLineTerminator c then readPieces quote rest
    else if c.isDigit || c = 'x' || c = 'u' then none
    else (readPieces quote rest).map fun (pieces, after) => (.escaped c :: pieces, after)
  | c :: rest =>
    if c = quote then some ([], rest)
    else if c = '\\' || isLineTerminator c then none
    else (readPieces quote rest).map fun (pieces, after) => (.plain c :: pieces, after)
  | [] => none

/-- The longest run of characters that may stand in an unquoted key. -/
def readKeyParts (cs : List Char) : List Piece × List Char :=
  match cs with
  | '\\' :: 'u' :: a :: b :: c :: d :: rest =>
    if [a, b, c, d].all isHexDigit then
      let (pieces, after) := readKeyParts rest
      (.unit [a, b, c, d] :: pieces, after)
    else ([], cs)
  | c :: rest =>
    if isKeyPart c then
      let (pieces, after) := readKeyParts rest
      (.plain c :: pieces, after)
    else ([], cs)
  | [] => ([], [])

/-- A key: a string, or a name that begins with a letter, a dollar, a low line or an escape. -/
def readKey : List Char → Option (List Piece × List Char)
  | '"' :: rest => readPieces '"' rest
  | '\'' :: rest => readPieces '\'' rest
  | '\\' :: rest => match readKeyParts ('\\' :: rest) with
    | ([], _) => none
    | key => some key
  | c :: rest => if isKeyStart c then some (readKeyParts (c :: rest)) else none
  | [] => none

/-- An exponent with at least one digit, or nothing. -/
def readExponent (cs : List Char) : List Char × List Char :=
  match cs with
  | e :: rest =>
    if e = 'e' || e = 'E' then
      let (sign, unsigned) := match rest with
        | '+' :: more => (['+'], more)
        | '-' :: more => (['-'], more)
        | more => ([], more)
      match Json.spanDigits unsigned with
      | ([], _) => ([], cs)
      | (digits, after) => (e :: (sign ++ digits), after)
    else ([], cs)
  | [] => ([], [])

/-- The whole part of a number: one zero, or digits that start with another one. -/
def readWhole : List Char → List Char × List Char
  | '0' :: rest => (['0'], rest)
  | cs => Json.spanDigits cs

/-- A decimal number without sign. -/
def readDecimal (cs : List Char) : Option (List Char × List Char) :=
  match readWhole cs with
  | ([], '.' :: rest) => match Json.spanDigits rest with
    | ([], _) => none
    | (digits, afterDigits) =>
      let (exponent, after) := readExponent afterDigits
      some ('.' :: (digits ++ exponent), after)
  | ([], _) => none
  | (whole, '.' :: rest) =>
    let (digits, afterDigits) := Json.spanDigits rest
    let (exponent, after) := readExponent afterDigits
    some (whole ++ '.' :: (digits ++ exponent), after)
  | (whole, rest) =>
    let (exponent, after) := readExponent rest
    some (whole ++ exponent, after)

/-- A number without sign. -/
def readUnsigned (cs : List Char) : Option (List Char × List Char) :=
  match cs with
  | '0' :: x :: rest =>
    if x = 'x' || x = 'X' then
      match rest.span isHexDigit with
      | ([], _) => readDecimal cs
      | (digits, after) => some ('0' :: x :: digits, after)
    else readDecimal cs
  | 'I' :: 'n' :: 'f' :: 'i' :: 'n' :: 'i' :: 't' :: 'y' :: rest => some ("Infinity".toList, rest)
  | 'N' :: 'a' :: 'N' :: rest => some ("NaN".toList, rest)
  | _ => readDecimal cs

/-- A number with its sign, if any. -/
def readNumber : List Char → Option (List Char × List Char)
  | '+' :: rest => (readUnsigned rest).map fun (literal, after) => ('+' :: literal, after)
  | '-' :: rest => (readUnsigned rest).map fun (literal, after) => ('-' :: literal, after)
  | cs => readUnsigned cs

mutual

/-- A value at the start of a text. The fuel bounds the nesting and the number of parts. -/
def readValue : Nat → List Char → Option (Spelling × List Char)
  | 0, _ => none
  | fuel + 1, cs =>
    match cs with
    | 'n' :: 'u' :: 'l' :: 'l' :: rest => some (.null, rest)
    | 't' :: 'r' :: 'u' :: 'e' :: rest => some (.bool true, rest)
    | 'f' :: 'a' :: 'l' :: 's' :: 'e' :: rest => some (.bool false, rest)
    | '"' :: rest => (readPieces '"' rest).map fun (pieces, after) => (.text pieces, after)
    | '\'' :: rest => (readPieces '\'' rest).map fun (pieces, after) => (.text pieces, after)
    | '[' :: rest => match skip rest with
      | ']' :: after => some (.array [], after)
      | inner => (readItems fuel inner).map fun (items, after) => (.array items, after)
    | '\x7b' :: rest => match skip rest with
      | '\x7d' :: after => some (.object [], after)
      | inner => (readFields fuel inner).map fun (fields, after) => (.object fields, after)
    | _ => (readNumber cs).map fun (literal, after) => (.number literal, after)

/-- The items of an array, at least one, up to its closing bracket. -/
def readItems : Nat → List Char → Option (List Spelling × List Char)
  | 0, _ => none
  | fuel + 1, cs => do
    let (item, afterItem) ← readValue fuel cs
    match skip afterItem with
    | ']' :: after => some ([item], after)
    | ',' :: rest => match skip rest with
      | ']' :: after => some ([item], after)
      | more => (readItems fuel more).map fun (items, after) => (item :: items, after)
    | _ => none

/-- The fields of an object, at least one, up to its closing brace. -/
def readFields : Nat → List Char → Option (List (List Piece × Spelling) × List Char)
  | 0, _ => none
  | fuel + 1, cs => do
    let (key, afterKey) ← readKey cs
    match skip afterKey with
    | ':' :: afterColon => do
      let (value, afterValue) ← readValue fuel (skip afterColon)
      match skip afterValue with
      | '\x7d' :: after => some ([(key, value)], after)
      | ',' :: rest => match skip rest with
        | '\x7d' :: after => some ([(key, value)], after)
        | more =>
          (readFields fuel more).map fun (fields, after) => ((key, value) :: fields, after)
      | _ => none
    | _ => none

end

/-- The spelling of a whole text, if it follows the grammar. No text has more parts than
characters. -/
def Spelling.ofText? (text : String) : Option Spelling :=
  match readValue (text.length + 1) (skip text.toList) with
  | some (spelling, after) => if (skip after).isEmpty then some spelling else none
  | none => none

end CompileWatch.Json5
