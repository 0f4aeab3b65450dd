import CompileWatch.Decimal.Scaled
import CompileWatch.Document.Basic

/-!
# Reading JSON

The standard grammar. A reader gives what it has recognised and what stands
after it. Whole numbers that fit 64 bits are integers; all other numbers, and a
zero with a minus sign, are doubles, read step by step in double arithmetic.
-/

namespace CompileWatch.Json

open CompileWatch.Decimal

def isJsonBlank (c : Char) : Bool := c = ' ' || c = '\t' || c = '\n' || c = '\r'

def skipBlank (cs : List Char) : List Char := cs.dropWhile isJsonBlank

/-- The value of a digit of base sixteen. -/
def hexValue? (c : Char) : Option Nat :=
  if '0' ≤ c && c ≤ '9' then some (c.toNat - '0'.toNat)
  else if 'a' ≤ c && c ≤ 'f' then some (c.toNat - 'a'.toNat + 10)
  else if 'A' ≤ c && c ≤ 'F' then some (c.toNat - 'A'.toNat + 10)
  else none

/-- The number that digits of base sixteen spell. -/
def hexNumber? (digits : List Char) : Option Nat :=
  digits.foldlM (fun n c => (hexValue? c).map (16 * n + ·)) 0

/-- What a string is spelled of: characters, and code units of 16 bits. -/
inductive Piece where
  | char (c : Char)
  | unit (code : Nat)

/-- The character that an escape of one letter stands for. -/
def shortEscape? : Char → Option Char
  | '"' => some '"'
  | '\\' => some '\\'
  | '/' => some '/'
  | 'b' => some '\x08'
  | 'f' => some '\x0c'
  | 'n' => some '\n'
  | 'r' => some '\r'
  | 't' => some '\t'
  | _ => none

/-- The pieces of a string up to its closing quote. -/
def readPieces : List Char → Option (List Piece × List Char)
  | '"' :: rest => some ([], rest)
  | '\\' :: 'u' :: a :: b :: c :: d :: rest => do
    let code ← hexNumber? [a, b, c, d]
    let (pieces, after) ← readPieces rest
    some (.unit code :: pieces, after)
  | '\\' :: letter :: rest => do
    let c ← shortEscape? letter
    let (pieces, after) ← readPieces rest
    some (.char c :: pieces, after)
  | c :: rest =>
    if c = '\\' || c.toNat < 0x20 then none
    else (readPieces rest).map fun (pieces, after) => (.char c :: pieces, after)
  | [] => none

def isLeadUnit (code : Nat) : Bool := 0xD800 ≤ code && code ≤ 0xDBFF

def isTrailUnit (code : Nat) : Bool := 0xDC00 ≤ code && code ≤ 0xDFFF

/-- The characters of a string; a code unit of a pair must have its partner. -/
def combinePieces : List Piece → Option (List Char)
  | [] => some []
  | .char c :: rest => (combinePieces rest).map (c :: ·)
  | .unit lead :: .unit trail :: rest =>
    if isLeadUnit lead then
      if isTrailUnit trail then
        (combinePieces rest).map
          (Char.ofNat (0x10000 + (lead - 0xD800) * 0x400 + (trail - 0xDC00)) :: ·)
      else none
    else if isTrailUnit lead then none
    else (combinePieces (.unit trail :: rest)).map (Char.ofNat lead :: ·)
  | .unit code :: rest =>
    if isLeadUnit code || isTrailUnit code then none
    else (combinePieces rest).map (Char.ofNat code :: ·)

/-- A string after its opening quote. -/
def readText (cs : List Char) : Option (String × List Char) := do
  let (pieces, after) ← readPieces cs
  let chars ← combinePieces pieces
  some (String.ofList chars, after)

/-- The digits at the start of a text, and what follows them. -/
def spanDigits (cs : List Char) : List Char × List Char := cs.span Char.isDigit

/-- The number that decimal digits spell. -/
def decimalNumber (digits : List Char) : Nat :=
  digits.foldl (fun n c => 10 * n + digitValue c) 0

/-- A fraction, with its point, if there is one. -/
def readFraction : List Char → Option (List Char × List Char)
  | '.' :: cs => match spanDigits cs with
    | ([], _) => none
    | (digits, after) => some (digits, after)
  | cs => some ([], cs)

/-- The value of an exponent, if there is one. -/
def readExponent (cs : List Char) : Option (Option Int × List Char) :=
  match cs with
  | 'e' :: rest | 'E' :: rest =>
    let (negative, unsigned) := match rest with
      | '-' :: more => (true, more)
      | '+' :: more => (false, more)
      | more => (false, more)
    match spanDigits unsigned with
    | ([], _) => none
    | (digits, after) =>
      let n : Int := decimalNumber digits
      some (some (if negative then -n else n), after)
  | _ => some (none, cs)

/-- A number after its sign. -/
def readUnsigned (negative : Bool) (cs : List Char) : Option (Document × List Char) := do
  let (digits, afterDigits) := spanDigits cs
  if digits.isEmpty || (digits.head? = some '0' && 1 < digits.length) then none
  let (fraction, afterFraction) ← readFraction afterDigits
  let (exponent, after) ← readExponent afterFraction
  let n := decimalNumber digits
  let fits :=
    if negative then 0 < n && n ≤ 0x8000000000000000 else n < wordLimit
  if fraction.isEmpty && exponent.isNone && fits then
    some (.integer (if negative then -n else n), after)
  else
    let x ← Binary64.ofDigits? negative digits fraction (exponent.getD 0)
    some (.number x, after)

mutual

/-- A value, blanks before it passed over. The fuel bounds the nesting and the number of parts. -/
def readValue : Nat → List Char → Option (Document × List Char)
  | 0, _ => none
  | fuel + 1, cs =>
    match skipBlank cs with
    | 'n' :: 'u' :: 'l' :: 'l' :: rest => some (.null, rest)
    | 't' :: 'r' :: 'u' :: 'e' :: rest => some (.bool true, rest)
    | 'f' :: 'a' :: 'l' :: 's' :: 'e' :: rest => some (.bool false, rest)
    | '"' :: rest => (readText rest).map fun (text, after) => (.text text, after)
    | '[' :: rest => match skipBlank rest with
      | ']' :: after => some (.array [], after)
      | _ => (readItems fuel rest).map fun (items, after) => (.array items, after)
    | '\x7b' :: rest => match skipBlank rest with
      | '\x7d' :: after => some (.object [], after)
      | _ => (readFields fuel rest).map fun (fields, after) => (.ofFields fields, after)
    | '-' :: rest => readUnsigned true rest
    | rest => readUnsigned false rest

/-- The items of an array, at least one, up to its closing bracket. -/
def readItems : Nat → List Char → Option (List Document × List Char)
  | 0, _ => none
  | fuel + 1, cs => do
    let (item, afterItem) ← readValue fuel cs
    match skipBlank afterItem with
    | ',' :: rest => (readItems fuel rest).map fun (items, after) => (item :: items, after)
    | ']' :: after => some ([item], after)
    | _ => none

/-- The fields of an object, at least one, up to its closing brace. -/
def readFields : Nat → List Char → Option (List (String × Document) × List Char)
  | 0, _ => none
  | fuel + 1, cs =>
    match skipBlank cs with
    | '"' :: afterQuote => do
      let (key, afterKey) ← readText afterQuote
      match skipBlank afterKey with
      | ':' :: afterColon => do
        let (value, afterValue) ← readValue fuel afterColon
        match skipBlank afterValue with
        | ',' :: rest =>
          (readFields fuel rest).map fun (fields, after) => ((key, value) :: fields, after)
        | '\x7d' :: after => some ([(key, value)], after)
        | _ => none
      | _ => none
    | _ => none

end

/-- The document that a text spells. No text has more parts than characters. -/
def parse? (text : String) : Option Document :=
  match readValue (text.length + 1) text.toList with
  | some (document, after) => if (skipBlank after).isEmpty then some document else none
  | none => none

end CompileWatch.Json
