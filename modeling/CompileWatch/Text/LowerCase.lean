import CompileWatch.Text.CaseTable

/-!
# Lower case

Every letter has a lower-case form of its own, except that the capital sigma
takes its final form at the end of a word: when a cased character comes before
it and none after it, case-ignorable characters in between passed over.
-/

namespace CompileWatch.Text

/-- The code point that a run maps `code` to, if it lists it. -/
def CaseRun.map? (run : CaseRun) (code : Nat) : Option Char :=
  if run.first ≤ code && code ≤ run.last && (code - run.first) % run.step == 0 then
    some (Char.ofNat (code + run.offset).toNat)
  else none

/-- The lower-case form of a character outside any context. The dotted capital I keeps its dot as
a combining mark. -/
def lowerChar (c : Char) : List Char :=
  if c = 'İ' then ['i', '\u0307']
  else [(caseRuns.findSome? (·.map? c.toNat)).getD c]

def isCaseIgnorable (c : Char) : Bool := caseIgnorables.has c

/-- Whether the first character that is not case-ignorable has case. -/
def meetsCased (cs : List Char) : Bool :=
  match cs.dropWhile isCaseIgnorable with
  | c :: _ => casedLetters.has c
  | [] => false

/-- Lower-cases what follows the characters `before`, which are given nearest first. -/
def lowerAfter (before : List Char) : List Char → List Char
  | [] => []
  | c :: rest =>
    let lowered :=
      if c = 'Σ' then [if meetsCased before && !meetsCased rest then 'ς' else 'σ']
      else lowerChar c
    lowered ++ lowerAfter (c :: before) rest

/-- The lower-case form of a text. -/
def lowerCase (text : String) : String := String.ofList (lowerAfter [] text.toList)

/-- Lower-cases the letters of the Latin alphabet only. -/
def lowerAscii (text : String) : String := String.ofList (text.toList.map Char.toLower)

end CompileWatch.Text
