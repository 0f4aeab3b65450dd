/-!
# Lines of a text

A line ends at a line feed, and a carriage return just before the line feed
belongs to the ending. What follows the last line feed is a line of its own
when it holds anything.
-/

namespace CompileWatch.Text

/-- A line without the carriage return of its ending. -/
def dropCarriageReturn (line : List Char) : List Char :=
  if line.getLast? = some '\r' then line.dropLast else line

/-- Each piece but the last was ended by a line feed. -/
def linesOfPieces : List (List Char) → List (List Char)
  | [] => []
  | [last] => if last.isEmpty then [] else [last]
  | piece :: rest => dropCarriageReturn piece :: linesOfPieces rest

/-- The lines of a text, without their endings. -/
def lines (text : String) : List String :=
  (linesOfPieces (text.toList.splitOn '\n')).map String.ofList

/-- The text after a given beginning, if it begins so. -/
def afterStart? (start text : String) : Option String :=
  if start.toList.isPrefixOf text.toList then
    some (String.ofList (text.toList.drop start.toList.length))
  else none

/-- Where a pattern first occurs in a list of characters: what stands before and after it. -/
def breakAt (pattern : List Char) : List Char → Option (List Char × List Char)
  | [] => if pattern.isEmpty then some ([], []) else none
  | c :: rest =>
    if pattern.isPrefixOf (c :: rest) then some ([], (c :: rest).drop pattern.length)
    else (breakAt pattern rest).map fun (before, after) => (c :: before, after)

/-- Whether a pattern occurs in a text. -/
def occursIn (pattern text : String) : Bool :=
  (breakAt pattern.toList text.toList).isSome

/-- Every occurrence of one character replaced by a text. -/
def replaceChar (c : Char) (replacement : String) (text : String) : String :=
  String.ofList (text.toList.flatMap fun d => if d = c then replacement.toList else [d])

end CompileWatch.Text
