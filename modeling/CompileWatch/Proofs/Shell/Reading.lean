import CompileWatch.Storage.Shell

/-!
# How a shell reads a command

A shell splits a command into words and operators before it gives them a meaning.
Outside quotes a blank ends a word, and so does an operator. A backslash takes the
next character as it is, single quotes all up to the next single quote, and double
quotes all but dollars, back quotes and backslashes. A dollar begins a parameter, or
a command in parentheses that is read like the one around it and whose output becomes
part of the word.

The reader goes through a command by characters (`Reader.step`). Some of what shells
can do has no reading here, so that a command which is read does none of it: back
quotes, braces or arithmetic after a dollar, parameters without a name, documents
within a command, and lines joined by a backslash.
-/

namespace CompileWatch.Shell

/-! ## Tokens -/

mutual

/-- What a command is split into. -/
inductive Token where
  | word (pieces : List Piece)
  | operator (text : String)
  /-- The number of a stream, right before the operator that redirects it. -/
  | stream (number : String)

/-- What a word is made of. -/
inductive Piece where
  /-- A character outside quotes. It may yet be taken for a pattern or be a part of a keyword. -/
  | plain (c : Char)
  /-- A character that stands for itself only. -/
  | quoted (c : Char)
  /-- The value of a parameter, which is split into words unless it is quoted. -/
  | parameter (name : String) (quoted : Bool)
  /-- What a command prints, which is split into words unless it is quoted. -/
  | output (command : List Token) (quoted : Bool)

end

def Piece.char? : Piece → Option Char
  | quoted c => some c
  | _ => none

/-- The text of a word of which nothing is left to be expanded, split or matched. -/
def Token.literal? : Token → Option String
  | word pieces => (pieces.mapM Piece.char?).map String.ofList
  | _ => none

/-- The word that stands for a text and for nothing else. -/
def literal (text : String) : Token := .word (text.toList.map .quoted)

def plainWord (text : String) : Token := .word (text.toList.map .plain)

/-! ## The reader -/

def backQuote : Char := '\x60'

def isBlank (c : Char) : Bool := c = ' ' || c = '\t'

/-- Whether an operator begins with a character. Lines end in one too. -/
def isOperator (c : Char) : Bool := "&|;<>()\n".toList.contains c

/-- Whether an operator of one character goes on with another. -/
def goesOn (first c : Char) : Bool :=
  [('&', '&'), ('|', '|'), (';', ';'), ('>', '>'), ('>', '|'), ('>', '&'), ('<', '&'),
    ('<', '>')].contains (first, c)

def startsName (c : Char) : Bool := c.isAlpha || c = '_'

/-- The number that pieces spell, if they are digits and nothing else. -/
def number? (pieces : List Piece) : Option String :=
  let digit? : Piece → Option Char
    | .plain c => if c.isDigit then some c else none
    | _ => none
  if pieces.isEmpty then none else (pieces.mapM digit?).map String.ofList

/-- What has been read around a command that is a part of a word. -/
structure Outer where
  tokens : List Token
  pieces : List Piece
  depth : Nat
  quoted : Bool

/-- How the next character is taken. Some ways are the same inside double quotes and outside. -/
inductive Mode where
  | plain
  | single
  | double
  | escaped (quoted : Bool)
  | dollar (quoted : Bool)
  | name (letters : List Char) (quoted : Bool)
  /-- Right after the parenthesis that opens a command. -/
  | opened
  | operator (first : Char)
  | comment

structure Reader where
  tokens : List Token := []
  /-- The word that is being read. -/
  word : Option (List Piece) := none
  /-- How many parentheses are open. -/
  depth : Nat := 0
  outer : List Outer := []
  mode : Mode := .plain

namespace Reader

/-- The mode inside double quotes or outside. -/
def back (r : Reader) (quoted : Bool) : Reader :=
  { r with mode := if quoted then .double else .plain }

def emit (r : Reader) (token : Token) : Reader := { r with tokens := r.tokens ++ [token] }

/-- Goes on with a word, or begins one. -/
def extend (r : Reader) (pieces : List Piece) : Reader :=
  { r with word := some (r.word.getD [] ++ pieces) }

def endWord (r : Reader) : Reader :=
  match r.word with
  | none => r
  | some pieces => { r.emit (.word pieces) with word := none }

/-- Ends a word before an operator. -/
def endBefore (r : Reader) (c : Char) : Reader :=
  match r.word.bind number? with
  | some number =>
    if c = '<' || c = '>' then { r.emit (.stream number) with word := none } else r.endWord
  | none => r.endWord

/-- Begins an operator. The last parenthesis of a command that is a part of a word ends it. -/
def operator (r : Reader) (c : Char) : Reader :=
  if c = '(' then { r.emit (.operator "(") with depth := r.depth + 1 }
  else if c = ')' then
    match r.depth, r.outer with
    | 0, ⟨tokens, pieces, depth, quoted⟩ :: outer =>
      (Reader.mk tokens (some (pieces ++ [.output r.tokens quoted])) depth outer .plain).back quoted
    | depth, _ => { r.emit (.operator ")") with depth := depth - 1 }
  else { r with mode := .operator c }

def stepPlain (r : Reader) (c : Char) : Option Reader :=
  if c = '\'' then some { r.extend [] with mode := .single }
  else if c = '"' then some { r.extend [] with mode := .double }
  else if c = '\\' then some { r with mode := .escaped false }
  else if c = '$' then some { r with mode := .dollar false }
  else if c = backQuote then none
  else if isBlank c then some r.endWord
  else if isOperator c then some ((r.endBefore c).operator c)
  else if c = '#' && r.word.isNone then some { r with mode := .comment }
  else some (r.extend [.plain c])

def stepDouble (r : Reader) (c : Char) : Option Reader :=
  if c = '"' then some { r with mode := .plain }
  else if c = '\\' then some { r with mode := .escaped true }
  else if c = '$' then some { r with mode := .dollar true }
  else if c = backQuote then none
  else some (r.extend [.quoted c])

/-- Goes back inside double quotes or outside and takes the next character there. -/
def stepBack (r : Reader) (quoted : Bool) (c : Char) : Option Reader :=
  if quoted then (r.back quoted).stepDouble c else (r.back quoted).stepPlain c

def step (r : Reader) (c : Char) : Option Reader :=
  match r.mode with
  | .plain => r.stepPlain c
  | .single => if c = '\'' then some { r with mode := .plain } else some (r.extend [.quoted c])
  | .double => r.stepDouble c
  | .escaped quoted =>
    if c = '\n' then none
    else if quoted && !(['$', backQuote, '"', '\\'].contains c) then
      some ((r.extend [.quoted '\\', .quoted c]).back quoted)
    else some ((r.extend [.quoted c]).back quoted)
  | .dollar quoted =>
    if c = '(' then
      some ⟨[], none, 0, ⟨r.tokens, r.word.getD [], r.depth, quoted⟩ :: r.outer, .opened⟩
    else if startsName c then some { r with mode := .name [c] quoted }
    else none
  | .name letters quoted =>
    if startsName c || c.isDigit then some { r with mode := .name (letters ++ [c]) quoted }
    else (r.extend [.parameter (String.ofList letters) quoted]).stepBack quoted c
  | .opened => if c = '(' then none else (r.back false).stepPlain c
  | .operator first =>
    if goesOn first c then some ((r.emit (.operator (String.ofList [first, c]))).back false)
    else if first = '<' && c = '<' then none
    else (r.emit (.operator (String.ofList [first]))).stepBack false c
  | .comment => if c = '\n' then (r.back false).stepPlain c else some r

/-- The tokens of a command that ends here. It cannot end within quotes or parentheses of a word. -/
def finish (r : Reader) : Option (List Token) :=
  match r.outer, r.mode with
  | [], .plain => some r.endWord.tokens
  | [], .name letters false =>
    some (r.extend [.parameter (String.ofList letters) false]).endWord.tokens
  | [], .operator first => some (r.emit (.operator (String.ofList [first]))).tokens
  | [], .comment => some r.tokens
  | _, _ => none

/-- Reads what is left of a command. -/
def read (r : Reader) (rest : List Char) : Option (List Token) := (rest.foldlM step r).bind finish

end Reader

/-- The tokens of a command. -/
def tokens? (command : String) : Option (List Token) := Reader.read {} command.toList

end CompileWatch.Shell
