import CompileWatch.Path.Basic

/-!
# Commands for a remote shell

Every operation on a remote machine is one command line. A path stands in it as
one quoted word: between single quotes the shell takes every character as it is,
and a single quote itself is written as a closing quote, an escaped quote and an
opening quote.
-/

namespace CompileWatch.Shell

/-- One character between single quotes. -/
def quoteChar (c : Char) : List Char := if c = '\'' then ['\'', '\\', '\'', '\''] else [c]

/-- A text as one word of a command. -/
def quote (text : String) : String :=
  String.ofList ('\'' :: (text.toList.flatMap quoteChar ++ ['\'']))

def quotePath (path : Path) : String := quote path.text

/-- Asks for a property of a path, by the flag of the test. -/
def test (flag : String) (path : Path) : String :=
  " ".intercalate ["test", flag, quotePath path]

def printFile (path : Path) : String := " ".intercalate ["cat", quotePath path]

/-- Lists the names in a directory, one a line, without the two that every directory has. -/
def listNames (path : Path) : String := " ".intercalate ["ls", "-1A", quotePath path]

/-- Prints the time of a file in seconds, in the one way or the other that systems know. -/
def printModified (path : Path) : String :=
  " ".intercalate
    ["stat", "-c", "%Y", quotePath path, "2>/dev/null", "||", "stat", "-f", "%m", quotePath path,
     "2>/dev/null"]

/-- The name of the file in which new content is built; the shell replaces the last letters. -/
def freshTemplate : Path := ⟨".tshost.XXXXXX"⟩

/-- Writes standard input to a fresh file beside a path and renames it into place. -/
def writeFile (path : Path) : String :=
  let dir := path.directory
  " ".intercalate
    ["mkdir", "-p", quotePath dir, "&&",
     "tmp=$(mktemp", quotePath (dir.join freshTemplate) ++ ")", "&&",
     "\x7b", "cat", ">", "\"$tmp\"", "&&", "chmod", "644", "\"$tmp\"", "&&",
     "mv", "-f", "\"$tmp\"", quotePath path ++ ";", "\x7d", "||",
     "\x7b", "rm", "-f", "\"$tmp\";", "exit", "1;", "\x7d"]

end CompileWatch.Shell
