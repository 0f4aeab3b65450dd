import CompileWatch.Path.Order
import CompileWatch.Storage.Basic
import CompileWatch.Storage.Shell
import CompileWatch.Text.Blank

/-!
# Files on a remote machine

A remote machine is reached through a program that is given a destination and a
command, runs the command there and brings back what it printed. The state of
the connection is the list of replies that are still to come and the list of
calls made; a call for which there is no reply fails.
-/

namespace CompileWatch

namespace Remote

/-- What a command printed, and its exit code. -/
structure Reply where
  output : String
  errorOutput : String
  code : Int

/-- What a call gives when nothing is left to answer it. -/
def Reply.missing : Reply := ⟨"", "no scripted response", 255⟩

/-- One run of the program. -/
structure Call where
  destination : String
  command : String
  input : String

/-- Whether the program that makes the calls can be started. -/
inductive Program where
  | ready | notFound | notExecutable
deriving DecidableEq

structure Connection where
  destination : String
  program : Program
  replies : List Reply
  calls : List Call

/-- The failure to start the program. It concerns no path. -/
def Program.failure? : Program → Option FsError
  | ready => none
  | notFound => some (.notFound FsError.unknownPath)
  | notExecutable => some (.permissionDenied FsError.unknownPath)

/-- The least number of bytes that is too many for one argument of a program. -/
def argumentLimit : Nat := 0x20000

/-- The failure to make a call: its arguments cannot be handed to a program, or there is none. A
character that ends a text is noticed before the program is looked for, a text that is too long
when the program is given it. -/
def Connection.failure? (c : Connection) (command : String) : Option FsError :=
  let arguments := [c.destination, command]
  if arguments.any (·.toList.contains '\x00') then some (.io "nul byte found in provided data")
  else c.program.failure? <|>
    if arguments.any fun text => argumentLimit ≤ text.utf8ByteSize then
      some (.io "Argument list too long (os error 7)")
    else none

/-- Runs a command and gives what it printed, or what it complained of if it failed. -/
def run (command : String) (input : String) : StateM Connection (Except FsError String) :=
  fun c =>
    match c.failure? command with
    | some failure => (.error failure, c)
    | none =>
      let reply := c.replies.head?.getD .missing
      let called :=
        { c with
          replies := c.replies.tail
          calls := c.calls ++ [⟨c.destination, command, input⟩] }
      if reply.code = 0 then (.ok reply.output, called)
      else (.error (.other s!"SSH error: {Text.trim reply.errorOutput}"), called)

/-- Whether a test of a path succeeds. -/
def test (flag : String) (path : Path) : StateM Connection Bool := do
  return (← run (Shell.test flag path) "").isOk

def contains (path : Path) : StateM Connection Bool := test "-e" path

def isDir (path : Path) : StateM Connection Bool := test "-d" path

def isSymlink (path : Path) : StateM Connection Bool := test "-L" path

def read (path : Path) : StateM Connection (Except FsError String) := do
  if ← test "-f" path then run (Shell.printFile path) ""
  else return .error (.notFound path)

def write (path : Path) (content : String) : StateM Connection (Except FsError Unit) := do
  return (← run (Shell.writeFile path) content).map fun _ => ()

/-- The entries of a directory from the lines of its listing. -/
def parseListing (dir : Path) (output : String) : List Path :=
  Path.sort (((Text.lines output).filter (· ≠ "")).map fun name => dir.join ⟨name⟩)

def list (path : Path) : StateM Connection (Except FsError (List Path)) := do
  if ← test "-d" path then
    return (← run (Shell.listNames path) "").map (parseListing path)
  else return .error (.notFound path)

/-- Numbers of seconds are less than two to the power 64. -/
def secondsLimit : Nat := 0x10000000000000000

/-- A number of seconds, as printed with blanks around it. -/
def parseSeconds? (output : String) : Option Timestamp :=
  let digits := match Text.trimChars output.toList with
    | '+' :: rest => rest
    | cs => cs
  if digits.isEmpty || !digits.all Char.isDigit then none
  else
    let n := digits.foldl (fun n c => 10 * n + (c.toNat - '0'.toNat)) 0
    if n < secondsLimit then some n else none

def modified (path : Path) : StateM Connection (Except FsError Timestamp) := do
  match ← run (Shell.printModified path) "" with
  | .error _ => return .error (.notFound path)
  | .ok output => match parseSeconds? output with
    | some time => return .ok time
    | none => return .error (.other s!"unexpected stat output for {path.text}")

/-- The machine as a file system. -/
def storage : Storage Connection where
  contains := contains
  isDir := isDir
  isSymlink := isSymlink
  read := read
  write := write
  list := list
  modified := modified
  caseSensitive _ := true
  extent c := c.replies.length + 1

end Remote

end CompileWatch
