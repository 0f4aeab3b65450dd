import CompileWatch.Storage.Disk.Tree

/-!
# Walks through a tree

A path is walked component by component from the working directory, or from
the top of the tree if it is absolute: a link on the way is followed, and a
component after a file leads nowhere. What a walk cannot do is a failure of
the operating system, with the number and the words that systems of this kind
give it.
-/

namespace CompileWatch.Disk

/-- What an operating system can answer instead of doing what it is asked. -/
inductive SystemError where
  | noEntry | permissionDenied | busy | alreadyExists | notDirectory | isDirectory
  | invalidArgument | noSpace | nameTooLong | tooManyLinks | nulInName | notText
deriving DecidableEq, Repr

namespace SystemError

def message : SystemError → String
  | noEntry => "No such file or directory (os error 2)"
  | permissionDenied => "Permission denied (os error 13)"
  | busy => "Device or resource busy (os error 16)"
  | alreadyExists => "File exists (os error 17)"
  | notDirectory => "Not a directory (os error 20)"
  | isDirectory => "Is a directory (os error 21)"
  | invalidArgument => "Invalid argument (os error 22)"
  | noSpace => "No space left on device (os error 28)"
  | nameTooLong => "File name too long (os error 36)"
  | tooManyLinks => "Too many levels of symbolic links (os error 40)"
  | nulInName => "file name contained an unexpected NUL byte"
  | notText => "stream did not contain valid UTF-8"

def kind : SystemError → IoKind
  | noEntry => .notFound
  | permissionDenied => .permissionDenied
  | alreadyExists => .alreadyExists
  | notText => .invalidData
  | _ => .other

/-- The failure of an operation on a path. -/
def about (e : SystemError) (path : Path) : FsError := .ofIo ⟨e.kind, e.message⟩ path

end SystemError

/-! ## Walking paths -/

/-- The most bytes that a name may have. -/
def nameLimit : Nat := 255

/-- The least number of bytes that is too many for a whole path. -/
def pathLimit : Nat := 4096

/-- How many links a walk may follow. -/
def linkLimit : Nat := 40

/-- The names between the separators of a path text. -/
def pieces (text : String) : List String :=
  ((text.toList.splitOn '/').map String.ofList).filter (· ≠ "")

/-- Whether a path text ends in a separator. -/
def endsInSlash (text : String) : Bool := text.toList.getLast? = some '/'

/-- The steps of a path text. A separator at the end asks for a directory, as a dot does. -/
def steps (text : String) : List String :=
  if endsInSlash text then pieces text ++ ["."] else pieces text

/-- Where the steps of a path text start that is met in a directory. -/
def startOf (t : Tree) (text : String) (dir : Spot) : Spot :=
  if text.startsWith "/" then t.top else dir

/-- Where the steps lead from a directory. The last step is not followed if it is a link, unless
`follow` is set. -/
def walk (t : Tree) (follow : Bool) (links : Nat) (dir : Spot) :
    List String → Except SystemError Spot
  | [] => .ok dir
  | step :: rest =>
    if step = "." then walk t follow links dir rest
    else if step = ".." then walk t follow links dir.up rest
    else if nameLimit < step.utf8ByteSize then .error .nameTooLong
    else
      match dir.down? step with
      | none => .error .noEntry
      | some next =>
        match next.here with
        | .directory _ => walk t follow links next rest
        | .file _ _ => if rest = [] then .ok next else .error .notDirectory
        | .link target =>
          if rest = [] && !follow then .ok next
          else
            match links with
            | 0 => .error .tooManyLinks
            | links + 1 => walk t follow links (startOf t target dir) (steps target ++ rest)
termination_by todo => (links, todo.length)

/-- A text that can be given to the system as a path at all. -/
def checkText (text : String) : Except SystemError Unit :=
  if text.toList.contains '\x00' then .error .nulInName
  else if text.isEmpty then .error .noEntry
  else if pathLimit ≤ text.utf8ByteSize then .error .nameTooLong
  else .ok ()

/-- The spot that a path leads to, links followed. -/
def locate (t : Tree) (path : Path) : Except SystemError Spot := do
  checkText path.text
  walk t true linkLimit (startOf t path.text t.home) (steps path.text)

/-- The spot that a path leads to, a link at its end not followed. -/
def locateItself (t : Tree) (path : Path) : Except SystemError Spot := do
  checkText path.text
  walk t false linkLimit (startOf t path.text t.home) (steps path.text)

/-- The place that an operation makes, replaces or removes: a directory and a name in it. -/
structure Target where
  dir : Spot
  /-- Nothing when the path ends in a dot, in two dots or at the root. -/
  name : Option String
  /-- Whether a separator follows the name. -/
  slash : Bool

def locateTarget (t : Tree) (path : Path) : Except SystemError Target := do
  checkText path.text
  let slash := endsInSlash path.text
  let names := pieces path.text
  match names.getLast? with
  | none => .ok ⟨t.top, none, slash⟩
  | some last =>
    let dir ← walk t true linkLimit (startOf t path.text t.home) names.dropLast
    match dir.here with
    | .directory _ =>
      if last = "." || last = ".." then .ok ⟨dir, none, slash⟩
      else if nameLimit < last.utf8ByteSize then .error .nameTooLong
      else .ok ⟨dir, some last, slash⟩
    | _ => .error .notDirectory

/-- The directory and the name in it under which a file stands, or would be made, that is opened
for writing by these steps from a directory. Links are followed at the end too, so that a link to
nothing says where the file is made. What ends in a dot, two dots or a separator can only be a
directory. -/
def walkToFile (t : Tree) (links : Nat) (dir : Spot) (slash : Bool) :
    List String → Except SystemError (Spot × String)
  | [] => .error .isDirectory
  | step :: rest =>
    if step = "." then walkToFile t links dir slash rest
    else if step = ".." then walkToFile t links dir.up slash rest
    else if rest = [] && slash then .error .isDirectory
    else if nameLimit < step.utf8ByteSize then .error .nameTooLong
    else
      match dir.down? step with
      | none => if rest = [] then .ok (dir, step) else .error .noEntry
      | some next =>
        match next.here with
        | .file _ _ => if rest = [] then .ok (dir, step) else .error .notDirectory
        | .directory _ => walkToFile t links next slash rest
        | .link target =>
          match links with
          | 0 => .error .tooManyLinks
          | links + 1 =>
            let slash := if rest = [] then endsInSlash target else slash
            walkToFile t links (startOf t target dir) slash (pieces target ++ rest)
termination_by todo => (links, todo.length)

/-- Where the file of a path stands or would be made. -/
def locateFile (t : Tree) (path : Path) : Except SystemError (Spot × String) := do
  checkText path.text
  walkToFile t linkLimit (startOf t path.text t.home) (endsInSlash path.text) (pieces path.text)

end CompileWatch.Disk
