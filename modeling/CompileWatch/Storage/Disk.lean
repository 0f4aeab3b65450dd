import CompileWatch.Path.Order
import CompileWatch.Storage.Disk.Walk

/-!
# A directory tree as a file system

What is asked of a path is asked of the spot that a walk leads to. A write
builds the new content in a fresh file beside its target and then renames it
into place, so that it happens completely or not at all.
-/

namespace CompileWatch.Disk

/-! ## Looking -/

def contains (t : Tree) (path : Path) : Bool := (locate t path).isOk

def isDir (t : Tree) (path : Path) : Bool :=
  match locate t path with
  | .ok ⟨.directory _, _⟩ => true
  | _ => false

def isSymlink (t : Tree) (path : Path) : Bool :=
  match locateItself t path with
  | .ok ⟨.link _, _⟩ => true
  | _ => false

/-- The text of a file. -/
def read (t : Tree) (path : Path) : Except FsError String :=
  match locate t path with
  | .ok ⟨.file bytes _, _⟩ => match String.fromUTF8? bytes with
    | some text => .ok text
    | none => .error (SystemError.notText.about path)
  | .ok _ => .error (SystemError.isDirectory.about path)
  | .error e => .error (e.about path)

/-- The entries of a directory in path order, which is the order of their names. -/
def list (t : Tree) (path : Path) : Except FsError (List Path) :=
  match locate t path with
  | .ok ⟨.directory entries, _⟩ =>
    let names := (entries.map (·.1)).filter isSpelled
    .ok ((Path.sort (names.map Path.mk)).map path.join)
  | .ok _ => .error (SystemError.notDirectory.about path)
  | .error e => .error (e.about path)

/-- When the file at a path was modified. Directories carry no time of their own here. -/
def modified (t : Tree) (path : Path) : Except FsError Timestamp :=
  match locate t path with
  | .ok ⟨.file _ time, _⟩ => .ok time
  | .ok _ => .ok 0
  | .error e => .error (e.about path)

/-! ## Changing -/

/-- Makes one directory. -/
def makeDirectory (path : Path) (t : Tree) : Except SystemError Tree := do
  let target ← locateTarget t path
  match target.name with
  | none => .error .alreadyExists
  | some name =>
    match target.dir.here.child? name with
    | some _ => .error .alreadyExists
    | none => .ok (t.put target.dir.position name (.directory []))

/-- Makes a directory together with the ones above it that are missing. What was made before a
failure stays. The fuel bounds the number of components. -/
def makeMissing : Nat → Path → Tree → Except SystemError Unit × Tree
  | 0, _, t => (.ok (), t)
  | fuel + 1, path, t =>
    if path.text.isEmpty then (.ok (), t)
    else
      match makeDirectory path t with
      | .ok made => (.ok (), made)
      | .error .noEntry =>
        match (path.parent?.map fun parent => makeMissing fuel parent t).getD (.ok (), t) with
        | (.error e, made) => (.error e, made)
        | (.ok (), made) => match makeDirectory path made with
          | .ok made => (.ok (), made)
          | .error e => (if isDir made path then .ok () else .error e, made)
      | .error e => (if isDir t path then .ok () else .error e, t)

def makeDirectories (path : Path) (t : Tree) : Except SystemError Unit × Tree :=
  makeMissing (path.text.length + 1) path t

/-- A name that no entry has. -/
def freshName (entries : Entries) : String :=
  let taken := entries.map (·.1)
  let number? := (List.range (taken.length + 1)).find? fun n => !taken.contains s!".tmp{n}"
  s!".tmp{number?.getD 0}"

/-- Moves the file `name` of the directory at `dir` to a path, in place of a file or link that is
there. -/
def rename (dir : Position) (name : String) (path : Path) (t : Tree) :
    Except SystemError Tree := do
  if path.text.toList.contains '\x00' then .error .invalidArgument
  let target ← locateTarget t path
  match target.name, t.root.nodeAt? (dir ++ [name]) with
  | none, _ => .error .busy
  | some _, none => .error .noEntry
  | some last, some node =>
    if target.slash then .error .notDirectory
    else match target.dir.here.child? last with
      | some (.directory _) => .error .isDirectory
      | _ => .ok ((t.erase dir name).put target.dir.position last node)

/-- The steps of a write, each of which the system may refuse. -/
inductive WriteStep where
  /-- Making the missing directories above the target. -/
  | prepare
  /-- Making a fresh file beside the target. -/
  | create
  /-- Giving the fresh file its content. -/
  | fill
  /-- Renaming the fresh file to the target. -/
  | replace
deriving DecidableEq, Repr

/-- Makes what is missing of a directory and leads to it. -/
def enterDirectory (refused : WriteStep → Option SystemError) (dir : Path) (t : Tree) :
    Except SystemError Spot × Tree :=
  match refused .prepare with
  | some e => (.error e, t)
  | none =>
    let (made, t) := makeDirectories dir t
    let entered : Except SystemError Spot := do
      made
      let spot ← locate t dir
      match spot.here with
      | .directory _ => .ok spot
      | _ => .error .notDirectory
    (entered, t)

/-- Builds the content in a fresh file of a directory and renames it to a path. A fresh file that
cannot be filled or renamed is removed again. -/
def replaceFrom (refused : WriteStep → Option SystemError) (dir : Spot) (path : Path)
    (content : String) (t : Tree) : Except SystemError Unit × Tree :=
  let place := dir.position
  let fresh := freshName dir.here.entries
  let stamped := { t with clock := t.clock + 1 }
  let built := stamped.put place fresh (.file content.toUTF8 stamped.clock)
  let moved : Except SystemError Tree := match refused .fill <|> refused .replace with
    | some e => .error e
    | none => rename place fresh path built
  match moved with
  | .ok done => (.ok (), done)
  | .error e => (.error e, built.erase place fresh)

/-- Writes a file, unless the system refuses one of the steps. Failures before there is a fresh file
are about the directory of the path, later ones are about the path. -/
def writeUnless (refused : WriteStep → Option SystemError) (path : Path) (content : String) :
    StateM Tree (Except FsError Unit) := fun t =>
  let parent := path.directory
  match enterDirectory refused parent t with
  | (.error e, prepared) => (.error (e.about parent), prepared)
  | (.ok dir, prepared) =>
    match refused .create with
    | some e => (.error (e.about parent), prepared)
    | none =>
      let (answer, done) := replaceFrom refused dir path content prepared
      (answer.mapError (·.about path), done)

/-- Writes a file on a system that refuses nothing it can do. -/
def write : Path → String → StateM Tree (Except FsError Unit) := writeUnless fun _ => none

/-- Replaces the bytes of a file in its place, or makes the file in a directory that is there. -/
def overwrite (path : Path) (bytes : ByteArray) : StateM Tree (Except FsError Unit) := fun t =>
  match locateFile t path with
  | .error e => (.error (e.about path), t)
  | .ok (dir, name) =>
    let stamped := { t with clock := t.clock + 1 }
    (.ok (), stamped.put dir.position name (.file bytes stamped.clock))

/-- Sets the time of a file. -/
def setModified (path : Path) (time : Timestamp) : StateM Tree (Except FsError Unit) := fun t =>
  match locate t path with
  | .ok ⟨.file bytes _, (name, dir) :: above⟩ =>
    (.ok (), t.put (Spot.position ⟨dir, above⟩) name (.file bytes time))
  | .ok _ => (.error (SystemError.isDirectory.about path), t)
  | .error e => (.error (e.about path), t)

/-- Removes a file or a link. -/
def remove (path : Path) : StateM Tree (Except FsError Unit) := fun t =>
  match locateTarget t path with
  | .error e => (.error (e.about path), t)
  | .ok ⟨_, none, _⟩ => (.error (SystemError.isDirectory.about path), t)
  | .ok ⟨dir, some name, slash⟩ =>
    match dir.here.child? name with
    | none => (.error (SystemError.noEntry.about path), t)
    | some (.directory _) => (.error (SystemError.isDirectory.about path), t)
    | some _ =>
      if slash then (.error (SystemError.notDirectory.about path), t)
      else (.ok (), t.erase dir.position name)

/-- The place of a new link. What it leads to need not be there, but has to be a text that could
name something. -/
def locateLink (t : Tree) (path : Path) (destination : String) : Except SystemError Target := do
  if path.text.toList.contains '\x00' then .error .nulInName
  checkText destination
  locateTarget t path

/-- Makes a symbolic link. -/
def makeLink (path : Path) (destination : String) : StateM Tree (Except FsError Unit) := fun t =>
  match locateLink t path destination with
  | .error e => (.error (e.about path), t)
  | .ok ⟨_, none, _⟩ => (.error (SystemError.alreadyExists.about path), t)
  | .ok ⟨dir, some name, slash⟩ =>
    match dir.here.child? name with
    | some _ => (.error (SystemError.alreadyExists.about path), t)
    | none =>
      if slash then (.error (SystemError.noEntry.about path), t)
      else (.ok (), t.put dir.position name (.link destination))

def makeDirectoriesAt (path : Path) : StateM Tree (Except FsError Unit) := fun t =>
  match makeDirectories path t with
  | (.ok (), made) => (.ok (), made)
  | (.error e, made) => (.error (e.about path), made)

/-- A question put to the tree leaves it as it is. -/
def asking (answer : Tree → α) : StateM Tree α := fun t => (answer t, t)

/-- The tree as a file system. -/
def storage : Storage Tree where
  contains path := asking (contains · path)
  isDir path := asking (isDir · path)
  isSymlink path := asking (isSymlink · path)
  read path := asking (read · path)
  write := write
  list path := asking (list · path)
  modified path := asking (modified · path)
  caseSensitive _ := true
  extent t := t.root.size

end CompileWatch.Disk
