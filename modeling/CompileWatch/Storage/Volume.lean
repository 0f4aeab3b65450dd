import CompileWatch.Storage.Disk
import CompileWatch.Storage.Memory

/-!
# Volumes

A volume is a store in memory or a tree on disk, together with what lets others
edit it: files can be put, touched and removed from outside a session, and each
such edit has a later time than the one before.
-/

namespace CompileWatch

inductive Volume where
  /-- A store, and the handle through which it is used. -/
  | memory (handle : Memory.Handle) (store : Memory.Store)
  /-- A tree, and the number of edits that were given a time. -/
  | disk (tree : Disk.Tree) (edits : Nat)

namespace Volume

/-- An action on the store or the tree of a volume. -/
def act (onStore : Memory.Handle → StateM Memory.Store α)
    (onTree : StateM Disk.Tree α) : StateM Volume α := fun v =>
  match v with
  | memory handle store =>
    let (answer, store) := onStore handle store
    (answer, memory handle store)
  | disk tree edits =>
    let (answer, tree) := onTree tree
    (answer, disk tree edits)

/-- Runs an operation of file systems on whatever the volume is. -/
def through (operation : {σ : Type} → Storage σ → StateM σ α) : StateM Volume α :=
  act (fun handle => operation handle.storage) (operation Disk.storage)

/-- The volume as a file system. -/
def storage : Storage Volume where
  contains path := through fun s => s.contains path
  isDir path := through fun s => s.isDir path
  isSymlink path := through fun s => s.isSymlink path
  read path := through fun s => s.read path
  write path content := through fun s => s.write path content
  list path := through fun s => s.list path
  modified path := through fun s => s.modified path
  caseSensitive
    | memory handle _ => handle.caseSensitive
    | disk _ _ => true
  extent
    | memory handle store => handle.storage.extent store
    | disk tree _ => Disk.storage.extent tree

/-- The time from which edits on disk are counted; no clock of a disk is so late. -/
def editEpoch : Timestamp := 4000000000

/-- Sets the time of a file on disk to that of the next edit. -/
def stamp (path : Path) (tree : Disk.Tree) (edits : Nat) : Except FsError Unit × Volume :=
  let (answer, tree) := Disk.setModified path (editEpoch + (edits + 1)) tree
  (answer, disk tree (edits + 1))

/-- Puts a file, whatever it replaces. -/
def insert (path : Path) (content : String) : StateM Volume (Except FsError Unit) := fun v =>
  match v with
  | memory handle store => (.ok (), memory handle (handle.insert path content store).2)
  | disk tree edits =>
    match Disk.write path content tree with
    | (.ok (), tree) => stamp path tree edits
    | (.error e, tree) => (.error e, disk tree edits)

/-- Gives a file a new time. -/
def touch (path : Path) : StateM Volume (Except FsError Unit) := fun v =>
  match v with
  | memory handle store =>
    let (answer, store) := handle.touch path store
    (answer, memory handle store)
  | disk tree edits => stamp path tree edits

def remove (path : Path) : StateM Volume (Except FsError Unit) :=
  act (fun handle => handle.remove path) (Disk.remove path)

/-- When a file was modified, counted in edits. -/
def editTime (v : Volume) (time : Timestamp) : Int :=
  match v with
  | memory _ _ => time
  | disk _ _ => time - editEpoch

/-- The keys of all files in memory. -/
def keys : Volume → List Path
  | memory _ store => store.files.keys
  | disk _ _ => []

/-- The files below the working directory of a disk with their texts. Links are not followed into
directories, and what is no text has none. -/
def diskFiles (tree : Disk.Tree) : List (String × Option String) :=
  tree.home.here.leaves.map fun place =>
    let name := "/".intercalate place
    (name, (Disk.read tree ⟨name⟩).toOption)

/-- Puts an entry into its place by name. -/
def insertByName (entry : String × Option String) :
    List (String × Option String) → List (String × Option String)
  | [] => [entry]
  | other :: rest =>
    if other.1 < entry.1 then other :: insertByName entry rest else entry :: other :: rest

/-- All files with their contents. -/
def contents : Volume → List (String × Option String)
  | memory _ store => store.files.entries.map fun (path, file) => (path.text, some file.content)
  | disk tree _ => (diskFiles tree).foldr insertByName []

end Volume

end CompileWatch
