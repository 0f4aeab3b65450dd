import CompileWatch.Text.Lines

/-!
# File names

A path is a text that is read as a list of components between slashes. Two
paths name the same thing when their components agree, however many slashes or
inner dots the texts spell, but a path is always printed as it was built. The
dots of a parent component are kept: nothing here looks at a file system, and
only a file system knows where a parent leads.

A text splits into an *anchor* (the leading slash of an absolute path, the
leading dot of a relative one, or nothing) and a body of segments, of which the
void ones (empty, or a single dot) hold no component.
-/

namespace CompileWatch

/-- One step of a path. -/
inductive Component where
  /-- The leading slash of an absolute path. -/
  | root
  /-- A leading dot of a relative path. -/
  | current
  /-- Two dots. -/
  | parent
  | name (text : String)
deriving DecidableEq, Repr

namespace Component

/-- Root, dot, parent and names stand in this order. -/
def rank : Component → Nat
  | root => 0
  | current => 1
  | parent => 2
  | name _ => 3

def text : Component → String
  | root => "/"
  | current => "."
  | parent => ".."
  | name text => text

/-- Components are ordered by kind, and names among themselves by code point. -/
instance : Ord Component where
  compare := compareLex (compareOn rank) (compareOn text)

end Component

/-- A file name as it was written. -/
structure Path where
  text : String
deriving DecidableEq, Repr, Inhabited

namespace Path

/-- The characters between two slashes. -/
abbrev Segment := List Char

/-- Empty segments and single dots name nothing. -/
def isVoid (segment : Segment) : Bool := segment = [] || segment = ['.']

/-- The component that a segment of the body holds. -/
def componentOfSegment? (segment : Segment) : Option Component :=
  if isVoid segment then none
  else if segment = ['.', '.'] then some .parent
  else some (.name (String.ofList segment))

/-- The anchor of a text and the body after it. -/
def splitAnchor : List Char → List Char × List Char
  | '/' :: body => (['/'], body)
  | ['.'] => (['.'], [])
  | '.' :: '/' :: body => (['.'], '/' :: body)
  | body => ([], body)

/-- The component that an anchor stands for. -/
def componentOfAnchor? : List Char → Option Component
  | ['/'] => some .root
  | ['.'] => some .current
  | _ => none

def anchor (p : Path) : List Char := (splitAnchor p.text.toList).1

def segments (p : Path) : List Segment := (splitAnchor p.text.toList).2.splitOn '/'

/-- The components of a path, which decide what it names. -/
def components (p : Path) : List Component :=
  (componentOfAnchor? p.anchor).toList ++ p.segments.filterMap componentOfSegment?

/-- Paths are compared by their components. -/
instance : Ord Path where
  compare p q := compare p.components q.components

/-- Whether two paths have the same components. -/
def same (p q : Path) : Bool := p.components == q.components

def isAbsolute (p : Path) : Bool := p.text.toList.head? == some '/'

/-- Glues segments back together. -/
def joinSegments (segments : List Segment) : List Char := ['/'].intercalate segments

/-- The path `q` as seen from `p`: an absolute `q` stands for itself, any other is appended after
exactly one separator, which an empty `p` or one that ends in a separator does not need. -/
def join (p q : Path) : Path :=
  if q.isAbsolute then q
  else if p.text.isEmpty || p.text.toList.getLast? == some '/' then ⟨p.text ++ q.text⟩
  else ⟨p.text ++ "/" ++ q.text⟩

/-- The plainest spelling of a list of components: single slashes between them, and none after a
root, which is one itself. -/
def ofComponents : List Component → Path
  | .root :: rest => ⟨"/" ++ "/".intercalate (rest.map Component.text)⟩
  | components => ⟨"/".intercalate (components.map Component.text)⟩

/-- Segments without the void ones at the end. -/
def dropVoidEnd (segments : List Segment) : List Segment :=
  (segments.reverse.dropWhile isVoid).reverse

/-- The path without its last component; a root and an empty path have none to give up. -/
def parent? (p : Path) : Option Path :=
  match p.segments.reverse.dropWhile isVoid with
  | _ :: before => some ⟨String.ofList (p.anchor ++ joinSegments (before.dropWhile isVoid).reverse)⟩
  | [] => if p.anchor = ['.'] then some ⟨""⟩ else none

/-- The directory that holds a path: its parent, or a dot when that is not spelled out. -/
def directory (p : Path) : Path :=
  match p.parent? with
  | some parent => if parent.text.isEmpty then ⟨"."⟩ else parent
  | none => ⟨"."⟩

/-- The last component, when it is a name. -/
def fileName? (p : Path) : Option String :=
  match p.components.getLast? with
  | some (.name text) => some text
  | _ => none

/-- A file name around its last dot. A dot at the start of a name starts no extension. -/
def splitExtension (name : String) : String × Option String :=
  match (name.toList.splitOn '.').reverse with
  | last :: rest@(_ :: _) =>
    let stem := ['.'].intercalate rest.reverse
    if stem.isEmpty then (name, none) else (String.ofList stem, some (String.ofList last))
  | _ => (name, none)

/-- The file name without its extension. -/
def fileStem? (p : Path) : Option String := p.fileName?.map fun name => (splitExtension name).1

/-- What follows the last dot of the file name. -/
def extension? (p : Path) : Option String := p.fileName?.bind fun name => (splitExtension name).2

/-- Whether the components of `base` begin those of `p`. -/
def startsWith (p base : Path) : Bool := base.components.isPrefixOf p.components

/-- The segments after the first `n` that hold a component, void ones in front left out. -/
def dropComponents : Nat → List Segment → List Segment
  | _, [] => []
  | n, segment :: rest =>
    if isVoid segment then dropComponents n rest
    else match n with
      | 0 => segment :: rest
      | n + 1 => dropComponents n rest

/-- The part of `p` below `base`, spelled as in `p` but without separators at its ends. -/
def stripPrefix? (p base : Path) : Option Path :=
  if !p.startsWith base then none
  else
    match base.components.length with
    | 0 => some ⟨String.ofList (p.anchor ++ joinSegments (dropVoidEnd p.segments))⟩
    | n + 1 =>
      let inBody := if p.anchor.isEmpty then n + 1 else n
      some ⟨String.ofList (joinSegments (dropVoidEnd (dropComponents inBody p.segments)))⟩

end Path

end CompileWatch
