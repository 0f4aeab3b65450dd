import CompileWatch.Config.Suggestion
import CompileWatch.Document.Json5.Reader
import CompileWatch.Failure
import CompileWatch.Options.Codec

/-!
# Configuration files

A project is configured by a JSON5 object with the keys `compilerOptions` and
`files`. What is not understood does not stop the load: unknown keys, and
targets and module systems that have no known name, are left out and reported
as warnings. A known key whose value has the wrong shape does stop it.
-/

namespace CompileWatch

/-- Something in a configuration file that was passed over. -/
structure ConfigWarning where
  /-- The keys that lead to it, with dots between them. -/
  key : String
  file : Path
  /-- The rejected value, when the key itself is known. -/
  value : Option String
  /-- The known key that was probably meant. -/
  suggestion : Option String
deriving DecidableEq, Repr

/-- The configuration of a project, its paths seen from the project root. -/
structure LoadedConfig where
  options : CompilerOptions
  files : List Path
  warnings : List ConfigWarning
deriving DecidableEq, Repr

namespace Config

/-- What a configuration file says. -/
structure FileContent where
  compilerOptions : CompilerOptions := {}
  files : List Path := []

/-- The keys of a configuration file. -/
def fileKeys : List String := ["compilerOptions", "files"]

/-- The content with the value of one key read, and the unknown keys inside that value. -/
def decodeFileKey? (content : FileContent) (key : String) (value : Document) :
    Except ShapeError (Option (FileContent × List String)) :=
  match key with
  | "compilerOptions" => do
    let (compilerOptions, unknown) ← CompilerOptions.decode value
    .ok (some ({ content with compilerOptions }, unknown))
  | "files" => do
    let files ← value.expectArray CompilerOptions.decodePath
    .ok (some ({ content with files }, []))
  | _ => .ok none

/-- The content that a document holds, and the paths of its unknown keys in the order met. -/
def decodeFile (document : Document) : Except ShapeError (FileContent × List String) :=
  document.expectRecord "struct TsconfigFile" fileKeys decodeFileKey? {}

/-- The options whose values must be known names. -/
def namedOptions : List (String × (String → Bool)) :=
  [("target", fun name => (ScriptTarget.ofName? name).isSome),
   ("module", fun name => (ModuleKind.ofName? name).isSome)]

/-- The value of a named option, when it is a text that names nothing known. -/
def rejectedValue? (options : Document) (key : String) (known : String → Bool) : Option String :=
  match options.field? key with
  | some (.text value) => if known value then none else some value
  | _ => none

/-- The options without the values that name nothing known, and those values with their keys. -/
def dropRejected (options : Document) : Document × List (String × String) :=
  namedOptions.foldl (fun (options, rejected) (key, known) =>
    match rejectedValue? options key known with
    | some value => (options.eraseField key, rejected ++ [(key, value)])
    | none => (options, rejected)) (options, [])

/-- The document without the named options that are not understood, and those with their values. -/
def dropUnsupported (document : Document) : Document × List (String × String) :=
  match document, document.field? "compilerOptions" with
  | .object fields, some (.object options) =>
    let (kept, rejected) := dropRejected (.object options)
    (.object (Document.setField "compilerOptions" kept fields), rejected)
  | _, _ => (document, [])

/-- The last key of a dotted path of keys. -/
def lastKey (path : String) : String :=
  String.ofList ((path.toList.splitOn '.').getLast?.getD [])

def valueWarning (file : Path) (key value : String) : ConfigWarning :=
  ⟨s!"compilerOptions.{key}", file, some value, none⟩

def keyWarning (file : Path) (key : String) : ConfigWarning :=
  ⟨key, file, none, suggest (lastKey key)⟩

/-- The configuration that a document means for the project at `root`. -/
def ofDocument (document : Document) (file root : Path) : Except ShapeError LoadedConfig := do
  let (supported, rejected) := dropUnsupported document
  let (content, unknown) ← decodeFile supported
  let o := content.compilerOptions
  .ok
    { options :=
        { o with
          outDir := o.outDir.map root.join
          rootDir := o.rootDir.map root.join
          configFilePath := some file }
      files := content.files.map root.join
      warnings := rejected.map (fun (key, value) => valueWarning file key value) ++
        unknown.map (keyWarning file) }

/-- A configuration file that cannot be used, and why. -/
def invalid (file : Path) (reason : String) : HostError :=
  .configuration s!"invalid {file.text}: {reason}"

/-- The configuration that the text of a file means for the project at `root`. -/
def ofText (content : String) (file root : Path) : Except HostError LoadedConfig :=
  match Json5.read content with
  | .error failure => .error (invalid file failure.message)
  | .ok document => (ofDocument document file root).mapError fun e => invalid file e.message

end Config

end CompileWatch
