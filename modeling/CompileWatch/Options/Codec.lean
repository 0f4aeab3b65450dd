import CompileWatch.Document.Shape
import CompileWatch.Options.Basic

/-!
# Options as documents

Options are written as an object with all keys and read from an object with any
of them. A missing key has its default, and keys that are not options are
passed over and told to the caller.
-/

namespace CompileWatch.CompilerOptions

/-- The keys of the options, in the order of the record. -/
def keys : List String :=
  ["target", "module", "outDir", "rootDir", "strict", "noImplicitAny", "declaration",
   "sourceMap", "noEmitOnError", "newLine", "configFilePath"]

def encodePath (path : Path) : Document := .text path.text

/-- The options as an object. -/
def encode (o : CompilerOptions) : Document :=
  .ofFields
    [("target", .text o.target.name),
     ("module", .text o.module.name),
     ("outDir", .ofOption encodePath o.outDir),
     ("rootDir", .ofOption encodePath o.rootDir),
     ("strict", .bool o.strict),
     ("noImplicitAny", .bool o.noImplicitAny),
     ("declaration", .bool o.declaration),
     ("sourceMap", .bool o.sourceMap),
     ("noEmitOnError", .bool o.noEmitOnError),
     ("newLine", .ofOption (.text ·.name) o.newLine),
     ("configFilePath", .ofOption encodePath o.configFilePath)]

/-- A value of an option that takes a name. -/
def decodeNamed (option : String) (ofName? : String → Option α) (document : Document) :
    Except ShapeError α := do
  let name ← document.expectText "a string"
  match ofName? name with
  | some value => .ok value
  | none => .error (.unsupported option name)

def decodePath (document : Document) : Except ShapeError Path :=
  Path.mk <$> document.expectText "path string"

def decodeNewLine : Document → Except ShapeError NewLine :=
  Document.expectName (NewLine.all.map fun n => (n.name, n))

/-- The options with the value of one key read; nothing for a key that is no option. -/
def decodeKey? (o : CompilerOptions) (key : String) (value : Document) :
    Except ShapeError (Option CompilerOptions) :=
  match key with
  | "target" => (some { o with target := · }) <$> decodeNamed key ScriptTarget.ofName? value
  | "module" => (some { o with module := · }) <$> decodeNamed key ModuleKind.ofName? value
  | "outDir" => (some { o with outDir := · }) <$> value.expectOptional decodePath
  | "rootDir" => (some { o with rootDir := · }) <$> value.expectOptional decodePath
  | "strict" => (some { o with strict := · }) <$> value.expectBool
  | "noImplicitAny" => (some { o with noImplicitAny := · }) <$> value.expectBool
  | "declaration" => (some { o with declaration := · }) <$> value.expectBool
  | "sourceMap" => (some { o with sourceMap := · }) <$> value.expectBool
  | "noEmitOnError" => (some { o with noEmitOnError := · }) <$> value.expectBool
  | "newLine" => (some { o with newLine := · }) <$> value.expectOptional decodeNewLine
  | "configFilePath" =>
    (some { o with configFilePath := · }) <$> value.expectOptional decodePath
  | _ => .ok none

/-- The options that a document holds, and its keys that are no options. -/
def decode (document : Document) : Except ShapeError (CompilerOptions × List String) :=
  document.expectRecord "struct CompilerOptions" keys
    (fun o key value => do
      return (← decodeKey? o key value).map fun read => (read, []))
    {}

end CompileWatch.CompilerOptions
