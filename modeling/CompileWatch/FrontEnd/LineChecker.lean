import CompileWatch.FrontEnd.Service

/-!
# The line checker

A small front end that judges a source line by line. It knows imports, one kind
of type error and a few directives that begin with two at signs, and its output
is the text itself. Its language service is a keyed one.
-/

namespace CompileWatch.LineChecker

open CompileWatch.Text

variable {σ : Type}

def defaultLib : Path := ⟨"/compiler/lib/lib.d.ts"⟩

/-- A specifier that starts with a dot and a slash names a file beside the importer, or the index of
a directory there. -/
def resolveModule : NativeResolution σ := fun _ storage specifier importer =>
  match afterStart? "./" specifier, importer.parent? with
  | some rest, some dir =>
    ModuleResolver.firstExisting storage
      [dir.join ⟨rest ++ ".ts"⟩, (dir.join ⟨rest⟩).join ⟨"index.ts"⟩]
  | _, _ => pure none

/-! ## Checking -/

/-- The specifier that a line imports. -/
def importedBy? (line : String) : Option String := do
  let _ ← afterStart? "import " line
  let (_, afterFrom) ← breakAt " from \"".toList line.toList
  let (specifier, _) ← breakAt ['"'] afterFrom
  some (String.ofList specifier)

/-- The imports of some lines, each with its line number. -/
def importsOf (lines : List String) : List (String × Nat) :=
  (lines.zipIdx 1).filterMap fun (line, number) => (importedBy? line).map (·, number)

def missingModule (file : Path) (specifier : String) (line : Nat) : Diagnostic :=
  ⟨.error, some 2307, s!"Cannot find module '{specifier}'.", some ⟨file, line, 1⟩⟩

/-- The byte offset at which a pattern first occurs in a line. -/
def byteOffset? (pattern line : String) : Option Nat :=
  (breakAt pattern.toList line.toList).map fun (before, _) => (String.ofList before).utf8ByteSize

/-- A number that is given a string. -/
def typeError? (file : Path) (line : String) (number : Nat) : Option Diagnostic :=
  (byteOffset? ": number = \"" line).map fun offset =>
    ⟨.error, some 2322, "Type 'string' is not assignable to type 'number'.",
      some ⟨file, number, offset + 12⟩⟩

def warning? (file : Path) (line : String) (number : Nat) : Option Diagnostic :=
  (afterStart? "@@warn " line).map fun text => ⟨.warning, none, text, some ⟨file, number, 1⟩⟩

def note? (line : String) : Option Diagnostic :=
  (afterStart? "@@note " line).map fun text => ⟨.message, some 6000, text, none⟩

/-- What there is to say about one line on its own. -/
def checkLine (file : Path) (line : String) (number : Nat) : List Diagnostic :=
  (typeError? file line number).toList ++ (warning? file line number).toList ++ (note? line).toList

/-- The imports that were not resolved. -/
def missingModules (file : Path) (imports : List (String × Nat))
    (resolved : List (Option ResolvedModule)) : List Diagnostic :=
  (imports.zip resolved).filterMap fun ((specifier, line), module?) =>
    if module?.isNone then some (missingModule file specifier line) else none

/-- What there is to say about a source: its missing modules, and then line by line. -/
def check (resolveImports : List String → Path → Exec σ (List (Option ResolvedModule)))
    (file : Path) (text : String) : Exec σ (List Diagnostic) := do
  let imports := importsOf (lines text)
  let resolved ← resolveImports (imports.map (·.1)) file
  return missingModules file imports resolved ++
    ((lines text).zipIdx 1).flatMap fun (line, number) => checkLine file line number

/-! ## Emitting -/

/-- Whether a source is refused: it says so, or it has errors and these count. -/
def refuses (options : CompilerOptions) (text : String) (diagnostics : List Diagnostic) : Bool :=
  occursIn "@@fatal" text || (options.noEmitOnError && diagnostics.any Diagnostic.isError)

/-- The outputs of a source: its text, and on request its declarations and its source map. -/
def artifacts (options : CompilerOptions) (file : Path) (text : String) : List Artifact :=
  let dir := options.outDir.getD (file.parent?.getD ⟨""⟩)
  let stem := file.fileStem?.getD ""
  let output (ending content : String) : Artifact := ⟨dir.join ⟨stem ++ ending⟩, content⟩
  [output ".js" text] ++
    (if options.declaration then [output ".d.ts" "export \x7b\x7d;"] else []) ++
    (if options.sourceMap then [output ".js.map" "\x7b\x7d"] else [])

def missingRoot (root : Path) : Diagnostic :=
  ⟨.error, some 6053, s!"File '{root.text}' not found.", none⟩

/-- The sources of the roots, and what is said of those that are missing. -/
def readRoots (host : ProgramHost σ) (target : ScriptTarget) :
    List Path → Exec σ (List SourceUnit × List Diagnostic)
  | [] => pure ([], [])
  | root :: rest => do
    let unit? ← host.readSource root target
    let (units, missing) ← readRoots host target rest
    match unit? with
    | some unit => return (unit :: units, missing)
    | none => return (units, missingRoot root :: missing)

/-- Reads the files that a source includes; the first that cannot be read is the failure. -/
def readIncludes (host : ProgramHost σ) (target : ScriptTarget) :
    List String → Exec σ (Except HostError Unit)
  | [] => pure (.ok ())
  | line :: rest =>
    match afterStart? "@@include " line with
    | none => readIncludes host target rest
    | some name => do
      match ← host.readSourceRelative ⟨name⟩ target with
      | .error e => return .error e
      | .ok _ => readIncludes host target rest

/-- The diagnostics of each source, in order. -/
def checkUnits (host : ProgramHost σ) (target : ScriptTarget) :
    List SourceUnit → Exec σ (Except HostError (List (SourceUnit × List Diagnostic)))
  | [] => pure (.ok [])
  | unit :: rest => do
    match ← readIncludes host target (lines unit.text) with
    | .error e => return .error e
    | .ok () =>
      let diagnostics ← check host.resolveImports unit.file unit.text
      return (← checkUnits host target rest).map ((unit, diagnostics) :: ·)

/-- Writes artifacts until one fails, and gives the paths written. -/
def writeArtifacts (host : ProgramHost σ) : List Artifact → Exec σ (Except HostError (List Path))
  | [] => pure (.ok [])
  | artifact :: rest => do
    match ← host.writeOutput artifact.path artifact.content with
    | .error e => return .error e
    | .ok () => return (← writeArtifacts host rest).map (artifact.path :: ·)

/-- The artifacts of a program, with the line ends of the host. -/
def programArtifacts (options : CompilerOptions) (newLine : NewLine) (units : List SourceUnit) :
    List Artifact :=
  units.flatMap fun unit =>
    (artifacts options unit.file unit.text).map fun artifact =>
      { artifact with content := replaceChar '\n' newLine.text artifact.content }

/-- Checks all sources of a program, and emits them if none is refused. -/
def emitProgram (roots : List Path) (options : CompilerOptions) (host : ProgramHost σ) :
    Exec σ (Except HostError BuildResult) := do
  let (units, missing) ← readRoots host options.target roots
  match ← checkUnits host options.target units with
  | .error e => return .error e
  | .ok checked =>
    let diagnostics := missing ++ checked.flatMap (·.2)
    if checked.any fun (unit, own) => refuses options unit.text own then
      return .ok { diagnostics, emitSkipped := true }
    else
      return (← writeArtifacts host (programArtifacts options host.newLine units)).map
        fun emitted => { diagnostics, emitted }

/-! ## The language service -/

/-- Texts are judged by their lines. -/
def analyst : Analyst σ (List Diagnostic) where
  study host file text := check host.resolveImports file text
  output options file text diagnostics :=
    if refuses options text diagnostics then .skipped else ⟨artifacts options file text, false⟩
  report diagnostics := diagnostics

abbrev Knowledge := CompileWatch.Knowledge (List Diagnostic)

/-- The line checker as a front end. -/
def frontEnd : FrontEnd σ Knowledge where
  defaultLib := defaultLib
  parse file text target := ⟨file, text, target⟩
  resolveModule := resolveModule
  emitProgram := emitProgram
  initialKnowledge := {}
  emitOutput := analyst.emitOutput
  diagnostics := analyst.diagnosticsOf

end CompileWatch.LineChecker
