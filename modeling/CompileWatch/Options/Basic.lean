import CompileWatch.Path.Basic
import CompileWatch.Text.LowerCase

/-!
# Compiler options

The settings of one build: language level, module system, output folders and
checks. They are read once and do not change while a build or a session runs.
-/

namespace CompileWatch

/-- The language level that is parsed and emitted. -/
inductive ScriptTarget where
  | es3 | es5 | es2015 | es2016 | es2017 | es2018 | es2019 | es2020 | es2021 | es2022 | es2023
  | es2024 | esNext
deriving DecidableEq, Repr

namespace ScriptTarget

def name : ScriptTarget → String
  | es3 => "ES3"
  | es5 => "ES5"
  | es2015 => "ES2015"
  | es2016 => "ES2016"
  | es2017 => "ES2017"
  | es2018 => "ES2018"
  | es2019 => "ES2019"
  | es2020 => "ES2020"
  | es2021 => "ES2021"
  | es2022 => "ES2022"
  | es2023 => "ES2023"
  | es2024 => "ES2024"
  | esNext => "ESNext"

def all : List ScriptTarget :=
  [es3, es5, es2015, es2016, es2017, es2018, es2019, es2020, es2021, es2022, es2023, es2024,
   esNext]

end ScriptTarget

/-- The module system of emitted code. -/
inductive ModuleKind where
  | none | commonJs | amd | umd | system | es2015 | es2020 | es2022 | esNext | node16 | node18
  | nodeNext | preserve
deriving DecidableEq, Repr

namespace ModuleKind

def name : ModuleKind → String
  | none => "None"
  | commonJs => "CommonJS"
  | amd => "AMD"
  | umd => "UMD"
  | system => "System"
  | es2015 => "ES2015"
  | es2020 => "ES2020"
  | es2022 => "ES2022"
  | esNext => "ESNext"
  | node16 => "Node16"
  | node18 => "Node18"
  | nodeNext => "NodeNext"
  | preserve => "Preserve"

def all : List ModuleKind :=
  [none, commonJs, amd, umd, system, es2015, es2020, es2022, esNext, node16, node18, nodeNext,
   preserve]

end ModuleKind

/-- The value that a spelling names, letter case aside. The sixth edition of the language goes by
its number as well as by its year. -/
def valueNamed? (values : List α) (name : α → String) (spelling : String) : Option α :=
  let wanted := Text.lowerAscii spelling
  let year := if wanted = "es6" then "es2015" else wanted
  values.find? fun value => Text.lowerAscii (name value) == year

def ScriptTarget.ofName? : String → Option ScriptTarget := valueNamed? all name

def ModuleKind.ofName? : String → Option ModuleKind := valueNamed? all name

/-- The line terminator of emitted files. -/
inductive NewLine where
  | lf | crlf
deriving DecidableEq, Repr

namespace NewLine

/-- The terminator in use when no option names one. -/
def standard : NewLine := lf

def text : NewLine → String
  | lf => "\n"
  | crlf => "\r\n"

/-- How options name a terminator. -/
def name : NewLine → String
  | lf => "lf"
  | crlf => "crlf"

def all : List NewLine := [lf, crlf]

end NewLine

/-- The settings of a build. -/
structure CompilerOptions where
  target : ScriptTarget := .es5
  module : ModuleKind := .commonJs
  outDir : Option Path := none
  rootDir : Option Path := none
  strict : Bool := false
  noImplicitAny : Bool := false
  declaration : Bool := false
  sourceMap : Bool := false
  noEmitOnError : Bool := false
  newLine : Option NewLine := none
  /-- The configuration file that the options were read from. -/
  configFilePath : Option Path := none
deriving DecidableEq, Repr

namespace CompilerOptions

instance : Inhabited CompilerOptions := ⟨{}⟩

def withTarget (options : CompilerOptions) (target : ScriptTarget) : CompilerOptions :=
  { options with target }

def withOutDir (options : CompilerOptions) (dir : Path) : CompilerOptions :=
  { options with outDir := some dir }

end CompilerOptions

end CompileWatch
