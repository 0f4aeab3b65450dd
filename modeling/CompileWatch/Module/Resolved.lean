import CompileWatch.Path.Basic

/-!
# Resolved modules

Where an import points, and how that was found out.
-/

namespace CompileWatch

/-- The stage of resolution that found a module. -/
inductive ModuleOrigin where
  /-- The front end's own resolution. -/
  | native
  /-- A fallback directory. -/
  | fallback
deriving DecidableEq, Repr

def ModuleOrigin.name : ModuleOrigin → String
  | native => "native"
  | fallback => "fallback"

/-- The file that an import names. -/
structure ResolvedModule where
  path : Path
  origin : ModuleOrigin
deriving DecidableEq, Repr

namespace ResolvedModule

/-- The ending of declaration files. -/
def declarationSuffix : String := ".d.ts"

def isDeclaration (m : ResolvedModule) : Bool :=
  match m.path.fileName? with
  | some name => declarationSuffix.toList.isSuffixOf name.toList
  | none => false

end ResolvedModule

end CompileWatch
