import CompileWatch.Decimal.Binary

/-!
# Documents

The values that configuration files and event lines are made of. The fields of
an object are kept in ascending order of their keys, each key once.
-/

namespace CompileWatch

open CompileWatch.Decimal

/-- A value of a configuration file or an event line. -/
inductive Document where
  | null
  | bool (value : Bool)
  | integer (value : Int)
  | number (value : Binary64)
  | text (value : String)
  | array (items : List Document)
  | object (fields : List (String × Document))
deriving Repr, Inhabited

namespace Document

/-- Enters a field at its place; the value of a key that is there is replaced. -/
def setField (key : String) (value : Document) :
    List (String × Document) → List (String × Document)
  | [] => [(key, value)]
  | (k, old) :: rest =>
    match compare key k with
    | .lt => (key, value) :: (k, old) :: rest
    | .eq => (k, value) :: rest
    | .gt => (k, old) :: setField key value rest

/-- An object from fields in any order, of which the last of a key counts. -/
def ofFields (fields : List (String × Document)) : Document :=
  .object (fields.foldl (fun sorted (key, value) => setField key value sorted) [])

/-- The value of a key, if the document is an object that has it. -/
def field? (document : Document) (key : String) : Option Document :=
  match document with
  | .object fields => (fields.find? fun f => f.1 == key).map (·.2)
  | _ => none

/-- The document without a key. -/
def eraseField (document : Document) (key : String) : Document :=
  match document with
  | .object fields => .object (fields.filter fun f => f.1 != key)
  | other => other

/-- An optional value, absence being null. -/
def ofOption (encode : α → Document) (value : Option α) : Document :=
  (value.map encode).getD .null

end Document

end CompileWatch
