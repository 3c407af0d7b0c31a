import SchemaTypes.Path
import SchemaTypes.Dialect.Elm
import SchemaTypes.Dialect.Flow
import SchemaTypes.Text.Quoted

/-!
# Dialect/Basic — the dialects and the files written in them

A dialect has a name, a suffix for its files and a way to write declarations.  The output of a
schema file keeps the file's directory and stem and takes the dialect's suffix.
-/

namespace SchemaTypes

/-- What declarations can be written in. -/
inductive Dialect where
  | elm
  | flow
  deriving DecidableEq

namespace Dialect

/-- The name by which a dialect is asked for. -/
def name : Dialect → String
  | .elm => "elm"
  | .flow => "flow"

/-- The suffix of a dialect's files. -/
def suffix : Dialect → String
  | .elm => ".elm"
  | .flow => ".js"

/-- The dialect of a name. -/
def ofName? (name : String) : Option Dialect :=
  if name = "elm" then some .elm else if name = "flow" then some .flow else none

/-- How declarations are written in a dialect. -/
def style : Dialect → Style
  | .elm => .elm
  | .flow => .flow

/-- The name of the file written for a schema file, if the path has a last part. -/
def outputName? (d : Dialect) (schemaName : String) : Option String :=
  ((Path.parse schemaName).withSuffix? d.suffix).map Path.text

@[simp] theorem ofName?_name (d : Dialect) : ofName? d.name = some d := by cases d <;> rfl

end Dialect

/-- Why an output cannot be named. -/
inductive NamingError where
  | unknownDialect (name : String)
  | noName (path : Path)
  deriving DecidableEq

/-- The wording of the refusal. -/
def NamingError.message : NamingError → String
  | .unknownDialect name =>
    "Unknown dialect '" ++ name ++ "'. Expected one of: ['elm', 'flow']"
  | .noName path => "PurePosixPath(" ++ Text.quoted path.text ++ ") has an empty name"

/-- The name of the file written for a schema file in the dialect of a name. -/
def outputName (schemaName dialectName : String) : Except NamingError String :=
  match Dialect.ofName? dialectName with
  | none => .error (.unknownDialect dialectName)
  | some d =>
    match d.outputName? schemaName with
    | some name => .ok name
    | none => .error (.noName (Path.parse schemaName))

end SchemaTypes
