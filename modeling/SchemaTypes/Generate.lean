import SchemaTypes.Declaration.Build
import SchemaTypes.Dialect.Basic

/-!
# Generate — the text for one registered file

The file is looked up, its declarations are built and written in a dialect.  Elm has no inline
unions, so there the wish to embed enums is answered by a warning and otherwise passed over.
-/

namespace SchemaTypes

open Schema

/-- Why no text was generated. -/
inductive Failure where
  | options (e : Options.Error)
  | naming (e : NamingError)
  | unresolved (u : Unresolved)
  | unsupported (v : Value)

/-- The wording of a failure. -/
def Failure.message : Failure → String
  | .options e => e.message
  | .naming e => e.message
  | .unresolved u => u.message
  | .unsupported v => v.refusal.message

namespace Dialect

/-- The options as the dialect can heed them. -/
def heeded : Dialect → Options → Options
  | .elm, options => { options with embedEnums := false }
  | .flow, options => options

/-- What is said before a file is generated. -/
def warning : Dialect → Options → String
  | .elm, options =>
    if options.embedEnums then
      "Warning: embed_enums is not supported by the elm dialect; ignoring\n"
    else ""
  | .flow, _ => ""

/-- The text for a registered file. -/
def generate (d : Dialect) (options : Options) (registry : Registry) (fileName : String) :
    Except Failure String :=
  match registry.file fileName with
  | .error u => .error (.unresolved u)
  | .ok f =>
    match Declaration.build (d.heeded options) registry f with
    | .error u => .error (.unresolved u)
    | .ok ds => (d.style.render ds).mapError .unsupported

end Dialect

/-- What is said before a file is generated in the dialect of a name. -/
def warning (dialectName : String) (options : Options) : String :=
  match Dialect.ofName? dialectName with
  | none => ""
  | some d => d.warning options

/-- The text for a registered file in the dialect of a name. -/
def generate (dialectName : String) (options : Options) (registry : Registry)
    (fileName : String) : Except Failure String :=
  match Dialect.ofName? dialectName with
  | none => .error (.naming (.unknownDialect dialectName))
  | some d => d.generate options registry fileName

end SchemaTypes
