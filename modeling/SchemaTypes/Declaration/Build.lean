import SchemaTypes.Options
import SchemaTypes.TypeExpr
import SchemaTypes.Schema.Registry

/-!
# Declaration/Build — the declarations of a schema file

Each enum of the file becomes a union of its value names and each message a record of its fields,
the enums first.  A field that refers to a message or an enum is resolved in a registry; the first
field that cannot be resolved stops the whole file.
-/

namespace SchemaTypes

open Schema

namespace Declaration

/-- The word a message is written as. -/
def messageName (options : Options) (m : Message) : String :=
  Name.qualify m.fullName m.package options.alwaysQualify

/-- The word an enum is written as. -/
def enumName (options : Options) (e : Enum) : String :=
  Name.qualify e.fullName e.package options.alwaysQualify

/-- The type of one value of a field. -/
def fieldBase (options : Options) (registry : Registry) (f : Field) : Except Unresolved TypeExpr :=
  match f.sort with
  | .float => .ok .float
  | .integer => .ok .integer
  | .boolean => .ok .boolean
  | .text | .bytes => .ok .string
  | .group => .ok .unknown
  | .message => (registry.message f.typeName).map fun m => .reference (messageName options m)
  | .enum => (registry.enum f.typeName).map fun e =>
      if options.embedEnums then .alternatives e.values else .reference (enumName options e)
  | .other => .ok (if f.typeName = "" then .unknown else .primitive f.typeName)

/-- The name and the type of a field in a message; a repeated field is an array. -/
def field (options : Options) (registry : Registry) (messageName : String) (f : Field) :
    Except Unresolved (String × TypeExpr) :=
  match fieldBase options registry f with
  | .ok base => .ok (f.name, if f.repeated then .array base else base)
  | .error u => .error (u.within f.name messageName)

/-- The declaration of an enum. -/
def ofEnum (options : Options) (e : Enum) : Declaration where
  name := enumName options e
  body := .alternatives e.values

/-- The declaration of a message, unless one of its fields cannot be resolved. -/
def ofMessage (options : Options) (registry : Registry) (m : Message) :
    Except Unresolved Declaration :=
  (m.fields.mapM (field options registry (Name.bare m.fullName))).map fun fields =>
    ⟨messageName options m, .record fields⟩

/-- The declarations of a file: one per enum, then one per message. -/
def build (options : Options) (registry : Registry) (f : File) :
    Except Unresolved (List Declaration) :=
  (f.messages.mapM (ofMessage options registry)).map fun ds =>
    f.enums.map (ofEnum options) ++ ds

end Declaration

end SchemaTypes
