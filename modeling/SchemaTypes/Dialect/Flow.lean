import SchemaTypes.Dialect.Style

/-!
# Dialect/Flow — declarations in Flow

Every declaration is an exported type.  Enum values are string literals, arrays take their element
in angle brackets, and every field of a record may be absent.
-/

namespace SchemaTypes

/-- How declarations are written in Flow. -/
def Style.flow : Style where
  header := "/* @flow */\n"
  words := [("float", "number"), ("integer", "number"), ("boolean", "boolean"),
    ("string", "string"), ("unknown", "any")]
  literal member := "\"" ++ member ++ "\""
  array _ text := "Array<" ++ text ++ ">"
  field name _ text := "  " ++ name ++ "?: " ++ text
  declaration d body := "export type " ++ d.name ++ " = " ++ body ++ ";\n\n"

end SchemaTypes
