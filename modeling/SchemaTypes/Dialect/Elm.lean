import SchemaTypes.Dialect.Style

/-!
# Dialect/Elm — declarations in Elm

A record is declared as an alias, anything else as a type of its own.  Enum values are constructors,
and every field of a record is a `Maybe`.  The argument of `List` and `Maybe` stands in parentheses
when it is a list or a union.
-/

namespace SchemaTypes

namespace Elm

/-- Whether a type in argument position needs parentheses. -/
def isCompound : TypeExpr → Bool
  | .array _ => true
  | .alternatives _ => true
  | _ => false

/-- The text of a type in argument position. -/
def argument (t : TypeExpr) (text : String) : String :=
  if isCompound t then "(" ++ text ++ ")" else text

end Elm

/-- How declarations are written in Elm. -/
def Style.elm : Style where
  header := "-- this is a generated file\n"
  words := [("float", "Float"), ("integer", "Int"), ("boolean", "Boolean"), ("string", "String"),
    ("unknown", "?")]
  literal member := member
  array element text := "List " ++ Elm.argument element text
  field name t text := "  " ++ name ++ ": Maybe " ++ Elm.argument t text
  declaration d body :=
    if d.isAlias then "type alias " ++ d.name ++ " =\n" ++ body ++ "\n\n"
    else "type " ++ d.name ++ " = " ++ body ++ "\n\n"

end SchemaTypes
