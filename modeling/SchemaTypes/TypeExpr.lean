import SchemaTypes.Value

/-!
# TypeExpr — types, whatever they are written in

A type is a primitive, an array, a reference by name, a union of literals or a record.  A position
for a type may also hold some other value; it has no written form, and whoever meets it refuses it.
-/

namespace SchemaTypes

/-- A type expression. -/
inductive TypeExpr where
  | primitive (name : String)
  | array (element : TypeExpr)
  | reference (name : String)
  | alternatives (members : List String)
  | record (fields : List (String × TypeExpr))
  /-- A value that is no type. -/
  | foreign (value : Value)
  deriving Inhabited

/-- A named type. -/
structure Declaration where
  name : String
  body : TypeExpr

namespace TypeExpr

/-! ## The primitives -/

def float : TypeExpr := .primitive "float"
def integer : TypeExpr := .primitive "integer"
def boolean : TypeExpr := .primitive "boolean"
def string : TypeExpr := .primitive "string"
def unknown : TypeExpr := .primitive "unknown"

/-- Whether the type is a record. -/
def isRecord : TypeExpr → Bool
  | .record _ => true
  | _ => false

/-! ## Types as values -/

mutual

/-- The value by which messages show a type. -/
def toValue : TypeExpr → Value
  | .primitive name => .structured "Primitive" [("name", .text name)]
  | .array element => .structured "ArrayOf" [("element", element.toValue)]
  | .reference name => .structured "Reference" [("name", .text name)]
  | .alternatives members =>
    .structured "Alternatives" [("members", .list (members.map Value.text))]
  | .record fields => .structured "Record" [("fields", .list (fieldValues fields))]
  | .foreign value => value

/-- The values by which messages show the fields of a record. -/
def fieldValues : List (String × TypeExpr) → List Value
  | [] => []
  | (name, type) :: fields =>
    .structured "NamedField" [("name", .text name), ("type", type.toValue)] :: fieldValues fields

end

/-- The value by which messages show a field that stands alone. -/
def fieldValue (name : String) (type : TypeExpr) : Value :=
  .structured "NamedField" [("name", .text name), ("type", type.toValue)]

end TypeExpr

namespace Declaration

/-- A record is declared as an alias of its fields; any other type is a type of its own. -/
def isAlias (d : Declaration) : Bool := d.body.isRecord

/-- The value by which messages show a declaration. -/
def toValue (d : Declaration) : Value :=
  .structured "Declaration" [("public_name", .text d.name), ("body", d.body.toValue)]

end Declaration

end SchemaTypes
