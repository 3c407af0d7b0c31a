import SchemaTypes.TypeExpr

/-!
# Dialect/Style — writing declarations, given the pieces of a dialect

All dialects write the same things in the same order: a header, then each declaration with its type.
They differ in the words for primitives and in the text around an array's element, a union's member,
a record's field and a declaration.  A `Style` holds these pieces; `Style.type` puts them together.

A value that is no type has no text.  The first one met, from left to right and from the outside in,
is what a failed rendering returns.
-/

namespace SchemaTypes

/-- The pieces by which a dialect writes declarations. -/
structure Style where
  /-- The first line of a file. -/
  header : String
  /-- The words of the dialect for primitives; a primitive without one stands as it is. -/
  words : List (String × String)
  /-- A member of a union. -/
  literal : String → String
  /-- An array, given its element and the element's text. -/
  array : TypeExpr → String → String
  /-- A line of a record, given the field's name, its type and the type's text. -/
  field : String → TypeExpr → String → String
  /-- A declaration, given the text of its body. -/
  declaration : Declaration → String → String

namespace Style

/-- The word for a primitive. -/
def token (s : Style) (primitive : String) : String :=
  ((s.words.find? (·.1 == primitive)).map Prod.snd).getD primitive

mutual

/-- A type, or the first value in it that is none. -/
def type (s : Style) : TypeExpr → Except Value String
  | .primitive name => .ok (s.token name)
  | .array element =>
    match s.type element with
    | .ok text => .ok (s.array element text)
    | .error v => .error v
  | .reference name => .ok name
  | .alternatives members => .ok (" | ".intercalate (members.map s.literal))
  | .record fields =>
    match s.lines fields with
    | .ok ls => .ok ("\x7b\n" ++ ",\n".intercalate ls ++ "\n\x7d")
    | .error v => .error v
  | .foreign value => .error value

/-- The lines of a record, one to a field. -/
def lines (s : Style) : List (String × TypeExpr) → Except Value (List String)
  | [] => .ok []
  | (name, t) :: fields =>
    match s.type t with
    | .error v => .error v
    | .ok text =>
      match s.lines fields with
      | .error v => .error v
      | .ok ls => .ok (s.field name t text :: ls)

end

/-- A declaration. -/
def declare (s : Style) (d : Declaration) : Except Value String :=
  (s.type d.body).map (s.declaration d)

/-- A whole file. -/
def render (s : Style) (ds : List Declaration) : Except Value String :=
  (ds.mapM s.declare).map fun texts => s.header ++ String.join texts

end Style

end SchemaTypes
