/-!
# Schema/Unresolved — a name that stands for nothing

The refusal of a look-up: the name as it was given, what was looked for, and, when a field asked for
it, that field and the message around it.
-/

namespace SchemaTypes.Schema

/-- A name that could not be resolved. -/
structure Unresolved where
  typeName : String
  kind : String := "message"
  fieldName : Option String := none
  messageName : Option String := none
  deriving DecidableEq

namespace Unresolved

/-- A text that says something, or nothing. -/
def nonempty (name : Option String) : Option String := name.filter (· != "")

/-- The wording of the refusal.  The field is named when it has a name, and the message only
together with its field. -/
def message (u : Unresolved) : String :=
  let subject := "Unresolved " ++ u.kind ++ " '" ++ u.typeName ++ "'"
  match nonempty u.fieldName with
  | none => subject
  | some field =>
    let site := subject ++ " referenced by field '" ++ field ++ "'"
    match nonempty u.messageName with
    | none => site
    | some message => site ++ " of message '" ++ message ++ "'"

/-- The refusal, told which field of which message asked; an empty message name is none. -/
def within (u : Unresolved) (fieldName messageName : String) : Unresolved :=
  { u with fieldName := some fieldName, messageName := nonempty (some messageName) }

end Unresolved

end SchemaTypes.Schema
