/-!
# Descriptor/Basic — schema files as a compiler describes them

A file descriptor is a forest: messages hold further messages and enums.  Fields have one of
eighteen types and one of three labels, each with the number by which descriptors are exchanged.
-/

namespace SchemaTypes.Descriptor

/-- The type of a field. -/
inductive FieldType where
  | double
  | float
  | int64
  | uint64
  | int32
  | fixed64
  | fixed32
  | bool
  | string
  | group
  | message
  | bytes
  | uint32
  | enum
  | sfixed32
  | sfixed64
  | sint32
  | sint64
  deriving DecidableEq

/-- The types in order of their numbers, which start at one. -/
def FieldType.all : List FieldType :=
  [.double, .float, .int64, .uint64, .int32, .fixed64, .fixed32, .bool, .string, .group, .message,
    .bytes, .uint32, .enum, .sfixed32, .sfixed64, .sint32, .sint64]

/-- The number of a type. -/
def FieldType.number : FieldType → Nat
  | .double => 1
  | .float => 2
  | .int64 => 3
  | .uint64 => 4
  | .int32 => 5
  | .fixed64 => 6
  | .fixed32 => 7
  | .bool => 8
  | .string => 9
  | .group => 10
  | .message => 11
  | .bytes => 12
  | .uint32 => 13
  | .enum => 14
  | .sfixed32 => 15
  | .sfixed64 => 16
  | .sint32 => 17
  | .sint64 => 18

/-- The type of a number. -/
def FieldType.ofNumber? (n : Nat) : Option FieldType := all.find? (·.number == n)

/-- How often a field may stand in a message. -/
inductive Label where
  | optional
  | required
  | repeated
  deriving DecidableEq

/-- The number of a label. -/
def Label.number : Label → Nat
  | .optional => 1
  | .required => 2
  | .repeated => 3

/-- The label of a number. -/
def Label.ofNumber? (n : Nat) : Option Label :=
  [Label.optional, .required, .repeated].find? (·.number == n)

/-- A field.  One that says nothing is an optional double without a name. -/
structure Field where
  name : String := ""
  type : FieldType := .double
  label : Label := .optional
  typeName : String := ""
  deriving DecidableEq

/-- An enum with the names of its values. -/
structure Enum where
  name : String := ""
  values : List String := []
  deriving DecidableEq

/-- A message with its fields, the messages inside it and the enums inside it. -/
structure Message where
  name : String := ""
  fields : List Field := []
  nested : List Message := []
  enums : List Enum := []
  deriving Inhabited

/-- A file with its top-level messages and enums. -/
structure File where
  name : String := ""
  package : String := ""
  messages : List Message := []
  enums : List Enum := []

@[simp] theorem FieldType.ofNumber?_number (t : FieldType) : ofNumber? t.number = some t := by
  cases t <;> rfl

@[simp] theorem Label.ofNumber?_number (l : Label) : ofNumber? l.number = some l := by
  cases l <;> rfl

end SchemaTypes.Descriptor
