/-!
# Schema/Basic — files, messages, enums and fields

A schema file lists all its messages and all its enums, those nested in messages too.  Each knows
its full name, its package and the file it stands in.  The kind of a field is a number; `Field.sort`
says what the numbers mean.
-/

namespace SchemaTypes.Schema

/-- What a field holds. -/
inductive FieldSort where
  | float
  | integer
  | boolean
  | text
  | bytes
  | group
  | message
  | enum
  | other
  deriving DecidableEq

/-- A field of a message. -/
structure Field where
  name : String
  kind : Int
  typeName : String := ""
  repeated : Bool := false
  deriving DecidableEq

/-- A message with its fields in order. -/
structure Message where
  name : String
  fullName : String
  package : String := ""
  fields : List Field := []
  fileName : String := ""
  deriving DecidableEq

/-- An enum with the names of its values in order. -/
structure Enum where
  name : String
  fullName : String
  package : String := ""
  values : List String := []
  fileName : String := ""
  deriving DecidableEq

/-- A file with its messages and enums at all depths. -/
structure File where
  name : String
  package : String := ""
  messages : List Message := []
  enums : List Enum := []
  deriving DecidableEq

/-- What a field kind means; a number without a meaning is `other`. -/
def FieldSort.ofKind : Int → FieldSort
  | 1 | 2 => .float
  | 3 | 4 | 5 | 6 | 7 | 13 | 15 | 16 | 17 | 18 => .integer
  | 8 => .boolean
  | 9 => .text
  | 10 => .group
  | 11 => .message
  | 12 => .bytes
  | 14 => .enum
  | _ => .other

/-- What the field holds. -/
def Field.sort (f : Field) : FieldSort := FieldSort.ofKind f.kind

/-- Kind 11 alone refers to a message. -/
@[simp] theorem FieldSort.ofKind_eq_message_iff (kind : Int) :
    FieldSort.ofKind kind = .message ↔ kind = 11 := by
  unfold FieldSort.ofKind
  split <;> simp_all

/-- Kind 14 alone refers to an enum. -/
@[simp] theorem FieldSort.ofKind_eq_enum_iff (kind : Int) :
    FieldSort.ofKind kind = .enum ↔ kind = 14 := by
  unfold FieldSort.ofKind
  split <;> simp_all

end SchemaTypes.Schema
