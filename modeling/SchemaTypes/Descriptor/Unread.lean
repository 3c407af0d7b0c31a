import SchemaTypes.Wire.Shape

/-!
# Descriptor/Unread — the messages in descriptors that are not kept

Descriptors carry more than this library asks for: options of every kind, extensions, reserved
ranges, services, comments.  Those that are messages count as levels and have to be well formed, so
the shapes below list them, for each descriptor under its own name.
-/

namespace SchemaTypes.Descriptor.Unread

open SchemaTypes.Wire

/-! ## Options -/

/-- An option left uninterpreted; its name is a list of parts. -/
def uninterpretedOption : Shape := ⟨[(2, .plain)]⟩

/-- Options with a set of features under one number and further messages under others. -/
def options (features : Nat) (others : List Nat) : Shape :=
  ⟨(features, .plain) :: (999, uninterpretedOption) :: others.map (·, .plain)⟩

/-- The options of a field: defaults for editions and what supports a feature stand beside. -/
def fieldOptions : Shape := options 21 [20, 22]

/-- The options of an enum value: what supports a feature stands beside. -/
def valueOptions : Shape := options 2 [4]

/-- The options of a range of extensions: their declarations stand beside. -/
def rangeOptions : Shape := options 50 [2]

/-! ## Descriptors -/

/-- What is not kept of an enum value: its options. -/
def value : Shape := ⟨[(3, valueOptions)]⟩

/-- What is not kept of an enum: its options and reserved ranges. -/
def enum : Shape := ⟨[(3, options 7 []), (4, .plain)]⟩

/-- What is not kept of a field: its options.  An extension is a field of which nothing is kept. -/
def field : Shape := ⟨[(8, fieldOptions)]⟩

/-- A choice between fields, with its options. -/
def choice : Shape := ⟨[(2, options 1 [])]⟩

/-- What is not kept of a message: ranges of extensions, extensions, options, choices between
fields, and reserved ranges. -/
def message : Shape :=
  ⟨[(5, ⟨[(3, rangeOptions)]⟩), (6, field), (7, options 12 []), (8, choice), (9, .plain)]⟩

/-- A service, with its methods and options. -/
def service : Shape := ⟨[(2, ⟨[(4, options 35 [])]⟩), (3, options 34 [])]⟩

/-- What is not kept of a file: services, extensions, options, and where its parts stand in the
source. -/
def file : Shape := ⟨[(6, service), (7, field), (8, options 50 []), (9, ⟨[(1, .plain)]⟩)]⟩

end SchemaTypes.Descriptor.Unread
