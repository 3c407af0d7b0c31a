import SchemaTypes.Wire.Record

/-!
# Wire/Shape — messages that are read for their form alone

A message may hold messages that nobody asks for.  They have to be well formed all the same, and
they count as levels.  A shape says under which numbers such messages stand, and of which shape each
of them is.  `Shape.records?` gives the records of a message whose unwanted messages pass.
-/

namespace SchemaTypes.Wire

/-- The numbers under which a message holds messages that are only checked, with their shapes. -/
inductive Shape where
  | mk (parts : List (Nat × Shape))

namespace Shape

/-- The numbers of a shape, with the shapes under them. -/
def parts : Shape → List (Nat × Shape)
  | ⟨parts⟩ => parts

/-- The shape of a message that holds no messages. -/
def plain : Shape := ⟨[]⟩

/-- Whether the messages under the shape's numbers are well formed, each one level further down;
there is no level below the last. -/
def admits : Nat → Shape → List Record → Bool
  | 0, shape, rs => shape.parts.all fun (number, _) => (Record.blocks number rs).isEmpty
  | room + 1, shape, rs =>
    shape.parts.all fun (number, part) =>
      (Record.blocks number rs).all fun bytes => (Wire.records? room bytes).any (admits room part)

/-- The records of a message that may hold `room` further levels, once the messages of the shape
among them are found well formed. -/
def records? (shape : Shape) (room : Nat) (bytes : List UInt8) : Option (List Record) :=
  (Wire.records? room bytes).filter (admits room shape)

end Shape

end SchemaTypes.Wire
