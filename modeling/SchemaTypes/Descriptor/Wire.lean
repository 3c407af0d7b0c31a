import SchemaTypes.Descriptor.Basic
import SchemaTypes.Descriptor.Unread

/-!
# Descriptor/Wire — descriptors as bytes

Each descriptor is a message of its own.  The reader keeps what the descriptors of this library hold
and passes over all other fields, once the messages among them are found well formed; of a field
that stands several times, the last one counts.  A type or label without a meaning is passed over
too.

The numbers in front of a reader's bytes are the levels that may still lie below the message.
-/

namespace SchemaTypes.Descriptor

open SchemaTypes.Wire

/-! ## Reading -/

/-- The name of an enum value. -/
def valueName? (room : Nat) (bytes : List UInt8) : Option String :=
  (Unread.value.records? room bytes).map (Record.text 1)

/-- The enum in a block. -/
def Enum.decode? (room : Nat) (bytes : List UInt8) : Option Enum := do
  let rs ← Unread.enum.records? room bytes
  let values ← inside? room valueName? (Record.blocks 2 rs)
  return { name := Record.text 1 rs, values := values }

/-- The field in a block. -/
def Field.decode? (room : Nat) (bytes : List UInt8) : Option Field := do
  let rs ← Unread.field.records? room bytes
  return {
    name := Record.text 1 rs
    label := (Record.choice? 4 Label.ofNumber? rs).getD .optional
    type := (Record.choice? 5 FieldType.ofNumber? rs).getD .double
    typeName := Record.text 6 rs }

/-- The message in a block, given how the blocks of its nested messages are read. -/
def Message.decodeWith? (room : Nat) (nested? : List (List UInt8) → Option (List Message))
    (bytes : List UInt8) : Option Message := do
  let rs ← Unread.message.records? room bytes
  let fields ← inside? room Field.decode? (Record.blocks 2 rs)
  let nested ← nested? (Record.blocks 3 rs)
  let enums ← inside? room Enum.decode? (Record.blocks 4 rs)
  return { name := Record.text 1 rs, fields := fields, nested := nested, enums := enums }

/-- The message in a block. -/
def Message.decode? : Nat → List UInt8 → Option Message
  | 0 => decodeWith? 0 fun blocks => if blocks.isEmpty then some [] else none
  | room + 1 => decodeWith? (room + 1) fun blocks => blocks.mapM (Message.decode? room)

/-- The file in a block. -/
def File.decode? (room : Nat) (bytes : List UInt8) : Option File := do
  let rs ← Unread.file.records? room bytes
  let messages ← inside? room Message.decode? (Record.blocks 4 rs)
  let enums ← inside? room Enum.decode? (Record.blocks 5 rs)
  return { name := Record.text 1 rs, package := Record.text 2 rs, messages := messages,
           enums := enums }

/-- How many levels of messages may lie below the top one. -/
def depthLimit : Nat := 100

/-- The files of a descriptor set. -/
def decodeSet? (bytes : List UInt8) : Option (List File) := do
  let rs ← records? depthLimit bytes
  inside? depthLimit File.decode? (Record.blocks 1 rs)

/-! ## Writing -/

/-- The bytes of an enum. -/
def Enum.encode (e : Enum) : List UInt8 :=
  encodeText 1 e.name ++ e.values.flatMap fun v => encodeBlock 2 (encodeText 1 v)

/-- The bytes of a field. -/
def Field.encode (f : Field) : List UInt8 :=
  encodeText 1 f.name ++ encodeVarint 4 f.label.number ++ encodeVarint 5 f.type.number ++
    encodeText 6 f.typeName

mutual

/-- The bytes of a message. -/
def Message.encode : Message → List UInt8
  | ⟨name, fields, nested, enums⟩ =>
    encodeText 1 name ++ fields.flatMap (fun f => encodeBlock 2 f.encode) ++
      encodeMessages 3 nested ++ enums.flatMap fun e => encodeBlock 4 e.encode

/-- Messages as blocks of a number. -/
def encodeMessages (number : Nat) : List Message → List UInt8
  | [] => []
  | m :: ms => encodeBlock number m.encode ++ encodeMessages number ms

end

/-- The bytes of a file. -/
def File.encode (f : File) : List UInt8 :=
  encodeText 1 f.name ++ encodeText 2 f.package ++ encodeMessages 4 f.messages ++
    f.enums.flatMap fun e => encodeBlock 5 e.encode

/-- The bytes of a descriptor set. -/
def encodeSet (files : List File) : List UInt8 := files.flatMap fun f => encodeBlock 1 f.encode

end SchemaTypes.Descriptor
