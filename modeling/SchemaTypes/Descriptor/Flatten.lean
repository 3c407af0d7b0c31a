import SchemaTypes.Descriptor.Basic
import SchemaTypes.Schema.Registry

/-!
# Descriptor/Flatten — a forest as two lists

Flattening a file descriptor gives every message and every enum its full name: the package, the
enclosing messages and its own name, each after a dot.

* Messages come in pre-order: each before those inside it, siblings in declared order.
* Enums of the file come first.  Of the others, those inside the messages of a message come before
  the message's own.
-/

namespace SchemaTypes.Descriptor

/-- The full name of what is declared under a name in a scope. -/
def under (scope name : String) : String := scope ++ "." ++ name

/-- A field as the schema knows it. -/
def Field.toSchema (f : Field) : Schema.Field where
  name := f.name
  kind := f.type.number
  typeName := f.typeName
  repeated := f.label == .repeated

/-- An enum as the schema knows it, declared in a scope of a file. -/
def Enum.toSchema (file : File) (scope : String) (e : Enum) : Schema.Enum where
  name := e.name
  fullName := under scope e.name
  package := file.package
  values := e.values
  fileName := file.name

/-- A message as the schema knows it, declared in a scope of a file. -/
def Message.toSchema (file : File) (scope : String) (m : Message) : Schema.Message where
  name := m.name
  fullName := under scope m.name
  package := file.package
  fields := m.fields.map Field.toSchema
  fileName := file.name

mutual

/-- A message, then the messages inside it. -/
def Message.flatten (file : File) (scope : String) : Message → List Schema.Message
  | ⟨name, fields, nested, enums⟩ =>
    Message.toSchema file scope ⟨name, fields, nested, enums⟩
      :: flattenMessages file (under scope name) nested

/-- The messages of a forest, in pre-order. -/
def flattenMessages (file : File) (scope : String) : List Message → List Schema.Message
  | [] => []
  | m :: ms => m.flatten file scope ++ flattenMessages file scope ms

end

mutual

/-- The enums inside a message: those of the messages inside it, then its own. -/
def Message.flattenEnums (file : File) (scope : String) : Message → List Schema.Enum
  | ⟨name, _, nested, enums⟩ =>
    enumsInside file (under scope name) nested
      ++ enums.map (Enum.toSchema file (under scope name))

/-- The enums inside the messages of a forest. -/
def enumsInside (file : File) (scope : String) : List Message → List Schema.Enum
  | [] => []
  | m :: ms => m.flattenEnums file scope ++ enumsInside file scope ms

end

/-- The scope of a file's top level: its package after a dot, nothing without a package. -/
def File.scope (f : File) : String := if f.package = "" then "" else "." ++ f.package

/-- A file with all its messages and enums in two lists. -/
def File.toSchema (f : File) : Schema.File where
  name := f.name
  package := f.package
  messages := flattenMessages f f.scope f.messages
  enums := f.enums.map (Enum.toSchema f f.scope) ++ enumsInside f f.scope f.messages

/-- The registry of descriptors added from left to right. -/
def registry (files : List File) : Schema.Registry := .ofFiles (files.map File.toSchema)

end SchemaTypes.Descriptor
