import SchemaTypes.Name
import SchemaTypes.Table
import SchemaTypes.Schema.Basic
import SchemaTypes.Schema.Unresolved

/-!
# Schema/Registry — what names stand for

A registry knows files by name, and messages and enums by canonical full name.  Files are added one
after the other; what is added later takes the place of what had the same name before.  Messages and
enums do not share their names.
-/

namespace SchemaTypes.Schema

/-- The files, messages and enums known so far. -/
structure Registry where
  files : Table File := .empty
  messages : Table Message := .empty
  enums : Table Enum := .empty
  deriving DecidableEq

namespace Registry

/-- The messages known once one more is. -/
def putMessage (t : Table Message) (m : Message) : Table Message :=
  t.insert (Name.canonical m.fullName) m

/-- The enums known once one more is. -/
def putEnum (t : Table Enum) (e : Enum) : Table Enum := t.insert (Name.canonical e.fullName) e

/-- The registry with a file, its messages and its enums added. -/
def add (r : Registry) (f : File) : Registry where
  files := r.files.insert f.name f
  messages := f.messages.foldl putMessage r.messages
  enums := f.enums.foldl putEnum r.enums

/-- The registry of files added from left to right. -/
def ofFiles (fs : List File) : Registry := fs.foldl add {}

/-- The file of a name. -/
def file (r : Registry) (name : String) : Except Unresolved File :=
  match r.files.get? name with
  | some f => .ok f
  | none => .error { typeName := name, kind := "file" }

/-- The message of a full name, whatever its leading dots. -/
def message (r : Registry) (name : String) : Except Unresolved Message :=
  match r.messages.get? (Name.canonical name) with
  | some m => .ok m
  | none => .error { typeName := name, kind := "message" }

/-- The enum of a full name, whatever its leading dots. -/
def enum (r : Registry) (name : String) : Except Unresolved Enum :=
  match r.enums.get? (Name.canonical name) with
  | some e => .ok e
  | none => .error { typeName := name, kind := "enum" }

/-- Adding a last file to the registry of the others. -/
theorem ofFiles_concat (fs : List File) (f : File) : ofFiles (fs ++ [f]) = (ofFiles fs).add f := by
  simp [ofFiles]

end Registry

end SchemaTypes.Schema
