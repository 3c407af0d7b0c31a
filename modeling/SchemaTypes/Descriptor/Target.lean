import SchemaTypes.Path
import SchemaTypes.Descriptor.Basic

/-!
# Descriptor/Target — the file a path means

A compiler answers with the file it was asked for and all files that one imports.  The file meant by
a path is the last one with the path's base name; failing that, the only file there is.
-/

namespace SchemaTypes.Descriptor

/-- No file is meant by a path: its base name, and the names of the files there are. -/
structure NoTarget where
  baseName : String
  found : List String
  deriving DecidableEq

/-- The wording of the refusal. -/
def NoTarget.message (e : NoTarget) : String :=
  "Could not locate target file '" ++ e.baseName ++ "' in descriptor set. Found: " ++
    ", ".intercalate e.found

/-- The file that a path means. -/
def target (files : List File) (path : String) : Except NoTarget File :=
  let base := Path.baseName path
  match files.reverse.find? (Path.baseName ·.name == base), files with
  | some f, _ => .ok f
  | none, [f] => .ok f
  | none, _ => .error ⟨base, files.map File.name⟩

end SchemaTypes.Descriptor
