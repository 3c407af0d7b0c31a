/-!
# Path — slash-separated paths

A path is a root and the parts below it.  Empty parts and single dots vanish when a path is read;
double dots stay, since only the file system knows where they lead.  Exactly two leading slashes are
a root of their own, any other positive number is the plain root.

The last part has a suffix when it holds a dot that is neither its first nor its last character;
`withSuffix?` puts another one in its place, and there is none to put it on a path without parts.
-/

namespace SchemaTypes

/-- Where a path starts. -/
inductive Path.Root where
  | relative
  | single
  | double
  deriving DecidableEq

/-- A path: its root and the parts below it. -/
structure Path where
  root : Path.Root
  parts : List String
  deriving DecidableEq

namespace Path

/-- The slashes a root is written as. -/
def Root.text : Root → String
  | .relative => ""
  | .single => "/"
  | .double => "//"

/-- The root that a text starts with. -/
def Root.ofChars : List Char → Root
  | '/' :: '/' :: '/' :: _ => .single
  | '/' :: '/' :: _ => .double
  | '/' :: _ => .single
  | _ => .relative

/-- The pieces of a text between its slashes, empty ones included. -/
def pieces (s : String) : List String := (s.toList.splitOn '/').map String.ofList

/-- The path a text stands for. -/
def parse (s : String) : Path where
  root := Root.ofChars s.toList
  parts := (pieces s).filter fun p => p != "" && p != "."

/-- The text of a path; the empty path is a single dot. -/
def text (p : Path) : String :=
  if p.root = .relative ∧ p.parts = [] then "." else p.root.text ++ "/".intercalate p.parts

/-- The last part. -/
def name? (p : Path) : Option String := p.parts.getLast?

/-- The path without its last part. -/
def parent (p : Path) : Path := { p with parts := p.parts.dropLast }

/-- A path one part further down. -/
def child (p : Path) (name : String) : Path := { p with parts := p.parts ++ [name] }

/-! ## Stem and suffix -/

/-- A last part, cut in front of its suffix. -/
def cutSuffix (name : List Char) : List Char × List Char :=
  match name.reverse.takeWhile (· != '.'), name.reverse.dropWhile (· != '.') with
  | c :: ending, dot :: b :: before => ((b :: before).reverse, dot :: (c :: ending).reverse)
  | _, _ => (name, [])

/-- A last part without its suffix. -/
def stemOf (name : String) : String := String.ofList (cutSuffix name.toList).1

/-- The last part without its suffix; empty for a path without parts. -/
def stem (p : Path) : String := stemOf (p.name?.getD "")

/-- The path with the suffix of its last part replaced. -/
def withSuffix? (p : Path) (suffix : String) : Option Path :=
  p.name?.map fun name => p.parent.child (stemOf name ++ suffix)

/-! ## Absolute paths -/

/-- The parts left when each double dot takes the part before it away. -/
def climb (parts : List String) : List String :=
  parts.foldl (fun above p => if p = ".." then above.dropLast else above ++ [p]) []

/-- The absolute form of a path, seen from a working directory, without double dots. -/
def absolute (cwd p : Path) : Path :=
  if p.root = .relative then ⟨cwd.root, climb (cwd.parts ++ p.parts)⟩
  else ⟨p.root, climb p.parts⟩

/-! ## Path texts, taken as they are written -/

/-- The text after the last slash. -/
def baseName (s : String) : String := (pieces s).getLast?.getD ""

/-- The text of a file in a directory. -/
def inDirectory (directory file : String) : String :=
  if directory.toList.getLast? = some '/' ∨ directory = "" then directory ++ file
  else directory ++ "/" ++ file

@[simp] theorem parts_child (p : Path) (name : String) : (p.child name).parts = p.parts ++ [name] :=
  rfl

@[simp] theorem name?_child (p : Path) (name : String) : (p.child name).name? = some name := by
  simp [name?]

@[simp] theorem parent_child (p : Path) (name : String) : (p.child name).parent = p := by
  simp [parent, child]

/-- A cut name is the name. -/
theorem cutSuffix_append (name : List Char) : (cutSuffix name).1 ++ (cutSuffix name).2 = name := by
  have joined : name.reverse.takeWhile (· != '.') ++ name.reverse.dropWhile (· != '.')
      = name.reverse := List.takeWhile_append_dropWhile
  unfold cutSuffix
  split
  · rename_i ending before
    rw [ending, before] at joined
    simpa using congrArg List.reverse joined
  · simp

end Path

end SchemaTypes
