import SchemaTypes.Path
import SchemaTypes.Table
import SchemaTypes.Text.Quoted

/-!
# Command/Disk — directories, files and the paths to them

A disk is a tree of directories and files with a working directory in it.  A path is followed piece
by piece from the root or the working directory: every piece but the last must lead to a directory,
a double dot leads one directory up, and an empty piece or a single dot stays where it is.
-/

namespace SchemaTypes.Command

/-- A file with its text, or a directory with its entries. -/
inductive Tree where
  | file (text : String)
  | directory (entries : List (String × Tree))
  deriving Inhabited

namespace Tree

/-- The entries of a directory; a file has none. -/
def entries : Tree → List (String × Tree)
  | .file _ => []
  | .directory es => es

/-- Whether the tree is a directory. -/
def isDirectory : Tree → Bool
  | .file _ => false
  | .directory _ => true

/-- What stands at a place below the tree. -/
def get? : Tree → List String → Option Tree
  | t, [] => some t
  | t, name :: names =>
    match Table.find? name t.entries with
    | none => none
    | some below => below.get? names

/-- The tree with something put at a place, and directories on the way there. -/
def set : Tree → List String → Tree → Tree
  | _, [], new => new
  | t, name :: names, new =>
    let below := (Table.find? name t.entries).getD (.directory [])
    .directory (Table.put name (below.set names new) t.entries)

mutual

/-- All that lies below the tree, each by its place. -/
def descendants : Tree → List (List String × Tree)
  | .file _ => []
  | .directory es => descendantsOf es

/-- The entries of a directory and all that lies below them. -/
def descendantsOf : List (String × Tree) → List (List String × Tree)
  | [] => []
  | (name, t) :: es =>
    ([name], t) :: t.descendants.map (fun p => (name :: p.1, p.2)) ++ descendantsOf es

end

/-- The files below the tree with their texts, by path. -/
def files (t : Tree) : List (String × String) :=
  t.descendants.filterMap fun
    | (place, .file text) => some ("/".intercalate place, text)
    | (_, .directory _) => none

@[simp] theorem get?_nil (t : Tree) : t.get? [] = some t := by cases t <;> rfl

end Tree

/-- Why a path cannot be followed or used. -/
inductive Fault where
  | notFound
  | exists
  | notDirectory
  | isDirectory
  deriving DecidableEq

/-- The number of a fault. -/
def Fault.number : Fault → Nat
  | .notFound => 2
  | .exists => 17
  | .notDirectory => 20
  | .isDirectory => 21

/-- The wording of a fault. -/
def Fault.text : Fault → String
  | .notFound => "No such file or directory"
  | .exists => "File exists"
  | .notDirectory => "Not a directory"
  | .isDirectory => "Is a directory"

/-- A fault and the path it was met on. -/
structure DiskError where
  fault : Fault
  path : String
  deriving DecidableEq

/-- The wording of an error. -/
def DiskError.message (e : DiskError) : String :=
  "[Errno " ++ toString e.fault.number ++ "] " ++ e.fault.text ++ ": " ++ Text.quoted e.path

/-- A tree, and the place of the working directory in it. -/
structure Disk where
  root : Tree
  cwd : List String

namespace Disk

/-- The working directory as a path. -/
def cwdPath (d : Disk) : Path := ⟨.single, d.cwd⟩

/-- The place that pieces lead to, from a place. -/
def walk (root : Tree) : List String → List String → Except Fault (List String)
  | place, [] => .ok place
  | place, piece :: pieces =>
    match root.get? place with
    | none => .error .notFound
    | some (.file _) => .error .notDirectory
    | some (.directory _) =>
      if piece = "" ∨ piece = "." then walk root place pieces
      else if piece = ".." then walk root place.dropLast pieces
      else if (root.get? (place ++ [piece])).isSome then walk root (place ++ [piece]) pieces
      else .error .notFound

/-- Where a path starts. -/
def start (d : Disk) (path : String) : List String :=
  if path.toList.head? = some '/' then [] else d.cwd

/-- The place of an existing file or directory.  The empty path leads nowhere. -/
def locate (d : Disk) (path : String) : Except Fault (List String) :=
  if path = "" then .error .notFound else walk d.root (d.start path) (Path.pieces path)

/-- What a path leads to. -/
def get? (d : Disk) (path : String) : Option Tree :=
  match d.locate path with
  | .ok place => d.root.get? place
  | .error _ => none

/-- Whether a path leads to a file or directory. -/
def contains (d : Disk) (path : String) : Bool := (d.get? path).isSome

/-- Whether a path leads to a directory. -/
def isDirectory (d : Disk) (path : String) : Bool := ((d.get? path).map Tree.isDirectory).getD false

/-- The place for a new entry under a path without the slashes at its end, and whether something
stands there already. -/
def place (d : Disk) (path : String) : Except Fault (List String × Option Tree) :=
  match (Path.pieces path).reverse.dropWhile (· == "") with
  | [] => if path = "" then .error .notFound else .ok ([], some d.root)
  | name :: above =>
    match walk d.root (d.start path) above.reverse with
    | .error e => .error e
    | .ok parent =>
      match d.root.get? parent with
      | none => .error .notFound
      | some (.file _) => .error .notDirectory
      | some (.directory es) =>
        if name = "." ∨ name = ".." then .ok (parent, some (.directory es))
        else .ok (parent ++ [name], d.root.get? (parent ++ [name]))

/-- The disk with something put at a place. -/
def put (d : Disk) (place : List String) (t : Tree) : Disk := { d with root := d.root.set place t }

/-- The disk with a new directory. -/
def makeDirectory (d : Disk) (path : String) : Except DiskError Disk :=
  match d.place path with
  | .error e => .error ⟨e, path⟩
  | .ok (_, some _) => .error ⟨.exists, path⟩
  | .ok (place, none) => .ok (d.put place (.directory []))

/-- The disk with a directory, new or not; on an error, as it was. -/
def ensureDirectory (d : Disk) (path : String) : Disk × Option DiskError :=
  match d.makeDirectory path with
  | .ok made => (made, none)
  | .error e => (d, if d.isDirectory path then none else some e)

/-- The disk with a directory and all directories above it; on an error, with those made so far.
The pieces of the path are given from the last one up.  What is missing above is made first, and it
is no error there if something other than a directory stands in its place. -/
def ensureAbove (d : Disk) (path : String) : List String → Disk × Option DiskError
  | [] => d.ensureDirectory path
  | name :: above =>
    if above.dropWhile (· == "") = [] then d.ensureDirectory path
    else
      let head := "/".intercalate (above.dropWhile (· == "")).reverse
      if d.contains head then d.ensureDirectory path
      else
        match ensureAbove d head (above.dropWhile (· == "")) with
        | (d, none) | (d, some ⟨.exists, _⟩) =>
          if name = "." then (d, none) else d.ensureDirectory path
        | (d, some e) => (d, some e)
termination_by names => names.length
decreasing_by exact Nat.lt_succ_of_le (List.dropWhile_sublist _).length_le

/-- The disk with a directory and all directories above it; on an error, with those made so far. -/
def ensureDirectories (d : Disk) (path : String) : Disk × Option DiskError :=
  d.ensureAbove path ((Path.pieces path).reverse.dropWhile (· == ""))

/-- The disk with a file written, new or in place of the old one. -/
def write (d : Disk) (path text : String) : Except DiskError Disk :=
  match d.place path with
  | .error e => .error ⟨e, path⟩
  | .ok (_, some (.directory _)) => .error ⟨.isDirectory, path⟩
  | .ok (place, _) => .ok (d.put place (.file text))

/-- The files below the working directory, by path. -/
def files (d : Disk) : List (String × String) := ((d.root.get? d.cwd).map Tree.files).getD []

/-- The files below the working directory that are new or changed since an earlier disk, in code
point order of their paths. -/
def changes (before after : Disk) : List (String × String) :=
  (Text.sorted (after.files.map Prod.fst)).filterMap fun path =>
    match Table.find? path after.files with
    | none => none
    | some text => if Table.find? path before.files = some text then none else some (path, text)

/-- The paths of all entries below a directory whose names have an ending, as they are found. -/
def pathsEnding (d : Disk) (ending directory : String) : List String :=
  let found := (((d.get? directory).map Tree.descendants).getD []).filter fun e =>
    ending.toList.isSuffixOf (e.1.getLast?.getD "").toList
  let base := Path.parse directory
  found.map fun e => Path.text { base with parts := base.parts ++ e.1 }

/-- The paths of all entries below a directory whose names have an ending, in code point order. -/
def entriesEnding (d : Disk) (ending directory : String) : List String :=
  Text.sorted (d.pathsEnding ending directory)

end Disk

end SchemaTypes.Command
