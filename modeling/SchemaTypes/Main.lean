import SchemaTypes.Command.Run
import SchemaTypes.Exchange.Serve

/-!
# Main — the programs

`main` is the command line and `Program.plugin` a compiler plugin.  Both read what they need, hand
it to the library and carry out what comes back; they decide nothing.  The command line sees the
working directory and starts no other program, so here there is no compiler to be found.
-/

namespace SchemaTypes.Program

/-- An entry of a directory with all that lies below it; the texts of files are left unread. -/
partial def entry (e : IO.FS.DirEntry) : IO (String × Command.Tree) := do
  if ← e.path.isDir then
    let entries ← (← e.path.readDir).toList.mapM entry
    return (e.fileName, .directory entries)
  else
    return (e.fileName, .file "")

/-- The disk below the working directory. -/
def disk : IO Command.Disk := do
  let here ← IO.currentDir
  let entries ← (← here.readDir).toList.mapM entry
  let cwd := (Path.parse here.toString).parts
  return ⟨(Command.Tree.directory []).set cwd (.directory entries), cwd⟩

/-- Writes the files that a run has changed. -/
def save (before after : Command.Disk) : IO Unit := do
  for (path, text) in before.changes after do
    IO.FS.createDirAll (Path.parse path).parent.text
    IO.FS.writeFile path text

/-- Carries out an outcome and gives its exit status. -/
def conclude (before : Command.Disk) (o : Command.Outcome) : IO UInt32 := do
  save before o.disk
  IO.print o.printed
  IO.eprint o.said
  match o.ending with
  | .exit status => return status.toUInt32
  | .malformed =>
    IO.eprintln "Error parsing message"
    return 1
  | .disk e =>
    IO.eprintln e.message
    return 1
  | .valueless s =>
    IO.eprintln ("argument " ++ s.label ++ ": no value")
    return 1

/-- All bytes of a stream, after those already read. -/
partial def readAll (input : IO.FS.Stream) (read : ByteArray) : IO ByteArray := do
  let more ← input.read 65536
  if more.isEmpty then return read else readAll input (read ++ more)

/-- A compiler plugin: one request on standard input, one response on standard output. -/
def plugin (d : Dialect) : IO UInt32 := do
  let request ← readAll (← IO.getStdin) .empty
  match Exchange.serve? d request.toList with
  | none =>
    IO.eprintln "Error parsing message"
    return 1
  | some s =>
    IO.eprint s.said
    (← IO.getStdout).write s.result.toByteArray
    return 0

end SchemaTypes.Program

/-- The command line. -/
def main (words : List String) : IO UInt32 := do
  let before ← SchemaTypes.Program.disk
  SchemaTypes.Program.conclude before (SchemaTypes.Command.execute none before words)
