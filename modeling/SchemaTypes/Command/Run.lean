import SchemaTypes.Command.Arguments
import SchemaTypes.Command.Disk
import SchemaTypes.Descriptor.Flatten
import SchemaTypes.Descriptor.Target
import SchemaTypes.Descriptor.Wire
import SchemaTypes.Generate

/-!
# Command/Run — from a command line to files

A run compiles one schema file, or all that lie below a directory, and writes one file of
declarations for each.  The inputs are taken in order and the first failure ends the run: what was
written before stays, and nothing is reported as generated.  A setting without a value ends the run
only where its value is needed.

The compiler is a parameter.  It is told where to search for imports: first in the directory of the
input itself, then in the directories of the command line, each named once.
-/

namespace SchemaTypes.Command

/-- A call of the compiler. -/
structure Invocation where
  searched : List String
  input : String
  deriving DecidableEq

/-- The words of a call that leaves the descriptors in a file. -/
def Invocation.words (i : Invocation) (descriptorPath : String) : List String :=
  ["protoc", "--include_imports", "--descriptor_set_out=" ++ descriptorPath] ++
    i.searched.flatMap (["-I", ·]) ++ [i.input]

/-- What the compiler answers: the bytes of a descriptor set, or the bytes of a complaint. -/
inductive Reply where
  | compiled (bytes : List UInt8)
  | refused (complaint : List UInt8)

/-- The compiler, if there is one. -/
abbrev Compiler := Option (Invocation → Reply)

/-- A failure that a run reports. -/
inductive Fatal where
  | noCompiler
  | refused (complaint : String)
  | noTarget (e : Descriptor.NoTarget)
  | failed (e : Failure)

/-- The wording of a reported failure. -/
def Fatal.message : Fatal → String
  | .noCompiler =>
    "'protoc' not found. Please install Protocol Buffers compiler and ensure it is in PATH."
  | .refused complaint => "protoc failed: " ++ complaint
  | .noTarget e => e.message
  | .failed e => e.message

/-- What ends a run before its last input. -/
inductive Halt where
  | fatal (f : Fatal)
  | malformed
  | disk (e : DiskError)
  | valueless (s : Setting)

/-- What all inputs of a run share. -/
structure Job where
  output : Option String
  dialect : Option Dialect
  options : Options
  searched : List String
  compiler : Compiler

/-- How far a run has come. -/
structure Progress where
  disk : Disk
  calls : List Invocation := []
  said : String := ""
  generated : List String := []

/-- The path of the file written for an input. -/
def outputPath (directory : String) (dialect : Dialect) (input : String) : String :=
  Path.inDirectory directory ((Path.parse input).stem ++ dialect.suffix)

/-- The disk with a text written to a path in a directory; on an error, with the directories made
so far. -/
def Disk.writeIn (disk : Disk) (directory path text : String) : Disk × Option DiskError :=
  match disk.ensureDirectories directory with
  | (disk, some e) => (disk, some e)
  | (disk, none) =>
    match disk.write (Path.parse path).text text with
    | .error e => (disk, some e)
    | .ok written => (written, none)

/-- The progress after the text for an input is written to a directory. -/
def Progress.write (p : Progress) (directory : String) (dialect : Dialect) (input text : String) :
    Progress × Option Halt :=
  match p.disk.writeIn directory (outputPath directory dialect input) text with
  | (disk, some e) => ({ p with disk := disk }, some (.disk e))
  | (disk, none) =>
    ({ p with disk := disk, generated := p.generated ++ [outputPath directory dialect input] },
      none)

namespace Job

/-- The directories to search for imports of an input: its own first, each once, none empty. -/
def searchPath (cwd : Path) (searched : List String) (input : String) : List String :=
  (((Path.absolute cwd (Path.parse input)).parent.text :: searched).filter (· != "")).eraseDups

/-- The call of the compiler for an input. -/
def call (job : Job) (disk : Disk) (input : String) : Invocation :=
  ⟨searchPath disk.cwdPath job.searched input, input⟩

/-- The descriptors that a call gives. -/
def compile (job : Job) (call : Invocation) : Except Halt (List Descriptor.File) :=
  match job.compiler with
  | none => .error (.fatal .noCompiler)
  | some reply =>
    match reply call with
    | .refused complaint => .error (.fatal (.refused (Text.Utf8.decode complaint)))
    | .compiled bytes =>
      match Descriptor.decodeSet? bytes with
      | none => .error .malformed
      | some files => .ok files

/-- The descriptors of an input written as declarations: its target is located, generated and
written. -/
def produce (job : Job) (p : Progress) (input : String) (files : List Descriptor.File) :
    Progress × Option Halt :=
  match Descriptor.target files input, job.dialect with
  | .error e, _ => (p, some (.fatal (.noTarget e)))
  | .ok _, none => (p, some (.valueless .dialect))
  | .ok target, some dialect =>
    let p := { p with said := p.said ++ dialect.warning job.options }
    match dialect.generate job.options (Descriptor.registry files) target.name, job.output with
    | .error e, _ => (p, some (.fatal (.failed e)))
    | .ok _, none => (p, some (.valueless .output))
    | .ok text, some directory => p.write directory dialect input text

/-- One input: the compiler is called, and its descriptors are written as declarations. -/
def step (job : Job) (p : Progress) (input : String) : Progress × Option Halt :=
  let p := { p with calls := p.calls ++ [job.call p.disk input] }
  match job.compile (job.call p.disk input) with
  | .error h => (p, some h)
  | .ok files => job.produce p input files

/-- The inputs in order, up to the first that ends the run. -/
def steps (job : Job) : Progress → List String → Progress × Option Halt
  | p, [] => (p, none)
  | p, input :: inputs =>
    match job.step p input with
    | (p, none) => steps job p inputs
    | (p, some h) => (p, some h)

end Job

/-! ## Whole runs -/

/-- How a run ends: with a status, or with an error that nobody handles. -/
inductive Ending where
  | exit (status : Nat)
  | malformed
  | disk (e : DiskError)
  | valueless (s : Setting)

/-- All that a run does. -/
structure Outcome where
  ending : Ending
  printed : String := ""
  said : String := ""
  calls : List Invocation := []
  disk : Disk

/-- The outcome of a run that has come this far. -/
def Outcome.ofProgress : Progress × Option Halt → Outcome
  | (p, none) =>
    { ending := .exit 0, printed := String.join (p.generated.map ("Generated: " ++ · ++ "\n")),
      said := p.said, calls := p.calls, disk := p.disk }
  | (p, some (.fatal f)) =>
    { ending := .exit 1, said := p.said ++ "FATAL: " ++ f.message ++ "\n", calls := p.calls,
      disk := p.disk }
  | (p, some .malformed) =>
    { ending := .malformed, said := p.said, calls := p.calls, disk := p.disk }
  | (p, some (.disk e)) =>
    { ending := .disk e, said := p.said, calls := p.calls, disk := p.disk }
  | (p, some (.valueless s)) =>
    { ending := .valueless s, said := p.said, calls := p.calls, disk := p.disk }

/-- The job of settings that searches further directories first. -/
def Settings.job (s : Settings) (first : List String) (compiler : Compiler) : Job :=
  ⟨s.output, s.dialect, s.options, first ++ s.searched, compiler⟩

/-- A run over a schema file or a directory.  The schema files below a directory may import each
other by their paths in it. -/
def Settings.run (s : Settings) (compiler : Compiler) (disk : Disk) (schema : String) : Outcome :=
  if disk.isDirectory schema then
    match disk.entriesEnding ".proto" schema with
    | [] =>
      { ending := .exit 0, printed := "No .proto files found under directory: " ++ schema ++ "\n",
        disk := disk }
    | inputs => .ofProgress ((s.job [schema] compiler).steps { disk := disk } inputs)
  else .ofProgress ((s.job [] compiler).steps { disk := disk } [schema])

/-- A run with settings. -/
def run (compiler : Compiler) (disk : Disk) (s : Settings) : Outcome :=
  match s.schema with
  | none => { ending := .valueless .schema, disk := disk }
  | some schema => s.run compiler disk schema

/-- The help text. -/
def helpText : String :=
  "\n".intercalate [
    "usage: protoc-typegen [-h] --proto PROTO --out OUT [--dialect \x7belm,flow\x7d]",
    "                      [-I INCLUDE] [--always-qualify-type-names]",
    "                      [--embed-enums]",
    "",
    "Generate Elm or Flow type declarations from .proto files",
    "",
    "options:",
    "  -h, --help            show this help message and exit",
    "  --proto PROTO         Path to a .proto file or a directory containing .proto",
    "                        files (recursively)",
    "  --out OUT             Output directory for generated file(s)",
    "  --dialect \x7belm,flow\x7d  Output dialect (default: flow)",
    "  -I INCLUDE, --include INCLUDE",
    "                        Additional protoc include path (repeatable)",
    "  --always-qualify-type-names",
    "                        Keep the package prefix on every generated type name",
    "  --embed-enums         Inline enum alternatives at each use site (flow only)",
    ""]

/-- What a command line does. -/
def execute (compiler : Compiler) (disk : Disk) (words : List String) : Outcome :=
  match Settings.ofWords words with
  | .ok s => run compiler disk s
  | .error .help => { ending := .exit 0, printed := helpText, disk := disk }
  | .error (.usage e) =>
    { ending := .exit 2, said := "protoc-typegen: error: " ++ e.message ++ "\n", disk := disk }

end SchemaTypes.Command
