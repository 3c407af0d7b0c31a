import SchemaTypes.Generate
import SchemaTypes.Descriptor.Flatten

/-!
# Exchange/Answer — requests and their responses

A compiler hands over descriptors, a parameter and the names of the files it wants generated.  The
response holds either one output per wanted name, in order, or the text of the first failure and no
output at all.
-/

namespace SchemaTypes.Exchange

/-- What a compiler asks for. -/
structure Request where
  wanted : List String := []
  parameter : String := ""
  files : List Descriptor.File := []

/-- A generated file. -/
structure Output where
  name : String
  content : String
  deriving DecidableEq

/-- What a compiler is told. -/
structure Response where
  /-- The text of the failure, if there was one. -/
  error : Option String := none
  /-- The language features that are understood, one bit each; the lowest is for optional fields. -/
  features : Nat := 1
  outputs : List Output := []
  deriving DecidableEq

/-- A result together with what was said on the way to it. -/
structure Spoken (α : Type) where
  said : String
  result : α

/-- One wanted file: its output is named first, then its text is generated. -/
def outputOf (dialectName : String) (options : Options) (registry : Schema.Registry)
    (name : String) : Spoken (Except Failure Output) :=
  match outputName name dialectName with
  | .error e => ⟨"", .error (.naming e)⟩
  | .ok outName =>
    ⟨warning dialectName options,
      match generate dialectName options registry name with
      | .error e => .error e
      | .ok content => .ok ⟨outName, content⟩⟩

/-- The wanted files from left to right, up to the first failure. -/
def outputsOf (dialectName : String) (options : Options) (registry : Schema.Registry) :
    List String → Spoken (Except Failure (List Output))
  | [] => ⟨"", .ok []⟩
  | name :: names =>
    match outputOf dialectName options registry name with
    | ⟨said, .error e⟩ => ⟨said, .error e⟩
    | ⟨said, .ok output⟩ =>
      match outputsOf dialectName options registry names with
      | ⟨more, .error e⟩ => ⟨said ++ more, .error e⟩
      | ⟨more, .ok outputs⟩ => ⟨said ++ more, .ok (output :: outputs)⟩

/-- All outputs that a request wants, or the first failure. -/
def outputs (dialectName : String) (r : Request) : Spoken (Except Failure (List Output)) :=
  match Options.parse r.parameter with
  | .error e => ⟨"", .error (.options e)⟩
  | .ok options => outputsOf dialectName options (Descriptor.registry r.files) r.wanted

/-- The response that tells of a result. -/
def Response.ofResult : Except Failure (List Output) → Response
  | .error e => { error := some e.message }
  | .ok outputs => { outputs := outputs }

/-- The response to a request, and what was said on the way. -/
def answer (dialectName : String) (r : Request) : Spoken Response :=
  let s := outputs dialectName r
  ⟨s.said, .ofResult s.result⟩

end SchemaTypes.Exchange
