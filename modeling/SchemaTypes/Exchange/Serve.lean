import SchemaTypes.Descriptor.Wire
import SchemaTypes.Exchange.Answer

/-!
# Exchange/Serve — the exchange as bytes

A plugin reads one serialized request and writes one serialized response.  No bytes at all are the
empty request.  When the response tells of a failure, so does a last line of what the plugin says.
-/

namespace SchemaTypes.Exchange

open SchemaTypes.Wire

/-- What is not kept of a request: the version of the compiler. -/
def unread : Shape := ⟨[(3, .plain)]⟩

/-- The request in the bytes.  The files as they stand in the source are read and left. -/
def Request.decode? (bytes : List UInt8) : Option Request := do
  let rs ← unread.records? Descriptor.depthLimit bytes
  let files ← inside? Descriptor.depthLimit Descriptor.File.decode? (Record.blocks 15 rs)
  let _ ← inside? Descriptor.depthLimit Descriptor.File.decode? (Record.blocks 17 rs)
  return { wanted := Record.texts 1 rs, parameter := Record.text 2 rs, files := files }

/-- The bytes of an output. -/
def Output.encode (o : Output) : List UInt8 := encodeText 1 o.name ++ encodeText 15 o.content

/-- The output in a block. -/
def Output.decode? (room : Nat) (bytes : List UInt8) : Option Output := do
  let rs ← records? room bytes
  return { name := Record.text 1 rs, content := Record.text 15 rs }

/-- The bytes of a response; an error is written only when there is one. -/
def Response.encode (r : Response) : List UInt8 :=
  (r.error.map (encodeText 1)).getD [] ++ encodeVarint 2 r.features ++
    r.outputs.flatMap fun o => encodeBlock 15 o.encode

/-- The response in the bytes. -/
def Response.decode? (bytes : List UInt8) : Option Response := do
  let rs ← records? Descriptor.depthLimit bytes
  let outputs ← inside? Descriptor.depthLimit Output.decode? (Record.blocks 15 rs)
  return { error := Record.text? 1 rs, features := (Record.varints 2 rs).getLast?.getD 0,
           outputs := outputs }

/-- The last line of what a plugin says, when its response tells of a failure. -/
def complaint (d : Dialect) (r : Response) : String :=
  match r.error with
  | none => ""
  | some e => "protoc-gen-" ++ d.name ++ "types: " ++ e ++ "\n"

/-- What a plugin writes for the bytes it reads, and what it says; nothing for malformed bytes. -/
def serve? (d : Dialect) (bytes : List UInt8) : Option (Spoken (List UInt8)) :=
  match Request.decode? bytes with
  | none => none
  | some request =>
    let s := answer d.name request
    some ⟨s.said ++ complaint d s.result, s.result.encode⟩

end SchemaTypes.Exchange
