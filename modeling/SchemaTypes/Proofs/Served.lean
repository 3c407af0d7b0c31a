import SchemaTypes.Proofs.Sent

/-!
# Proofs/Served — a request answered over the wire

A plugin reads a request as it is sent and writes the response.  `faithful_exchange` says that
nothing is lost on either way: what is written is read as the response to the request that was
meant, and a failure is told in a last line exactly when the response holds one.
-/

namespace SchemaTypes.Exchange

open Wire Wire.Part Descriptor

/-! ## Responses read back -/

def Output.parts (o : Output) : List Wire.Part := texts 1 [o.name] ++ texts 15 [o.content]

def Response.parts (r : Response) : List Wire.Part :=
  texts 1 r.error.toList ++ numbers 2 [r.features] ++ messages 15 (r.outputs.map Output.parts)

theorem Output.encode_eq (o : Output) : o.encode = encodeAll o.parts := by
  simp [Output.encode, Output.parts, encodeAll_append]

theorem Response.encode_eq (r : Response) : r.encode = encodeAll r.parts := by
  simp only [Response.encode, Response.parts, encodeAll_append, encodeAll_texts, encodeAll_numbers,
    encodeAll_messages, List.flatMap_map, Output.encode_eq]
  cases r.error <;> simp

theorem Output.depthAll_parts (o : Output) : depthAll o.parts = 0 := by
  rw [← Nat.le_zero, depthAll_le_iff]
  simp [Output.parts, texts, depth]

theorem Response.depthAll_parts (r : Response) : depthAll r.parts ≤ 1 := by
  rw [depthAll_le_iff]
  simp only [Response.parts, texts, numbers, messages, List.mem_append, List.mem_map]
  rintro p ((⟨s, -, rfl⟩ | ⟨v, -, rfl⟩) | ⟨ps, ⟨o, -, rfl⟩, rfl⟩) <;>
    simp [depth, Output.depthAll_parts]

theorem Output.reads (o : Output) : Reads Output.decode? o.parts o := by
  intro room deep small
  have known : Known [1, 15] o.parts :=
    .append (known_texts (by decide) _) (known_texts (by decide) _)
  have read := records?_encodeAll (fun p hp => (known p hp).1) deep small
  rw [Output.decode?, read]
  simp [Record.text, Record.text?, Record.texts, blocks_records, Output.parts]

/-- A response that is not too long is read back. -/
theorem Response.decode?_encode (r : Response) (features : r.features < 0x10000000000000000)
    (small : r.encode.length < 0x80000000) : Response.decode? r.encode = some r := by
  rw [encode_eq] at small ⊢
  have known : Known [1, 2, 15] r.parts :=
    .append (.append (known_texts (by decide) _)
      (known_numbers (by decide) (by simpa using features))) (known_messages (by decide) _)
  have deep : depthAll r.parts ≤ depthLimit := r.depthAll_parts.trans (by decide)
  have read := records?_encodeAll (fun p hp => (known p hp).1) deep small
  have outputs : inside? depthLimit Output.decode? (Record.blocks 15 (records r.parts))
      = some (r.outputs.map id) := by
    have blocks : Record.blocks 15 (records r.parts)
        = r.outputs.map fun o => encodeAll o.parts := by
      simp [blocks_records, Response.parts, Function.comp_def]
    rw [blocks]
    exact inside?_of_reads (fun o _ => o.reads)
      (fun o ho => List.mem_append_right _ (mem_messages ho)) deep small
  have error : Record.text? 1 (records r.parts) = r.error := by
    cases hr : r.error <;> simp [Record.text?, Record.texts, blocks_records, Response.parts, hr]
  have features : Record.varints 2 (records r.parts) = [r.features] := by
    simp [varints_records, Response.parts]
  rw [Response.decode?, read]
  simp [outputs, error, features]

/-! ## What is said -/

/-- A text ends with a line. -/
def EndsWithLine (text line : String) : Prop :=
  ∃ front, (front = "" ∨ ∃ lines, front = lines ++ "\n") ∧ text = front ++ line ++ "\n"

/-- The line that tells of a failure. -/
def failureLine (d : Dialect) (e : String) : String := "protoc-gen-" ++ d.name ++ "types: " ++ e

/-- What is said before a failure is told: whole lines, none of them with a dash. -/
structure Quiet (said : String) : Prop where
  lines : said = "" ∨ ∃ lines, said = lines ++ "\n"
  no_dash : '-' ∉ said.toList

namespace Quiet

theorem empty : Quiet "" := ⟨.inl rfl, by simp⟩

theorem append {said more : String} (h : Quiet said) (h' : Quiet more) : Quiet (said ++ more) where
  lines := by
    obtain rfl | ⟨lines, rfl⟩ := h'.lines
    · simpa using h.lines
    · exact .inr ⟨said ++ lines, (String.append_assoc ..).symm⟩
  no_dash := by
    rw [String.toList_append, List.mem_append, not_or]
    exact ⟨h.no_dash, h'.no_dash⟩

theorem not_endsWithLine {said : String} (h : Quiet said) (d : Dialect) (e : String) :
    ¬EndsWithLine said (failureLine d e) := by
  rintro ⟨front, -, rfl⟩
  have dash : '-' ∈ "protoc-gen-".toList := by decide
  apply h.no_dash
  simp only [failureLine, String.toList_append, List.mem_append]
  exact .inl (.inr (.inl (.inl (.inl dash))))

end Quiet

theorem quiet_warning (dialectName : String) (options : Options) :
    Quiet (warning dialectName options) := by
  have text : Quiet "Warning: embed_enums is not supported by the elm dialect; ignoring\n" :=
    ⟨.inr ⟨"Warning: embed_enums is not supported by the elm dialect; ignoring", rfl⟩, by decide⟩
  rw [warning]
  split
  · exact .empty
  · rename_i d _
    cases d with
    | elm =>
      rw [Dialect.warning]
      split
      · exact text
      · exact .empty
    | flow => exact .empty

theorem quiet_outputOf (dialectName : String) (options : Options) (registry : Schema.Registry)
    (name : String) : Quiet (outputOf dialectName options registry name).said := by
  rw [outputOf]
  split
  · exact .empty
  · exact quiet_warning dialectName options

theorem quiet_outputsOf (dialectName : String) (options : Options) (registry : Schema.Registry)
    (names : List String) : Quiet (outputsOf dialectName options registry names).said := by
  induction names with
  | nil => exact .empty
  | cons name names ih =>
    have first := quiet_outputOf dialectName options registry name
    rw [outputsOf]
    rcases hfirst : outputOf dialectName options registry name with ⟨said, e | output⟩
    · rwa [hfirst] at first
    · rw [hfirst] at first
      rcases hmore : outputsOf dialectName options registry names with ⟨more, e | outputs⟩
      · rw [hmore] at ih
        exact first.append ih
      · rw [hmore] at ih
        exact first.append ih

theorem quiet_answer (dialectName : String) (r : Request) : Quiet (answer dialectName r).said := by
  simp only [answer, outputs]
  split
  · exact .empty
  · exact quiet_outputsOf ..

/-! ## Requests answered -/

/-- What a plugin writes and says tells of a response: the bytes are read as the response, and the
failure in it is told in a last line.  There is such a line only for a failure. -/
structure Tells (d : Dialect) (s : Spoken (List UInt8)) (r : Response) : Prop where
  read : Response.decode? s.result = some r
  told : ∀ e, r.error = some e → EndsWithLine s.said (failureLine d e)
  only : (∃ e, EndsWithLine s.said (failureLine d e)) ↔ r.error.isSome

/-- A response that comes after quiet lines is told. -/
theorem Quiet.tells {s : Spoken Response} (quiet : Quiet s.said)
    (features : s.result.features < 0x10000000000000000)
    (small : s.result.encode.length < 0x80000000) (d : Dialect) :
    Tells d ⟨s.said ++ complaint d s.result, s.result.encode⟩ s.result := by
  have told (e : String) (he : s.result.error = some e) :
      EndsWithLine (s.said ++ complaint d s.result) (failureLine d e) := by
    refine ⟨s.said, quiet.lines, ?_⟩
    rw [complaint, he]
    simp only [failureLine, String.append_assoc]
  refine ⟨Response.decode?_encode _ features small, told, ?_⟩
  rw [Option.isSome_iff_exists]
  constructor
  · rintro ⟨e, he⟩
    cases herror : s.result.error with
    | none =>
      rw [complaint, herror, String.append_empty] at he
      exact absurd he (quiet.not_endsWithLine d e)
    | some e => exact ⟨e, rfl⟩
  · rintro ⟨e, he⟩
    exact ⟨e, told e he⟩

theorem features_answer (dialectName : String) (r : Request) :
    (answer dialectName r).result.features = 1 := by
  simp only [answer]
  cases (outputs dialectName r).result <;> rfl

theorem serve?_of_decode? (d : Dialect) {bytes : List UInt8} {r : Request}
    (h : Request.decode? bytes = some r)
    (small : (answer d.name r).result.encode.length < 0x80000000) :
    ∃ s, serve? d bytes = some s ∧ Tells d s (answer d.name r).result := by
  have features : (answer d.name r).result.features < 0x10000000000000000 := by
    rw [features_answer]
    decide
  have tells := (quiet_answer d.name r).tells features small d
  exact ⟨_, by rw [serve?, h], tells⟩

/-- **The exchange over the wire is faithful.**  A plugin answers every request as it is sent, not
too deep or too long, with bytes that are read as the response to what was meant.  No bytes at all
are the empty request. -/
theorem faithful_exchange (d : Dialect) (r : Sent.Request) (deep : depthAll r.parts ≤ 100)
    (small : r.encode.length < 0x80000000)
    (answered : (answer d.name r.value).result.encode.length < 0x80000000) :
    (∃ s, serve? d r.encode = some s ∧ Tells d s (answer d.name r.value).result) ∧
      ∃ s, serve? d [] = some s ∧ Tells d s (answer d.name {}).result := by
  constructor
  · exact serve?_of_decode? d (r.decode?_encode deep small) answered
  · refine serve?_of_decode? d ?_ ?_
    · exact Sent.Request.decode?_encode {} (Nat.zero_le _) (Nat.zero_lt_succ _)
    · cases d <;> cbv

/-! ### A note

A message with a field of its own type and options that nobody asks for: one of a known kind, and an
extension written as a group. -/

def noteOptions : List Wire.Part := [.varint 3 1, .group 1000 [.block 1 [0xFF]]]

theorem fits_noteOptions : Fits (Unread.options 12 []) noteOptions := by
  have valid : ∀ p ∈ noteOptions, p.Valid := by
    refine List.forall_mem_cons.mpr ⟨.varint (by decide) (by decide), ?_⟩
    exact List.forall_mem_singleton.mpr (.group (by decide) (by simpa using .block (by decide)))
  refine ⟨valid, ?_, ?_⟩
  · intro e he p hp hnumber
    have apart : ∀ e ∈ (Unread.options 12 []).parts, e.1 ∉ noteOptions.map Part.number := by decide
    exact absurd (hnumber ▸ List.mem_map_of_mem hp) (apart e he)
  · intro e he qs hqs
    simp [noteOptions] at hqs

/-- What is sent of the message beside its fields. -/
def noteRest : Sent.Rest Unread.message [1, 2, 3, 4] where
  parts := [.message 7 noteOptions]
  fits := by
    refine ⟨by simpa using .message (by decide), ?_, ?_⟩
    · intro e he p hp hnumber
      obtain rfl := List.mem_singleton.mp hp
      exact ⟨noteOptions, by rw [← hnumber]; rfl⟩
    · intro e he qs hqs
      obtain ⟨hnumber, rfl⟩ := message.inj (List.mem_singleton.mp hqs)
      simp only [Unread.message, Shape.parts, List.mem_cons, List.not_mem_nil, or_false] at he
      obtain rfl | rfl | rfl | rfl | rfl := he <;> simp at hnumber
      exact fits_noteOptions
  free := by simp [Part.number]

def noteRequest : Sent.Request where
  wanted := ["é.proto"]
  files := [{
    name := some "é.proto"
    messages := [{
      name := some "Note"
      fields := [{ name := some "next", type := some .message, typeName := some ".Note" }]
      more := noteRest }] }]

def noteResponse : Response where
  outputs := [⟨"é.js", "/* @flow */\nexport type Note = \x7b\n  next?: Note\n\x7d;\n\n"⟩]

theorem answer_note : (answer Dialect.flow.name noteRequest.value).result = noteResponse := rfl

theorem faithful_exchange_note :
    ∃ s, serve? .flow noteRequest.encode = some s ∧ Tells .flow s noteResponse := by
  have small : noteRequest.encode.length < 0x80000000 := by cbv
  have answered : noteResponse.encode.length < 0x80000000 := by cbv
  rw [← answer_note] at answered ⊢
  exact (faithful_exchange .flow noteRequest (by cbv) small answered).1

end SchemaTypes.Exchange
