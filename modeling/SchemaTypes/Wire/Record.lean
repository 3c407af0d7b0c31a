import SchemaTypes.Text.Utf8
import SchemaTypes.Wire.Varint

/-!
# Wire/Record — a message as a list of numbered records

A serialized message is a sequence of records, each a tag and a payload.  The tag holds the field
number and says how the payload is delimited.  `records?` reads them all, whatever the numbers mean;
the records of a group are read for their form and left out, so a group counts for nothing but its
depth.

Fields are then looked up by number and payload form: a record of another form is none of the
field's.
-/

namespace SchemaTypes.Wire

/-- What a record carries. -/
inductive Payload where
  | varint (n : Nat)
  | fixed64 (bytes : List UInt8)
  | block (bytes : List UInt8)
  | fixed32 (bytes : List UInt8)
  deriving DecidableEq

/-- A numbered payload. -/
structure Record where
  number : Nat
  payload : Payload
  deriving DecidableEq

/-! ## Reading -/

/-- The first `n` bytes and those after them. -/
def take? (n : Nat) (bytes : List UInt8) : Option (List UInt8 × List UInt8) :=
  if n ≤ bytes.length then some (bytes.take n, bytes.drop n) else none

/-- The field number and the payload form of the tag at the head of the bytes.  A tag has at most
five bytes and 32 bits, and no field has the number zero. -/
def tag? (bytes : List UInt8) : Option ((Nat × Nat) × List UInt8) :=
  match Varint.decode? 5 bytes with
  | none => none
  | some (tag, rest) =>
    if tag < 0x100000000 ∧ 8 ≤ tag then some ((tag / 8, tag % 8), rest) else none

/-- A number of at most ten bytes, of which the low 64 bits count. -/
def word? (bytes : List UInt8) : Option (Nat × List UInt8) :=
  match Varint.decode? 10 bytes with
  | none => none
  | some (n, rest) => some (n % 0x10000000000000000, rest)

/-- The length of a block: a number of at most five bytes and 31 bits. -/
def blockLength? (bytes : List UInt8) : Option (Nat × List UInt8) :=
  match Varint.decode? 5 bytes with
  | none => none
  | some (n, rest) => if n < 0x80000000 then some (n, rest) else none

/-- The payload of a form, and what follows it. -/
def payload? (form : Nat) (bytes : List UInt8) : Option (Payload × List UInt8) :=
  match form with
  | 0 => (word? bytes).map fun (n, rest) => (.varint n, rest)
  | 1 => (take? 8 bytes).map fun (b, rest) => (.fixed64 b, rest)
  | 2 =>
    match blockLength? bytes with
    | none => none
    | some (n, rest) => (take? n rest).map fun (b, rest) => (.block b, rest)
  | 5 => (take? 4 bytes).map fun (b, rest) => (.fixed32 b, rest)
  | _ => none

theorem length_take? {n : Nat} {bytes taken rest : List UInt8}
    (h : take? n bytes = some (taken, rest)) : rest.length ≤ bytes.length := by
  unfold take? at h
  split at h
  · simp only [Option.some.injEq, Prod.mk.injEq] at h
    simp [← h.2]
  · simp at h

theorem length_word? {n : Nat} {bytes rest : List UInt8} (h : word? bytes = some (n, rest)) :
    rest.length < bytes.length := by
  unfold word? at h
  split at h
  · simp at h
  · rename_i inner
    simp only [Option.some.injEq, Prod.mk.injEq] at h
    exact h.2 ▸ Varint.length_decode? inner

theorem length_blockLength? {n : Nat} {bytes rest : List UInt8}
    (h : blockLength? bytes = some (n, rest)) : rest.length < bytes.length := by
  unfold blockLength? at h
  split at h
  · simp at h
  · rename_i inner
    split at h
    · simp only [Option.some.injEq, Prod.mk.injEq] at h
      exact h.2 ▸ Varint.length_decode? inner
    · simp at h

theorem length_tag? {t : Nat × Nat} {bytes rest : List UInt8} (h : tag? bytes = some (t, rest)) :
    rest.length < bytes.length := by
  unfold tag? at h
  split at h
  · simp at h
  · rename_i inner
    split at h
    · simp only [Option.some.injEq, Prod.mk.injEq] at h
      exact h.2 ▸ Varint.length_decode? inner
    · simp at h

theorem length_payload? {form : Nat} {p : Payload} {bytes rest : List UInt8}
    (h : payload? form bytes = some (p, rest)) : rest.length ≤ bytes.length := by
  unfold payload? at h
  split at h
  · obtain ⟨⟨n, r⟩, hr, hp⟩ := Option.map_eq_some_iff.1 h
    have := length_word? hr
    simp only [Prod.mk.injEq] at hp
    rw [← hp.2]
    omega
  · obtain ⟨⟨b, r⟩, hr, hp⟩ := Option.map_eq_some_iff.1 h
    simp only [Prod.mk.injEq] at hp
    exact hp.2 ▸ length_take? hr
  · split at h
    · simp at h
    · rename_i n after hn
      obtain ⟨⟨b, r⟩, hr, hp⟩ := Option.map_eq_some_iff.1 h
      have shorter := length_blockLength? hn
      have rest_le := length_take? hr
      simp only [Prod.mk.injEq] at hp
      rw [← hp.2]
      omega
  · obtain ⟨⟨b, r⟩, hr, hp⟩ := Option.map_eq_some_iff.1 h
    simp only [Prod.mk.injEq] at hp
    exact hp.2 ▸ length_take? hr
  · simp at h

/-- The records of the bytes inside the groups `outer`, the innermost first.  At most `room` groups
may be open at once, each ends under its own number, and none is open at the end. -/
def recordsWithin? (room : Nat) (outer : List Nat) (bytes : List UInt8) : Option (List Record) :=
  if bytes = [] then if outer = [] then some [] else none
  else
    match ht : tag? bytes with
    | none => none
    | some ((number, 3), rest) =>
      have := length_tag? ht
      if outer.length < room then recordsWithin? room (number :: outer) rest else none
    | some ((number, 4), rest) =>
      have := length_tag? ht
      match outer with
      | [] => none
      | group :: outer => if group = number then recordsWithin? room outer rest else none
    | some ((number, form), rest) =>
      have := length_tag? ht
      match hp : payload? form rest with
      | none => none
      | some (payload, after) =>
        have := length_payload? hp
        match recordsWithin? room outer after with
        | none => none
        | some records => some (if outer = [] then ⟨number, payload⟩ :: records else records)
termination_by bytes.length
decreasing_by all_goals omega

/-- The records of a message that may hold `room` further levels of messages or groups. -/
def records? (room : Nat) (bytes : List UInt8) : Option (List Record) :=
  recordsWithin? room [] bytes

/-! ## Fields by number -/

namespace Record

/-- The bytes of all blocks of a number. -/
def blocks (number : Nat) (rs : List Record) : List (List UInt8) :=
  rs.filterMap fun
    | ⟨n, .block bytes⟩ => if n = number then some bytes else none
    | _ => none

/-- All varints of a number. -/
def varints (number : Nat) (rs : List Record) : List Nat :=
  rs.filterMap fun
    | ⟨n, .varint v⟩ => if n = number then some v else none
    | _ => none

/-- All texts of a number. -/
def texts (number : Nat) (rs : List Record) : List String := (blocks number rs).map Text.Utf8.decode

/-- The last text of a number. -/
def text? (number : Nat) (rs : List Record) : Option String := (texts number rs).getLast?

/-- The last text of a number; empty when there is none. -/
def text (number : Nat) (rs : List Record) : String := (text? number rs).getD ""

/-- The last varint of a number that has a meaning once it is cut to 32 bits. -/
def choice? {α : Type} (number : Nat) (meaning? : Nat → Option α) (rs : List Record) : Option α :=
  ((varints number rs).filterMap fun v => meaning? (v % 0x100000000)).getLast?

end Record

/-- The messages in blocks, each one level further down; there is no level below the last. -/
def inside? {α : Type} (room : Nat) (decode? : Nat → List UInt8 → Option α)
    (blocks : List (List UInt8)) : Option (List α) :=
  match room, blocks with
  | _, [] => some []
  | 0, _ :: _ => none
  | room + 1, blocks => blocks.mapM (decode? room)

/-! ## Writing -/

/-- The bytes of a tag. -/
def encodeTag (number form : Nat) : List UInt8 := Varint.encode (number * 8 + form)

/-- A record with a varint. -/
def encodeVarint (number n : Nat) : List UInt8 := encodeTag number 0 ++ Varint.encode n

/-- A record with a block of bytes. -/
def encodeBlock (number : Nat) (bytes : List UInt8) : List UInt8 :=
  encodeTag number 2 ++ Varint.encode bytes.length ++ bytes

/-- A record with a text. -/
def encodeText (number : Nat) (s : String) : List UInt8 := encodeBlock number (Text.Utf8.encode s)

end SchemaTypes.Wire
