/-!
# Text/Utf8 — text as bytes

`encode` writes a text in UTF-8.  `decode` reads any bytes at all: where a well-formed character
starts it is taken, and a byte that starts none is dropped.  Overlong forms, surrogates and numbers
above U+10FFFF are not well formed.
-/

namespace SchemaTypes.Text.Utf8

/-- The bytes of a text. -/
def encode (s : String) : List UInt8 := s.toList.flatMap String.utf8EncodeChar

/-- Whether a byte continues a character that starts before it. -/
def isContinuation (b : UInt8) : Bool := 0x80 ≤ b.toNat && b.toNat < 0xC0

/-- The six bits a continuation byte carries. -/
def payload (b : UInt8) : Nat := b.toNat % 64

/-- The well-formed character at the head of the bytes, and the number of bytes it takes after the
first one. -/
def next? : List UInt8 → Option (Char × Nat)
  | [] => none
  | a :: rest =>
    let lead := a.toNat
    if lead < 0x80 then some (Char.ofNat lead, 0)
    else if lead < 0xC2 then none
    else if lead < 0xE0 then
      match rest with
      | b :: _ =>
        if isContinuation b then some (Char.ofNat ((lead - 0xC0) * 64 + payload b), 1) else none
      | _ => none
    else if lead < 0xF0 then
      match rest with
      | b :: c :: _ =>
        let n := ((lead - 0xE0) * 64 + payload b) * 64 + payload c
        if isContinuation b && isContinuation c && 0x800 ≤ n && decide n.isValidChar then
          some (Char.ofNat n, 2)
        else none
      | _ => none
    else
      match rest with
      | b :: c :: d :: _ =>
        let n := (((lead - 0xF0) * 64 + payload b) * 64 + payload c) * 64 + payload d
        if isContinuation b && isContinuation c && isContinuation d && 0x10000 ≤ n &&
            decide n.isValidChar then
          some (Char.ofNat n, 3)
        else none
      | _ => none

/-- The characters of the bytes that follow `skip` bytes already read. -/
def decodeAfter : Nat → List UInt8 → List Char
  | _, [] => []
  | skip + 1, _ :: rest => decodeAfter skip rest
  | 0, a :: rest =>
    match next? (a :: rest) with
    | some (c, more) => c :: decodeAfter more rest
    | none => decodeAfter 0 rest

/-- The text of the bytes, without those that start no well-formed character. -/
def decode (bytes : List UInt8) : String := String.ofList (decodeAfter 0 bytes)

@[simp] theorem decodeAfter_zero_cons (a : UInt8) (rest : List UInt8) :
    decodeAfter 0 (a :: rest) =
      match next? (a :: rest) with
      | some (c, more) => c :: decodeAfter more rest
      | none => decodeAfter 0 rest := rfl

end SchemaTypes.Text.Utf8
