import SchemaTypes.Text.Utf8

/-!
# Proofs/Utf8 — text read back from its bytes

A character takes one to four bytes.  For each length the reader finds the character again, whatever
follows (`next?_utf8EncodeChar`); `decode_encode` is the same for whole texts.
-/

namespace SchemaTypes.Text.Utf8

variable {n : Nat} (rest : List UInt8)

/-! ## Bytes -/

theorem toNat_ofNat_of_lt (h : n < 256) : (UInt8.ofNat n).toNat = n :=
  UInt8.toNat_ofNat_of_lt' h

/-- A byte that continues a character. -/
theorem isContinuation_ofNat (n : Nat) : isContinuation (UInt8.ofNat (n % 64 + 128)) = true := by
  have small : n % 64 + 128 < 256 := by omega
  rw [isContinuation, toNat_ofNat_of_lt small, Bool.and_eq_true, decide_eq_true_eq,
    decide_eq_true_eq]
  omega

/-- The six bits in a byte that continues a character. -/
theorem payload_ofNat (n : Nat) : payload (UInt8.ofNat (n % 64 + 128)) = n % 64 := by
  have small : n % 64 + 128 < 256 := by omega
  rw [payload, toNat_ofNat_of_lt small]
  omega

/-! ## Characters, by their length -/

theorem next?_one (h : n < 0x80) :
    next? (UInt8.ofNat n :: rest) = some (Char.ofNat n, 0) := by
  have lead : (UInt8.ofNat n).toNat = n := toNat_ofNat_of_lt (by omega)
  simp only [next?, lead]
  rw [if_pos h]

theorem next?_two (lower : 0x80 ≤ n) (upper : n < 0x800) :
    next? (UInt8.ofNat (n / 64 % 32 + 0xC0) :: UInt8.ofNat (n % 64 + 128) :: rest)
      = some (Char.ofNat n, 1) := by
  have lead : (UInt8.ofNat (n / 64 % 32 + 0xC0)).toNat = n / 64 + 0xC0 := by
    rw [toNat_ofNat_of_lt (by omega)]
    omega
  have whole : (n / 64 + 0xC0 - 0xC0) * 64 + n % 64 = n := by omega
  simp only [next?, lead, isContinuation_ofNat, payload_ofNat, whole, if_true]
  rw [if_neg (by omega), if_neg (by omega), if_pos (by omega)]

theorem next?_three (lower : 0x800 ≤ n) (upper : n < 0x10000) (valid : n.isValidChar) :
    next? (UInt8.ofNat (n / 4096 % 16 + 0xE0) :: UInt8.ofNat (n / 64 % 64 + 128) ::
      UInt8.ofNat (n % 64 + 128) :: rest) = some (Char.ofNat n, 2) := by
  have lead : (UInt8.ofNat (n / 4096 % 16 + 0xE0)).toNat = n / 4096 + 0xE0 := by
    rw [toNat_ofNat_of_lt (by omega)]
    omega
  have whole : ((n / 4096 + 0xE0 - 0xE0) * 64 + n / 64 % 64) * 64 + n % 64 = n := by omega
  simp only [next?, lead, isContinuation_ofNat, payload_ofNat, whole, lower, valid, Bool.and_true,
    decide_true, if_true]
  rw [if_neg (by omega), if_neg (by omega), if_neg (by omega), if_pos (by omega)]

theorem next?_four (lower : 0x10000 ≤ n) (valid : n.isValidChar) :
    next? (UInt8.ofNat (n / 262144 % 8 + 0xF0) :: UInt8.ofNat (n / 4096 % 64 + 128) ::
      UInt8.ofNat (n / 64 % 64 + 128) :: UInt8.ofNat (n % 64 + 128) :: rest)
      = some (Char.ofNat n, 3) := by
  have upper : n < 0x110000 := by
    rcases valid with low | high <;> omega
  have lead : (UInt8.ofNat (n / 262144 % 8 + 0xF0)).toNat = n / 262144 + 0xF0 := by
    rw [toNat_ofNat_of_lt (by omega)]
    omega
  have whole : (((n / 262144 + 0xF0 - 0xF0) * 64 + n / 4096 % 64) * 64 + n / 64 % 64) * 64 + n % 64
      = n := by omega
  simp only [next?, lead, isContinuation_ofNat, payload_ofNat, whole, lower, valid, Bool.and_true,
    decide_true, if_true]
  rw [if_neg (by omega), if_neg (by omega), if_neg (by omega), if_neg (by omega)]

/-- The character at the head of its own bytes is found, and how many of them follow the first. -/
theorem next?_utf8EncodeChar (c : Char) :
    ∃ lead more, String.utf8EncodeChar c = lead :: more ∧
      next? (lead :: (more ++ rest)) = some (c, more.length) := by
  have valid : c.val.toNat.isValidChar := c.valid
  have back : Char.ofNat c.val.toNat = c := Char.ofNat_toNat c
  rw [String.utf8EncodeChar]
  split
  · refine ⟨_, _, rfl, (next?_one rest ?_).trans (by rw [back]; rfl)⟩
    omega
  · split
    · refine ⟨_, _, rfl, (next?_two rest ?_ ?_).trans (by rw [back]; rfl)⟩ <;> omega
    · split
      · refine ⟨_, _, rfl, (next?_three rest ?_ ?_ valid).trans (by rw [back]; rfl)⟩ <;> omega
      · refine ⟨_, _, rfl, (next?_four rest ?_ valid).trans (by rw [back]; rfl)⟩
        omega

/-! ## Texts -/

theorem decodeAfter_append (more : List UInt8) :
    decodeAfter more.length (more ++ rest) = decodeAfter 0 rest := by
  induction more with
  | nil => rfl
  | cons b more ih => exact ih

theorem decodeAfter_utf8EncodeChar (c : Char) :
    decodeAfter 0 (String.utf8EncodeChar c ++ rest) = c :: decodeAfter 0 rest := by
  obtain ⟨lead, more, hbytes, hnext⟩ := next?_utf8EncodeChar rest c
  rw [hbytes, List.cons_append, decodeAfter_zero_cons, hnext]
  exact congrArg (c :: ·) (decodeAfter_append rest more)

/-- A text is read back from its bytes. -/
@[simp] theorem decode_encode (s : String) : decode (encode s) = s := by
  have chars (cs : List Char) : decodeAfter 0 (cs.flatMap String.utf8EncodeChar) = cs := by
    induction cs with
    | nil => rfl
    | cons c cs ih => rw [List.flatMap_cons, decodeAfter_utf8EncodeChar, ih]
  rw [decode, encode, chars, String.ofList_toList]

end SchemaTypes.Text.Utf8
