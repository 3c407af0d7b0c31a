/-!
# Wire/Varint — numbers in groups of seven bits

A number is written seven bits to a byte, the lowest first; every byte but the last has its top bit
set.  Reading takes any number of leading zero groups, but no more bytes than it is allowed.
-/

namespace SchemaTypes.Wire.Varint

/-- The shortest bytes of a number. -/
def encode (n : Nat) : List UInt8 :=
  if n < 128 then [UInt8.ofNat n] else UInt8.ofNat (n % 128 + 128) :: encode (n / 128)
termination_by n
decreasing_by omega

/-- The number at the head of the bytes, of at most `limit` bytes, and what follows it. -/
def decode? : Nat → List UInt8 → Option (Nat × List UInt8)
  | 0, _ => none
  | _, [] => none
  | limit + 1, b :: rest =>
    if b.toNat < 128 then some (b.toNat, rest)
    else
      match decode? limit rest with
      | none => none
      | some (n, after) => some (b.toNat - 128 + 128 * n, after)

/-- What follows a number is shorter than the bytes it was read from. -/
theorem length_decode? {limit n : Nat} {bytes rest : List UInt8}
    (h : decode? limit bytes = some (n, rest)) : rest.length < bytes.length := by
  induction limit generalizing n bytes rest with
  | zero => simp [decode?] at h
  | succ limit ih =>
    cases bytes with
    | nil => simp [decode?] at h
    | cons b bytes =>
      rw [decode?] at h
      split at h
      · simp only [Option.some.injEq, Prod.mk.injEq] at h
        simp [h.2]
      · split at h
        · simp at h
        · rename_i m after inner
          simp only [Option.some.injEq, Prod.mk.injEq] at h
          have shorter := ih inner
          rw [h.2] at shorter
          simp only [List.length_cons]
          omega

end SchemaTypes.Wire.Varint
