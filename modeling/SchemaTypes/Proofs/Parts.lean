import Mathlib.Data.List.Sort
import SchemaTypes.Wire.Shape

/-!
# Proofs/Parts — messages as trees of parts

A message is a list of numbered parts, and some of the parts are messages again.  `encodeAll` writes
it out, each number, length and payload in its shortest form; `records?_encodeAll` says that reading
finds the parts again, the groups apart, if the message is not too long or too deep.

A shape asks that some parts are messages themselves.  `Fits` says so of a tree, and
`Fits.reads` that a tree which fits is let through.
-/

namespace SchemaTypes.Wire

/-! ## Numbers -/

namespace Varint

/-- A number of one byte is read back. -/
theorem decode?_of_lt {limit n : Nat} (h : n < 128) (rest : List UInt8) :
    decode? (limit + 1) (encode n ++ rest) = some (n, rest) := by
  have byte : (UInt8.ofNat n).toNat = n := UInt8.toNat_ofNat_of_lt' (Nat.lt_trans h (by decide))
  rw [encode, if_pos h, List.cons_append, decode?, byte, if_pos h, List.nil_append]

/-- A number is read back from its bytes, whatever follows, where that many bytes are allowed. -/
theorem decode?_encode_append {limit n : Nat} (h : n < Nat.pow 128 limit) (pos : 0 < limit)
    (rest : List UInt8) : decode? limit (encode n ++ rest) = some (n, rest) := by
  induction limit generalizing n with
  | zero => nomatch pos
  | succ limit ih =>
    by_cases small : n < 128
    · exact decode?_of_lt small rest
    · have byte : (UInt8.ofNat (n % 128 + 128)).toNat = n % 128 + 128 :=
        UInt8.toNat_ofNat_of_lt' (show n % 128 + 128 < 256 by omega)
      have whole : n < Nat.pow 128 limit * 128 := h
      have further : n / 128 < Nat.pow 128 limit := by omega
      have more : 0 < limit := by
        rcases limit with _ | limit
        · exact absurd h small
        · exact Nat.succ_pos limit
      rw [encode, if_neg small, List.cons_append, decode?, byte, if_neg (by omega),
        ih further more]
      simp only [Option.some.injEq, Prod.mk.injEq, and_true]
      omega

end Varint

/-! ## Trees -/

/-- What stands under a number in a message. -/
inductive Part where
  | varint (number n : Nat)
  | fixed64 (number : Nat) (bytes : List UInt8)
  | block (number : Nat) (bytes : List UInt8)
  | message (number : Nat) (parts : List Part)
  | group (number : Nat) (parts : List Part)
  | fixed32 (number : Nat) (bytes : List UInt8)

namespace Part

/-- The number of a part. -/
def number : Part → Nat
  | varint number _ | fixed64 number _ | block number _ | message number _ | group number _
  | fixed32 number _ => number

mutual

/-- The bytes of a part. -/
def encode : Part → List UInt8
  | varint number n => encodeVarint number n
  | fixed64 number bytes => encodeTag number 1 ++ bytes
  | block number bytes => encodeBlock number bytes
  | message number parts => encodeBlock number (encodeAll parts)
  | group number parts => encodeTag number 3 ++ encodeAll parts ++ encodeTag number 4
  | fixed32 number bytes => encodeTag number 5 ++ bytes

/-- The bytes of a message. -/
def encodeAll : List Part → List UInt8
  | [] => []
  | p :: ps => p.encode ++ encodeAll ps

end

mutual

/-- How many levels of messages and groups a part adds. -/
def depth : Part → Nat
  | message _ parts | group _ parts => depthAll parts + 1
  | _ => 0

/-- How many levels of messages and groups lie below a message. -/
def depthAll : List Part → Nat
  | [] => 0
  | p :: ps => max p.depth (depthAll ps)

end

/-- The record that a part is read as; there is none for a group. -/
def record? : Part → Option Record
  | varint number n => some ⟨number, .varint n⟩
  | fixed64 number bytes => some ⟨number, .fixed64 bytes⟩
  | block number bytes => some ⟨number, .block bytes⟩
  | message number parts => some ⟨number, .block (encodeAll parts)⟩
  | group _ _ => none
  | fixed32 number bytes => some ⟨number, .fixed32 bytes⟩

/-- The records of a message. -/
def records (ps : List Part) : List Record := ps.filterMap record?

/-- The numbers that parts may have. -/
def IsNumber (number : Nat) : Prop := 0 < number ∧ number < 0x20000000

instance (number : Nat) : Decidable (IsNumber number) := inferInstanceAs (Decidable (_ ∧ _))

/-- A part that can be written: its number and payload have a place in the bytes.  A message is
written as a block, so what it holds does not matter here. -/
inductive Valid : Part → Prop
  | varint {number n : Nat} : IsNumber number → n < 0x10000000000000000 → Valid (varint number n)
  | fixed64 {number : Nat} {bytes : List UInt8} : IsNumber number → bytes.length = 8 →
      Valid (fixed64 number bytes)
  | block {number : Nat} {bytes : List UInt8} : IsNumber number → Valid (block number bytes)
  | message {number : Nat} {parts : List Part} : IsNumber number → Valid (message number parts)
  | group {number : Nat} {parts : List Part} : IsNumber number → (∀ p ∈ parts, Valid p) →
      Valid (group number parts)
  | fixed32 {number : Nat} {bytes : List UInt8} : IsNumber number → bytes.length = 4 →
      Valid (fixed32 number bytes)

end Part

/-! ## Single parts read back -/

section Single

variable {number form n : Nat} {bytes : List UInt8} (rest : List UInt8)

theorem tag?_encodeTag (h : Part.IsNumber number) (hform : form < 8) :
    tag? (encodeTag number form ++ rest) = some ((number, form), rest) := by
  obtain ⟨pos, small⟩ := h
  have fits : number * 8 + form < Nat.pow 128 5 := by
    rw [show Nat.pow 128 5 = 0x800000000 from rfl]
    omega
  rw [tag?, encodeTag, Varint.decode?_encode_append fits (by decide)]
  simp only
  rw [if_pos (by omega)]
  simp only [Option.some.injEq, Prod.mk.injEq, and_true]
  omega

theorem take?_append (bytes rest : List UInt8) :
    take? bytes.length (bytes ++ rest) = some (bytes, rest) := by
  simp [take?]

theorem payload?_varint (h : n < 0x10000000000000000) :
    payload? 0 (Varint.encode n ++ rest) = some (.varint n, rest) := by
  have read : word? (Varint.encode n ++ rest) = some (n, rest) := by
    have fits : n < Nat.pow 128 10 := Nat.lt_trans h (by decide)
    rw [word?, Varint.decode?_encode_append fits (by decide)]
    simp only [Nat.mod_eq_of_lt h]
  rw [payload?, read]
  rfl

theorem payload?_fixed64 (h : bytes.length = 8) :
    payload? 1 (bytes ++ rest) = some (.fixed64 bytes, rest) := by
  rw [payload?, ← h, take?_append]
  rfl

theorem payload?_fixed32 (h : bytes.length = 4) :
    payload? 5 (bytes ++ rest) = some (.fixed32 bytes, rest) := by
  rw [payload?, ← h, take?_append]
  rfl

theorem payload?_block (h : bytes.length < 0x80000000) :
    payload? 2 (Varint.encode bytes.length ++ bytes ++ rest) = some (.block bytes, rest) := by
  have read : blockLength? (Varint.encode bytes.length ++ (bytes ++ rest))
      = some (bytes.length, bytes ++ rest) := by
    have fits : bytes.length < Nat.pow 128 5 := Nat.lt_trans h (by decide)
    rw [blockLength?, Varint.decode?_encode_append fits (by decide)]
    simp only [if_pos h]
  rw [payload?, List.append_assoc, read]
  simp only [take?_append]
  rfl

end Single

/-! ## Steps of the reader -/

section Steps

variable {room number form : Nat} {outer : List Nat} {bytes rest after : List UInt8}

theorem ne_nil_of_tag? {t : Nat × Nat} (ht : tag? bytes = some (t, rest)) : bytes ≠ [] := by
  rintro rfl
  simp [tag?, Varint.decode?] at ht

/-- A part with a payload gives a record, outside of all groups. -/
theorem recordsWithin?_of_payload? {payload : Payload}
    (ht : tag? bytes = some ((number, form), rest))
    (hp : payload? form rest = some (payload, after)) :
    recordsWithin? room outer bytes
      = (recordsWithin? room outer after).map fun rs =>
          if outer = [] then ⟨number, payload⟩ :: rs else rs := by
  rw [recordsWithin?, if_neg (ne_nil_of_tag? ht)]
  split
  · rename_i hnone
    simp [ht] at hnone
  · rename_i hopen
    obtain ⟨⟨-, rfl⟩, -⟩ : (_ ∧ form = 3) ∧ _ := by simpa [ht] using hopen
    simp [payload?] at hp
  · rename_i hclose
    obtain ⟨⟨-, rfl⟩, -⟩ : (_ ∧ form = 4) ∧ _ := by simpa [ht] using hclose
    simp [payload?] at hp
  · rename_i hother
    obtain ⟨⟨rfl, rfl⟩, rfl⟩ : (number = _ ∧ form = _) ∧ rest = _ := by simpa [ht] using hother
    split
    · rename_i hnone
      simp [hp] at hnone
    · rename_i hsome
      obtain ⟨rfl, rfl⟩ : payload = _ ∧ after = _ := by simpa [hp] using hsome
      cases recordsWithin? room outer after <;> rfl

theorem recordsWithin?_of_open (ht : tag? bytes = some ((number, 3), rest))
    (h : outer.length < room) :
    recordsWithin? room outer bytes = recordsWithin? room (number :: outer) rest := by
  rw [recordsWithin?, if_neg (ne_nil_of_tag? ht)]
  split
  · rename_i hnone
    simp [ht] at hnone
  · rename_i hopen
    obtain ⟨rfl, rfl⟩ : number = _ ∧ rest = _ := by simpa [ht] using hopen
    exact if_pos h
  · rename_i hclose
    simp [ht] at hclose
  · rename_i hother
    obtain ⟨⟨-, rfl⟩, -⟩ : (_ ∧ 3 = _) ∧ _ := by simpa [ht] using hother
    contradiction

theorem recordsWithin?_of_close (ht : tag? bytes = some ((number, 4), rest)) :
    recordsWithin? room (number :: outer) bytes = recordsWithin? room outer rest := by
  rw [recordsWithin?, if_neg (ne_nil_of_tag? ht)]
  split
  · rename_i hnone
    simp [ht] at hnone
  · rename_i hopen
    simp [ht] at hopen
  · rename_i hclose
    obtain ⟨rfl, rfl⟩ : number = _ ∧ rest = _ := by simpa [ht] using hclose
    exact if_pos rfl
  · rename_i hother
    obtain ⟨⟨-, rfl⟩, -⟩ : (_ ∧ 4 = _) ∧ _ := by simpa [ht] using hother
    contradiction

end Steps

/-! ## Trees read back -/

namespace Part

theorem encodeAll_eq_flatMap (ps : List Part) : encodeAll ps = ps.flatMap encode := by
  induction ps with
  | nil => rw [encodeAll, List.flatMap_nil]
  | cons p ps ih => rw [encodeAll, List.flatMap_cons, ih]

mutual

/-- A part is read as its record, inside a group as nothing. -/
theorem recordsWithin?_encode : (p : Part) → p.Valid → ∀ {room : Nat} {outer : List Nat},
    outer.length + p.depth ≤ room → p.encode.length < 0x80000000 → ∀ rest : List UInt8,
    recordsWithin? room outer (p.encode ++ rest)
      = (recordsWithin? room outer rest).map fun rs =>
          if outer = [] then p.record?.toList ++ rs else rs
  | .varint number n, .varint hnumber hn, _, _, _, _, rest => by
    rw [encode, encodeVarint, List.append_assoc]
    exact recordsWithin?_of_payload? (tag?_encodeTag _ hnumber (by decide))
      (payload?_varint rest hn)
  | .fixed64 number bytes, .fixed64 hnumber hbytes, _, _, _, _, rest => by
    rw [encode, List.append_assoc]
    exact recordsWithin?_of_payload? (tag?_encodeTag _ hnumber (by decide))
      (payload?_fixed64 rest hbytes)
  | .block number bytes, .block hnumber, _, _, _, small, rest => by
    rw [encode, encodeBlock, List.length_append] at small
    rw [encode, encodeBlock, List.append_assoc, List.append_assoc,
      ← List.append_assoc (Varint.encode _)]
    exact recordsWithin?_of_payload? (tag?_encodeTag _ hnumber (by decide))
      (payload?_block rest (by omega))
  | .message number parts, .message hnumber, _, _, _, small, rest => by
    rw [encode, encodeBlock, List.length_append] at small
    rw [encode, encodeBlock, List.append_assoc, List.append_assoc,
      ← List.append_assoc (Varint.encode _)]
    exact recordsWithin?_of_payload? (tag?_encodeTag _ hnumber (by decide))
      (payload?_block rest (by omega))
  | .group number parts, .group hnumber hparts, room, outer, deep, small, rest => by
    rw [encode, List.length_append, List.length_append] at small
    rw [depth] at deep
    rw [encode, List.append_assoc, List.append_assoc,
      recordsWithin?_of_open (tag?_encodeTag _ hnumber (by decide)) (by omega),
      recordsWithin?_encodeAll parts hparts (by rw [List.length_cons]; omega) (by omega),
      recordsWithin?_of_close (tag?_encodeTag _ hnumber (by decide))]
    simp [record?]
  | .fixed32 number bytes, .fixed32 hnumber hbytes, _, _, _, _, rest => by
    rw [encode, List.append_assoc]
    exact recordsWithin?_of_payload? (tag?_encodeTag _ hnumber (by decide))
      (payload?_fixed32 rest hbytes)

theorem recordsWithin?_encodeAll : (ps : List Part) → (∀ p ∈ ps, p.Valid) →
    ∀ {room : Nat} {outer : List Nat}, outer.length + depthAll ps ≤ room →
    (encodeAll ps).length < 0x80000000 → ∀ rest : List UInt8,
    recordsWithin? room outer (encodeAll ps ++ rest)
      = (recordsWithin? room outer rest).map fun rs =>
          if outer = [] then records ps ++ rs else rs
  | [], _, _, _, _, _, rest => by simp [encodeAll, records]
  | p :: ps, valid, room, outer, deep, small, rest => by
    obtain ⟨hp, hps⟩ := List.forall_mem_cons.mp valid
    rw [encodeAll, List.length_append] at small
    rw [depthAll] at deep
    rw [encodeAll, List.append_assoc, recordsWithin?_encode p hp (by omega) (by omega),
      recordsWithin?_encodeAll ps hps (by omega) (by omega), Option.map_map]
    congr 1
    funext rs
    by_cases hout : outer = []
    · cases hrecord : p.record? <;> simp [records, hout, hrecord]
    · simp [hout]

end

/-- Reading a message finds its parts again. -/
theorem records?_encodeAll {ps : List Part} (valid : ∀ p ∈ ps, p.Valid) {room : Nat}
    (deep : depthAll ps ≤ room) (small : (encodeAll ps).length < 0x80000000) :
    records? room (encodeAll ps) = some (records ps) := by
  have ended : recordsWithin? room [] [] = some [] := by simp [recordsWithin?]
  rw [records?, ← List.append_nil (encodeAll ps),
    recordsWithin?_encodeAll ps valid (by simpa using deep) small, ended]
  simp

/-! ## Parts of a message -/

section Inner

variable {ps qs : List Part} {number : Nat}

theorem depthAll_le_iff {k : Nat} : depthAll ps ≤ k ↔ ∀ p ∈ ps, p.depth ≤ k := by
  induction ps with
  | nil => simp [depthAll]
  | cons p ps ih => rw [depthAll, Nat.max_le, ih, List.forall_mem_cons]

/-- A message in a message is less deep. -/
theorem depthAll_lt_of_mem (h : message number qs ∈ ps) : depthAll qs < depthAll ps := by
  have := depthAll_le_iff.mp (Nat.le_refl (depthAll ps)) _ h
  rwa [depth] at this

/-- A message in a message is no longer. -/
theorem length_encodeAll_le_of_mem (h : message number qs ∈ ps) :
    (encodeAll qs).length ≤ (encodeAll ps).length := by
  have part : (encodeAll qs).length ≤ (encode (message number qs)).length := by
    rw [encode, encodeBlock, List.length_append]
    omega
  rw [encodeAll_eq_flatMap ps, List.flatMap_def]
  exact part.trans (List.sublist_flatten_of_mem (List.mem_map_of_mem h)).length_le

end Inner

/-! ## Parts by their numbers -/

variable {ps : List Part} {n number : Nat}

/-- The bytes of the block that a part is under a number, if it is one. -/
def block? (n : Nat) : Part → Option (List UInt8)
  | block number bytes => if number = n then some bytes else none
  | message number parts => if number = n then some (encodeAll parts) else none
  | _ => none

/-- The number that a part is under a number, if it is one. -/
def varint? (n : Nat) : Part → Option Nat
  | varint number v => if number = n then some v else none
  | _ => none

theorem number_of_block? (p : Part) (h : (p.block? n).isSome) : p.number = n := by
  cases p <;> simp_all [block?, number]

theorem number_of_varint? (p : Part) (h : (p.varint? n).isSome) : p.number = n := by
  cases p <;> simp_all [varint?, number]

theorem blocks_records (n : Nat) (ps : List Part) :
    Record.blocks n (records ps) = ps.filterMap (block? n) := by
  rw [Record.blocks, records, List.filterMap_filterMap]
  congr 1
  funext p
  cases p <;> rfl

theorem varints_records (n : Nat) (ps : List Part) :
    Record.varints n (records ps) = ps.filterMap (varint? n) := by
  rw [Record.varints, records, List.filterMap_filterMap]
  congr 1
  funext p
  cases p <;> rfl

/-- The blocks of a number are those that stand there, and the messages written out. -/
theorem mem_blocks_records {bytes : List UInt8} :
    bytes ∈ Record.blocks n (records ps) ↔
      block n bytes ∈ ps ∨ ∃ qs, message n qs ∈ ps ∧ encodeAll qs = bytes := by
  rw [blocks_records, List.mem_filterMap]
  constructor
  · rintro ⟨p, hp, hblock⟩
    cases p <;> simp only [block?, reduceCtorEq, Option.ite_none_right_eq_some,
      Option.some.injEq] at hblock
    · obtain ⟨rfl, rfl⟩ := hblock
      exact .inl hp
    · obtain ⟨rfl, rfl⟩ := hblock
      exact .inr ⟨_, hp, rfl⟩
  · rintro (hp | ⟨qs, hp, rfl⟩)
    · exact ⟨_, hp, if_pos rfl⟩
    · exact ⟨_, hp, if_pos rfl⟩

/-- The parts of a message in order of their numbers. -/
def inOrder (ps : List Part) : List Part := ps.insertionSort fun p q => p.number ≤ q.number

theorem mem_inOrder {p : Part} : p ∈ inOrder ps ↔ p ∈ ps := List.mem_insertionSort _

theorem inOrder_eq_self (h : (ps.map Part.number).Pairwise (· ≤ ·)) : inOrder ps = ps :=
  (List.pairwise_map.mp h).insertionSort_eq

/-- What stands under one number keeps its order. -/
theorem filterMap_inOrder {β : Type} {g : Part → Option β}
    (h : ∀ p, (g p).isSome → p.number = n) (ps : List Part) :
    (inOrder ps).filterMap g = ps.filterMap g := by
  have insert (p : Part) (qs : List Part) :
      (qs.orderedInsert (fun p q => p.number ≤ q.number) p).filterMap g
        = (p :: qs).filterMap g := by
    induction qs with
    | nil => rfl
    | cons q qs ih =>
      rw [List.orderedInsert_cons]
      split
      · rfl
      · rename_i before
        -- Only one of the two is under the number looked for, as their numbers differ.
        cases hp : g p with
        | none => simp [List.filterMap_cons, ih, hp]
        | some b =>
          cases hq : g q with
          | none => simp [ih, hp, hq]
          | some c =>
            have := h p (by simp [hp])
            have := h q (by simp [hq])
            omega
  induction ps with
  | nil => rfl
  | cons p ps ih =>
    rw [inOrder, List.insertionSort_cons, insert, List.filterMap_cons, List.filterMap_cons]
    rw [inOrder] at ih
    rw [ih]

end Part

/-! ## Shapes -/

open SchemaTypes.Wire.Part

/-- All parts of a tree can be written, and wherever a shape asks for a message, the tree has one,
of the shape asked for. -/
inductive Fits : Shape → List Part → Prop
  | mk {shape : Shape} {ps : List Part} : (∀ p ∈ ps, p.Valid) →
      (∀ e ∈ shape.parts, ∀ p ∈ ps, p.number = e.1 → ∃ qs, p = .message e.1 qs) →
      (∀ e ∈ shape.parts, ∀ qs, .message e.1 qs ∈ ps → Fits e.2 qs) → Fits shape ps

/-- A reader finds a value in the bytes of a tree, where there is room for the levels of the tree
and the bytes are not too many. -/
def Reads {α : Type} (decode? : Nat → List UInt8 → Option α) (ps : List Part) (a : α) : Prop :=
  ∀ room, depthAll ps ≤ room → (encodeAll ps).length < 0x80000000 →
    decode? room (encodeAll ps) = some a

section Shapes

variable {shape : Shape} {ps qs : List Part}

theorem Fits.valid : Fits shape ps → ∀ p ∈ ps, p.Valid
  | ⟨valid, _, _⟩ => valid

/-- The blocks under a number where the shape asks for messages are messages. -/
theorem Fits.exists_of_mem_blocks (fits : Fits shape ps) {e : Nat × Shape} (he : e ∈ shape.parts)
    {bytes : List UInt8} (h : bytes ∈ Record.blocks e.1 (records ps)) :
    ∃ qs, message e.1 qs ∈ ps ∧ encodeAll qs = bytes ∧ Fits e.2 qs := by
  obtain ⟨-, messages, inner⟩ := fits
  obtain hblock | ⟨qs, hqs, rfl⟩ := mem_blocks_records.mp h
  · obtain ⟨qs, hqs⟩ := messages e he _ hblock rfl
    nomatch hqs
  · exact ⟨qs, hqs, rfl, inner e he qs hqs⟩

theorem Fits.admits (fits : Fits shape ps) {room : Nat} (deep : depthAll ps ≤ room)
    (small : (encodeAll ps).length < 0x80000000) : shape.admits room (records ps) = true := by
  induction room generalizing shape ps with
  | zero =>
    rw [Shape.admits, List.all_eq_true]
    intro e he
    rw [List.isEmpty_iff, List.eq_nil_iff_forall_not_mem]
    intro bytes hbytes
    obtain ⟨qs, hqs, -⟩ := fits.exists_of_mem_blocks he hbytes
    have := depthAll_lt_of_mem hqs
    omega
  | succ room ih =>
    rw [Shape.admits, List.all_eq_true]
    intro e he
    rw [List.all_eq_true]
    intro bytes hbytes
    obtain ⟨qs, hqs, rfl, inner⟩ := fits.exists_of_mem_blocks he hbytes
    have shallow : depthAll qs ≤ room := by
      have := depthAll_lt_of_mem hqs
      omega
    have short := Nat.lt_of_le_of_lt (length_encodeAll_le_of_mem hqs) small
    rw [records?_encodeAll inner.valid shallow short]
    exact ih inner shallow short

/-- A tree that fits a shape is let through. -/
theorem Fits.reads (fits : Fits shape ps) : Reads shape.records? ps (records ps) := by
  intro room deep small
  rw [Shape.records?, records?_encodeAll fits.valid deep small, Option.filter_some,
    fits.admits deep small]
  rfl

theorem mapM_map_eq_some {α β γ : Type} {f : β → γ} {g : γ → Option α} {value : β → α}
    {items : List β} (h : ∀ b ∈ items, g (f b) = some (value b)) :
    (items.map f).mapM g = some (items.map value) := by
  induction items with
  | nil => rfl
  | cons b items ih =>
    obtain ⟨here, later⟩ := List.forall_mem_cons.mp h
    rw [List.map_cons, List.mapM_cons, here, ih later]
    rfl

/-- Messages in a message are read one by one. -/
theorem inside?_of_reads {α β : Type} {decode? : Nat → List UInt8 → Option α} {number room : Nat}
    {items : List β} {parts : β → List Part} {value : β → α}
    (reads : ∀ b ∈ items, Reads decode? (parts b) (value b))
    (inner : ∀ b ∈ items, message number (parts b) ∈ ps) (deep : depthAll ps ≤ room)
    (small : (encodeAll ps).length < 0x80000000) :
    inside? room decode? (items.map fun b => encodeAll (parts b)) = some (items.map value) := by
  cases items with
  | nil => cases room <;> rfl
  | cons b items =>
    cases room with
    | zero =>
      have := depthAll_lt_of_mem (inner b List.mem_cons_self)
      omega
    | succ room =>
      have each : ∀ c ∈ b :: items, decode? room (encodeAll (parts c)) = some (value c) := by
        intro c hc
        have := depthAll_lt_of_mem (inner c hc)
        exact reads c hc room (by omega)
          (Nat.lt_of_le_of_lt (length_encodeAll_le_of_mem (inner c hc)) small)
      exact mapM_map_eq_some each

end Shapes

/-! ## Fields -/

namespace Part

variable {n number : Nat} {taken : List Nat}

/-- Texts under a number. -/
def texts (number : Nat) (ss : List String) : List Part :=
  ss.map fun s => block number (Text.Utf8.encode s)

/-- Numbers under a number. -/
def numbers (number : Nat) (vs : List Nat) : List Part := vs.map (varint number)

/-- Messages under a number. -/
def messages (number : Nat) (pss : List (List Part)) : List Part := pss.map (message number)

theorem mem_messages {β : Type} {parts : β → List Part} {items : List β} {b : β} (h : b ∈ items) :
    message number (parts b) ∈ messages number (items.map parts) :=
  List.mem_map_of_mem (List.mem_map_of_mem h)

@[simp] theorem filterMap_block?_texts (ss : List String) :
    (texts number ss).filterMap (block? n)
      = if number = n then ss.map Text.Utf8.encode else [] := by
  split <;> simp_all [texts, block?, List.filterMap_map, Function.comp_def]

@[simp] theorem filterMap_block?_numbers (vs : List Nat) :
    (numbers number vs).filterMap (block? n) = [] := by
  simp [numbers, block?]

@[simp] theorem filterMap_block?_messages (pss : List (List Part)) :
    (messages number pss).filterMap (block? n)
      = if number = n then pss.map encodeAll else [] := by
  split <;> simp_all [messages, block?, List.filterMap_map, Function.comp_def]

@[simp] theorem filterMap_varint?_messages (pss : List (List Part)) :
    (messages number pss).filterMap (varint? n) = [] := by
  simp [messages, varint?]

@[simp] theorem filterMap_varint?_texts (ss : List String) :
    (texts number ss).filterMap (varint? n) = [] := by
  simp [texts, varint?]

@[simp] theorem filterMap_varint?_numbers (vs : List Nat) :
    (numbers number vs).filterMap (varint? n) = if number = n then vs else [] := by
  split <;> simp_all [numbers, varint?, List.filterMap_map, Function.comp_def]

@[simp] theorem map_number_texts (ss : List String) :
    (texts n ss).map Part.number = List.replicate ss.length n := by
  simp [texts, Part.number, List.map_const', Function.comp_def]

@[simp] theorem map_number_numbers (vs : List Nat) :
    (numbers n vs).map Part.number = List.replicate vs.length n := by
  simp [numbers, Part.number, List.map_const', Function.comp_def]

@[simp] theorem map_number_messages (pss : List (List Part)) :
    (messages n pss).map Part.number = List.replicate pss.length n := by
  simp [messages, Part.number, List.map_const', Function.comp_def]

theorem encodeAll_append (ps qs : List Part) :
    encodeAll (ps ++ qs) = encodeAll ps ++ encodeAll qs := by
  simp only [encodeAll_eq_flatMap, List.flatMap_append]

@[simp] theorem encodeAll_texts (ss : List String) :
    encodeAll (texts n ss) = ss.flatMap (encodeText n) := by
  rw [encodeAll_eq_flatMap, texts, List.flatMap_map]
  simp only [encode]
  rfl

@[simp] theorem encodeAll_numbers (vs : List Nat) :
    encodeAll (numbers n vs) = vs.flatMap (encodeVarint n) := by
  rw [encodeAll_eq_flatMap, numbers, List.flatMap_map]
  simp only [encode]

@[simp] theorem encodeAll_messages (pss : List (List Part)) :
    encodeAll (messages n pss) = pss.flatMap fun ps => encodeBlock n (encodeAll ps) := by
  rw [encodeAll_eq_flatMap, messages, List.flatMap_map]
  simp only [encode]

/-- Parts that are asked for: they can be written, and have numbers that are taken. -/
def Known (taken : List Nat) (ps : List Part) : Prop := ∀ p ∈ ps, p.Valid ∧ p.number ∈ taken

theorem Known.append {ps qs : List Part} (hps : Known taken ps) (hqs : Known taken qs) :
    Known taken (ps ++ qs) := List.forall_mem_append.mpr ⟨hps, hqs⟩

section Known

variable (hnumber : IsNumber number ∧ number ∈ taken)
include hnumber

theorem known_texts (ss : List String) : Known taken (texts number ss) := by
  intro p hp
  obtain ⟨s, -, rfl⟩ := List.mem_map.mp hp
  exact ⟨.block hnumber.1, hnumber.2⟩

theorem known_messages (pss : List (List Part)) : Known taken (messages number pss) := by
  intro p hp
  obtain ⟨ps, -, rfl⟩ := List.mem_map.mp hp
  exact ⟨.message hnumber.1, hnumber.2⟩

theorem known_numbers {vs : List Nat} (small : ∀ v ∈ vs, v < 0x10000000000000000) :
    Known taken (numbers number vs) := by
  intro p hp
  obtain ⟨v, hv, rfl⟩ := List.mem_map.mp hp
  exact ⟨.varint hnumber.1 (small v hv), hnumber.2⟩

end Known

end Part

end SchemaTypes.Wire
