import SchemaTypes.Exchange.Serve
import SchemaTypes.Proofs.Parts
import SchemaTypes.Proofs.Utf8

/-!
# Proofs/Sent — requests as they are sent

A sender may leave a field unset, and may set fields that nobody asks for.  The structures below
hold what is set; `parts` is the message that goes over the wire, its parts in order of their
numbers, and `value` is what it means to the receiver, who takes the default for what is unset.

`Request.decode?_encode` says that the receiver gets the value, and `decodeSet?_encodeSet` that a
descriptor set which is written with every field set is read back.
-/

namespace SchemaTypes.Sent

open Wire Wire.Part Descriptor

/-! ## Messages with parts that nobody asks for -/

/-- The parts of a message beside those with the numbers taken: they are not read, but have to fit a
shape. -/
structure Rest (shape : Shape) (taken : List Nat) where
  parts : List Wire.Part
  fits : Fits shape parts
  free : ∀ p ∈ parts, p.number ∉ taken

namespace Rest

variable {shape : Shape} {taken : List Nat}

instance : EmptyCollection (Rest shape taken) := ⟨⟨[], ⟨nofun, nofun, nofun⟩, nofun⟩⟩

/-- All parts of a message, in order of their numbers. -/
def beside (more : Rest shape taken) (known : List Wire.Part) : List Wire.Part :=
  inOrder (known ++ more.parts)

variable (more : Rest shape taken) {known : List Wire.Part}

theorem mem_beside {p : Wire.Part} (h : p ∈ known) : p ∈ more.beside known :=
  mem_inOrder.mpr (List.mem_append_left _ h)

theorem fits_beside (hknown : Known taken known) (apart : ∀ e ∈ shape.parts, e.1 ∉ taken) :
    Fits shape (more.beside known) := by
  obtain ⟨valid, asked, inner⟩ := more.fits
  -- Where the shape asks for a message, no number is taken, so the part is one of the others.
  have other {p : Wire.Part} {e : Nat × Shape} (he : e ∈ shape.parts) (hp : p ∈ more.beside known)
      (hnumber : p.number = e.1) : p ∈ more.parts := by
    obtain hp | hp := List.mem_append.mp (mem_inOrder.mp hp)
    · exact absurd (hnumber ▸ (hknown p hp).2) (apart e he)
    · exact hp
  refine ⟨fun p hp => ?_, fun e he p hp hnumber => asked e he p (other he hp hnumber) hnumber,
    fun e he qs hqs => inner e he qs (other he hqs rfl)⟩
  obtain hp | hp := List.mem_append.mp (mem_inOrder.mp hp)
  · exact (hknown p hp).1
  · exact valid p hp

theorem filterMap_beside {β : Type} {g : Wire.Part → Option β} {n : Nat} (hn : n ∈ taken)
    (hg : ∀ p, (g p).isSome → p.number = n) (known : List Wire.Part) :
    (more.beside known).filterMap g = known.filterMap g := by
  have others : more.parts.filterMap g = [] := by
    rw [List.filterMap_eq_nil_iff]
    intro p hp
    rw [← Option.not_isSome_iff_eq_none]
    intro hsome
    exact more.free p hp (hg p hsome ▸ hn)
  rw [beside, filterMap_inOrder hg, List.filterMap_append, others, List.append_nil]

theorem blocks_beside {n : Nat} (hn : n ∈ taken) (known : List Wire.Part) :
    Record.blocks n (records (more.beside known)) = known.filterMap (block? n) := by
  rw [blocks_records, more.filterMap_beside hn number_of_block?]

theorem varints_beside {n : Nat} (hn : n ∈ taken) (known : List Wire.Part) :
    Record.varints n (records (more.beside known)) = known.filterMap (varint? n) := by
  rw [varints_records, more.filterMap_beside hn number_of_varint?]

/-- A text that may be unset is found under its number. -/
theorem text?_beside {n : Nat} (hn : n ∈ taken) {s : Option String}
    (h : known.filterMap (block? n) = s.toList.map Text.Utf8.encode) :
    Record.text? n (records (more.beside known)) = s := by
  rw [Record.text?, Record.texts, more.blocks_beside hn, h]
  cases s <;> simp

/-- A choice that may be unset is found under its number. -/
theorem choice?_beside {α : Type} (number : α → Nat) {meaning? : Nat → Option α}
    (back : ∀ a, meaning? (number a % 0x100000000) = some a) {n : Nat} (hn : n ∈ taken)
    {a : Option α} (h : known.filterMap (varint? n) = (a.map number).toList) :
    Record.choice? n meaning? (records (more.beside known)) = a := by
  rw [Record.choice?, more.varints_beside hn, h]
  cases a <;> simp [back]

/-- Messages under a number are read one by one. -/
theorem inside?_beside {α β : Type} {decode? : Nat → List UInt8 → Option α} {n room : Nat}
    {items : List β} {parts : β → List Wire.Part} {value : β → α} (hn : n ∈ taken)
    (h : known.filterMap (block? n) = (items.map parts).map encodeAll)
    (inner : ∀ b ∈ items, message n (parts b) ∈ known)
    (reads : ∀ b ∈ items, Reads decode? (parts b) (value b))
    (deep : depthAll (more.beside known) ≤ room)
    (small : (encodeAll (more.beside known)).length < 0x80000000) :
    inside? room decode? (Record.blocks n (records (more.beside known)))
      = some (items.map value) := by
  rw [more.blocks_beside hn, h, List.map_map]
  exact inside?_of_reads reads (fun b hb => more.mem_beside (inner b hb)) deep small

end Rest

/-! ## Descriptors -/

/-- A field as it is sent. -/
structure Field where
  name : Option String := none
  label : Option Label := none
  type : Option FieldType := none
  typeName : Option String := none
  more : Rest Unread.field [1, 4, 5, 6] := ∅

def Field.asked (f : Field) : List Wire.Part :=
  texts 1 f.name.toList ++ numbers 4 (f.label.map Label.number).toList ++
    numbers 5 (f.type.map FieldType.number).toList ++ texts 6 f.typeName.toList

def Field.parts (f : Field) : List Wire.Part := f.more.beside f.asked

def Field.value (f : Field) : Descriptor.Field where
  name := f.name.getD ""
  label := f.label.getD .optional
  type := f.type.getD .double
  typeName := f.typeName.getD ""

/-- A value of an enum as it is sent. -/
structure Value where
  name : Option String := none
  more : Rest Unread.value [1] := ∅

def Value.asked (v : Value) : List Wire.Part := texts 1 v.name.toList

def Value.parts (v : Value) : List Wire.Part := v.more.beside v.asked

def Value.value (v : Value) : String := v.name.getD ""

/-- An enum as it is sent. -/
structure Enum where
  name : Option String := none
  values : List Value := []
  more : Rest Unread.enum [1, 2] := ∅

def Enum.asked (e : Enum) : List Wire.Part :=
  texts 1 e.name.toList ++ messages 2 (e.values.map Value.parts)

def Enum.parts (e : Enum) : List Wire.Part := e.more.beside e.asked

def Enum.value (e : Enum) : Descriptor.Enum where
  name := e.name.getD ""
  values := e.values.map Value.value

/-- A message as it is sent. -/
structure Message where
  name : Option String := none
  fields : List Field := []
  nested : List Message := []
  enums : List Enum := []
  more : Rest Unread.message [1, 2, 3, 4] := ∅

mutual

def Message.parts : Message → List Wire.Part
  | ⟨name, fields, nested, enums, more⟩ =>
    more.beside (texts 1 name.toList ++ messages 2 (fields.map Field.parts) ++
      messages 3 (partsAll nested) ++ messages 4 (enums.map Enum.parts))

def Message.partsAll : List Message → List (List Wire.Part)
  | [] => []
  | m :: ms => m.parts :: partsAll ms

end

def Message.asked (m : Message) : List Wire.Part :=
  texts 1 m.name.toList ++ messages 2 (m.fields.map Field.parts) ++
    messages 3 (m.nested.map Message.parts) ++ messages 4 (m.enums.map Enum.parts)

mutual

def Message.value : Message → Descriptor.Message
  | ⟨name, fields, nested, enums, _⟩ =>
    ⟨name.getD "", fields.map Field.value, valueAll nested, enums.map Enum.value⟩

def Message.valueAll : List Message → List Descriptor.Message
  | [] => []
  | m :: ms => m.value :: valueAll ms

end

/-- A file as it is sent. -/
structure File where
  name : Option String := none
  package : Option String := none
  messages : List Message := []
  enums : List Enum := []
  more : Rest Unread.file [1, 2, 4, 5] := ∅

def File.asked (f : File) : List Wire.Part :=
  texts 1 f.name.toList ++ texts 2 f.package.toList ++
    Part.messages 4 (f.messages.map Message.parts) ++ Part.messages 5 (f.enums.map Enum.parts)

def File.parts (f : File) : List Wire.Part := f.more.beside f.asked

def File.value (f : File) : Descriptor.File where
  name := f.name.getD ""
  package := f.package.getD ""
  messages := f.messages.map Message.value
  enums := f.enums.map Enum.value

/-- A request as it is sent.  The files as they stand in the source may come with it. -/
structure Request where
  wanted : List String := []
  parameter : Option String := none
  files : List File := []
  sources : List File := []
  more : Rest Exchange.unread [1, 2, 15, 17] := ∅

def Request.asked (r : Request) : List Wire.Part :=
  texts 1 r.wanted ++ texts 2 r.parameter.toList ++ messages 15 (r.files.map File.parts) ++
    messages 17 (r.sources.map File.parts)

def Request.parts (r : Request) : List Wire.Part := r.more.beside r.asked

def Request.encode (r : Request) : List UInt8 := encodeAll r.parts

def Request.value (r : Request) : Exchange.Request where
  wanted := r.wanted
  parameter := r.parameter.getD ""
  files := r.files.map File.value

/-! ## Read back -/

theorem number_lt_of_label (l : Label) : l.number < 4 := by
  cases l <;> decide

theorem number_lt_of_fieldType (t : FieldType) : t.number < 19 := by
  cases t <;> decide

theorem ofNumber?_of_label (l : Label) : Label.ofNumber? (l.number % 0x100000000) = some l := by
  have small : l.number < 0x100000000 := Nat.lt_trans (number_lt_of_label l) (by decide)
  rw [Nat.mod_eq_of_lt small, Label.ofNumber?_number]

theorem ofNumber?_of_fieldType (t : FieldType) :
    FieldType.ofNumber? (t.number % 0x100000000) = some t := by
  have small : t.number < 0x100000000 := Nat.lt_trans (number_lt_of_fieldType t) (by decide)
  rw [Nat.mod_eq_of_lt small, FieldType.ofNumber?_number]

theorem Field.known_asked (f : Field) : Known [1, 4, 5, 6] f.asked := by
  refine .append (.append (.append ?_ ?_) ?_) ?_
  · exact known_texts (by decide) _
  · refine known_numbers (by decide) fun v hv => ?_
    obtain ⟨l, -, rfl⟩ := Option.map_eq_some_iff.mp (Option.mem_toList.mp hv)
    exact Nat.lt_trans (number_lt_of_label l) (by decide)
  · refine known_numbers (by decide) fun v hv => ?_
    obtain ⟨t, -, rfl⟩ := Option.map_eq_some_iff.mp (Option.mem_toList.mp hv)
    exact Nat.lt_trans (number_lt_of_fieldType t) (by decide)
  · exact known_texts (by decide) _

theorem Field.reads (f : Field) : Reads Descriptor.Field.decode? f.parts f.value := by
  intro room deep small
  have read := (f.more.fits_beside f.known_asked (by decide)).reads room deep small
  have name : Record.text? 1 (records (f.more.beside f.asked)) = f.name :=
    f.more.text?_beside (by decide) (by simp [asked])
  have label : Record.choice? 4 Label.ofNumber? (records (f.more.beside f.asked)) = f.label :=
    f.more.choice?_beside Label.number ofNumber?_of_label (by decide) (by simp [asked])
  have type : Record.choice? 5 FieldType.ofNumber? (records (f.more.beside f.asked)) = f.type :=
    f.more.choice?_beside FieldType.number ofNumber?_of_fieldType (by decide) (by simp [asked])
  have typeName : Record.text? 6 (records (f.more.beside f.asked)) = f.typeName :=
    f.more.text?_beside (by decide) (by simp [asked])
  rw [Descriptor.Field.decode?, parts, read]
  simp only [Option.bind_eq_bind, Option.bind_some, Record.text, name, label, type, typeName]
  rfl

theorem Value.reads (v : Value) : Reads valueName? v.parts v.value := by
  intro room deep small
  have known : Known [1] v.asked := known_texts (by decide) _
  have read := (v.more.fits_beside known (by decide)).reads room deep small
  have name : Record.text? 1 (records (v.more.beside v.asked)) = v.name :=
    v.more.text?_beside (by decide) (by simp [asked])
  rw [valueName?, parts, read]
  simp only [Option.map_some, Record.text, name]
  rfl

theorem Enum.reads (e : Enum) : Reads Descriptor.Enum.decode? e.parts e.value := by
  intro room deep small
  have known : Known [1, 2] e.asked :=
    .append (known_texts (by decide) _) (known_messages (by decide) _)
  have read := (e.more.fits_beside known (by decide)).reads room deep small
  have name : Record.text? 1 (records (e.more.beside e.asked)) = e.name :=
    e.more.text?_beside (by decide) (by simp [asked])
  have values : inside? room valueName? (Record.blocks 2 (records (e.more.beside e.asked)))
      = some (e.values.map Value.value) :=
    e.more.inside?_beside (by decide) (by simp [asked])
      (fun v hv => by simp [asked, mem_messages hv]) (fun v _ => Value.reads v) deep small
  rw [Descriptor.Enum.decode?, parts, read]
  simp only [Option.bind_eq_bind, Option.bind_some, Record.text, name, values]
  rfl

theorem Message.parts_eq (m : Message) : m.parts = m.more.beside m.asked := by
  have all (ms : List Message) : partsAll ms = ms.map parts := by
    induction ms with
    | nil => rw [partsAll, List.map_nil]
    | cons m ms ih => rw [partsAll, List.map_cons, ih]
  cases m
  rw [parts, all, asked]

theorem Message.value_eq (m : Message) : m.value
    = ⟨m.name.getD "", m.fields.map Field.value, m.nested.map value, m.enums.map Enum.value⟩ := by
  have all (ms : List Message) : valueAll ms = ms.map value := by
    induction ms with
    | nil => rw [valueAll, List.map_nil]
    | cons m ms ih => rw [valueAll, List.map_cons, ih]
  cases m
  rw [value, all]

/-- The messages inside a message are read like all others. -/
theorem Message.decode?_eq (room : Nat) : Descriptor.Message.decode? room
    = Descriptor.Message.decodeWith? room (inside? room Descriptor.Message.decode?) := by
  cases room with
  | zero =>
    rw [Descriptor.Message.decode?]
    congr 1
    funext blocks
    cases blocks <;> rfl
  | succ room =>
    rw [Descriptor.Message.decode?]
    congr 1
    funext blocks
    cases blocks <;> rfl

theorem Message.reads_of_nested (m : Message)
    (nested : ∀ n ∈ m.nested, Reads Descriptor.Message.decode? n.parts n.value) :
    Reads Descriptor.Message.decode? m.parts m.value := by
  intro room deep small
  rw [parts_eq] at deep small ⊢
  have known : Known [1, 2, 3, 4] m.asked :=
    .append (.append (.append (known_texts (by decide) _) (known_messages (by decide) _))
      (known_messages (by decide) _)) (known_messages (by decide) _)
  have read := (m.more.fits_beside known (by decide)).reads room deep small
  have name : Record.text? 1 (records (m.more.beside m.asked)) = m.name :=
    m.more.text?_beside (by decide) (by simp [asked])
  have fields : inside? room Descriptor.Field.decode?
      (Record.blocks 2 (records (m.more.beside m.asked))) = some (m.fields.map Field.value) :=
    m.more.inside?_beside (by decide) (by simp [asked])
      (fun f hf => by simp [asked, mem_messages hf]) (fun f _ => f.reads) deep small
  have nested : inside? room Descriptor.Message.decode?
      (Record.blocks 3 (records (m.more.beside m.asked))) = some (m.nested.map Message.value) :=
    m.more.inside?_beside (by decide) (by simp [asked])
      (fun n hn => by simp [asked, mem_messages hn]) nested deep small
  have enums : inside? room Descriptor.Enum.decode?
      (Record.blocks 4 (records (m.more.beside m.asked))) = some (m.enums.map Enum.value) :=
    m.more.inside?_beside (by decide) (by simp [asked])
      (fun e he => by simp [asked, mem_messages he]) (fun e _ => e.reads) deep small
  rw [decode?_eq, Descriptor.Message.decodeWith?, read, value_eq]
  simp only [Option.bind_eq_bind, Option.bind_some, Record.text, name, fields, nested, enums]
  rfl

mutual

theorem Message.reads : (m : Message) → Reads Descriptor.Message.decode? m.parts m.value
  | ⟨name, fields, nested, enums, more⟩ =>
    reads_of_nested ⟨name, fields, nested, enums, more⟩ (reads_of_mem nested)

theorem Message.reads_of_mem : (ms : List Message) →
    ∀ m ∈ ms, Reads Descriptor.Message.decode? m.parts m.value
  | [] => nofun
  | m :: ms => List.forall_mem_cons.mpr ⟨m.reads, reads_of_mem ms⟩

end

theorem File.reads (f : File) : Reads Descriptor.File.decode? f.parts f.value := by
  intro room deep small
  have known : Known [1, 2, 4, 5] f.asked :=
    .append (.append (.append (known_texts (by decide) _) (known_texts (by decide) _))
      (known_messages (by decide) _)) (known_messages (by decide) _)
  have read := (f.more.fits_beside known (by decide)).reads room deep small
  have name : Record.text? 1 (records (f.more.beside f.asked)) = f.name :=
    f.more.text?_beside (by decide) (by simp [asked])
  have package : Record.text? 2 (records (f.more.beside f.asked)) = f.package :=
    f.more.text?_beside (by decide) (by simp [asked])
  have messages : inside? room Descriptor.Message.decode?
      (Record.blocks 4 (records (f.more.beside f.asked))) = some (f.messages.map Message.value) :=
    f.more.inside?_beside (by decide) (by simp [asked])
      (fun m hm => by simp [asked, mem_messages hm]) (fun m _ => m.reads) deep small
  have enums : inside? room Descriptor.Enum.decode?
      (Record.blocks 5 (records (f.more.beside f.asked))) = some (f.enums.map Enum.value) :=
    f.more.inside?_beside (by decide) (by simp [asked])
      (fun e he => by simp [asked, mem_messages he]) (fun e _ => e.reads) deep small
  rw [Descriptor.File.decode?, parts, read]
  simp only [Option.bind_eq_bind, Option.bind_some, Record.text, name, package, messages, enums]
  rfl

/-- A descriptor set that is not too deep or too long is received as it was meant. -/
theorem decodeSet?_encodeAll (files : List File)
    (deep : depthAll (messages 1 (files.map File.parts)) ≤ depthLimit)
    (small : (encodeAll (messages 1 (files.map File.parts))).length < 0x80000000) :
    decodeSet? (encodeAll (messages 1 (files.map File.parts))) = some (files.map File.value) := by
  have known : Known [1] (messages 1 (files.map File.parts)) := known_messages (by decide) _
  have read := records?_encodeAll (fun p hp => (known p hp).1) deep small
  have blocks : Record.blocks 1 (records (messages 1 (files.map File.parts)))
      = files.map fun f => encodeAll f.parts := by
    simp [blocks_records, Function.comp_def]
  rw [decodeSet?, read]
  simp only [Option.bind_eq_bind, Option.bind_some, blocks]
  exact inside?_of_reads (fun f _ => f.reads) (fun f hf => mem_messages hf) deep small

/-- A request that is not too deep or too long is received as it was meant. -/
theorem Request.decode?_encode (r : Request) (deep : depthAll r.parts ≤ depthLimit)
    (small : r.encode.length < 0x80000000) :
    Exchange.Request.decode? r.encode = some r.value := by
  have known : Known [1, 2, 15, 17] r.asked :=
    .append (.append (.append (known_texts (by decide) _) (known_texts (by decide) _))
      (known_messages (by decide) _)) (known_messages (by decide) _)
  have read := (r.more.fits_beside known (by decide)).reads depthLimit deep small
  have wanted : Record.texts 1 (records (r.more.beside r.asked)) = r.wanted := by
    rw [Record.texts, r.more.blocks_beside (by decide)]
    simp [asked, Function.comp_def]
  have parameter : Record.text? 2 (records (r.more.beside r.asked)) = r.parameter :=
    r.more.text?_beside (by decide) (by simp [asked])
  have files : inside? depthLimit Descriptor.File.decode?
      (Record.blocks 15 (records (r.more.beside r.asked))) = some (r.files.map File.value) :=
    r.more.inside?_beside (by decide) (by simp [asked])
      (fun f hf => by simp [asked, mem_messages hf]) (fun f _ => f.reads) deep small
  have sources : inside? depthLimit Descriptor.File.decode?
      (Record.blocks 17 (records (r.more.beside r.asked))) = some (r.sources.map File.value) :=
    r.more.inside?_beside (by decide) (by simp [asked])
      (fun f hf => by simp [asked, mem_messages hf]) (fun f _ => f.reads) deep small
  rw [Exchange.Request.decode?, encode, parts, read]
  simp only [Option.bind_eq_bind, Option.bind_some, Record.text, wanted, parameter, files, sources]
  rfl

/-! ## Descriptors as they are written

A descriptor is written with every field set and nothing besides.  What was sent that way means the
descriptor again, and its bytes are those of the descriptor. -/

theorem Rest.beside_empty {shape : Shape} {taken : List Nat} {known : List Wire.Part}
    (h : (known.map Part.number).Pairwise (· ≤ ·)) :
    (∅ : Rest shape taken).beside known = known := by
  have none : (∅ : Rest shape taken).parts = [] := rfl
  rw [beside, none, List.append_nil, inOrder_eq_self h]

/-- Four groups of parts with ascending numbers are in order. -/
theorem pairwise_groups {a b c d : ℕ} (hab : a ≤ b) (hbc : b ≤ c) (hcd : c ≤ d) (i j k l : ℕ) :
    (List.replicate i a ++ List.replicate j b ++ List.replicate k c
      ++ List.replicate l d).Pairwise (· ≤ ·) := by
  simp only [List.pairwise_append, List.pairwise_replicate, List.mem_append, List.mem_replicate]
  grind

def Field.ofDescriptor (f : Descriptor.Field) : Field where
  name := some f.name
  label := some f.label
  type := some f.type
  typeName := some f.typeName

def Value.ofName (name : String) : Value where
  name := some name

def Enum.ofDescriptor (e : Descriptor.Enum) : Enum where
  name := some e.name
  values := e.values.map Value.ofName

mutual

def Message.ofDescriptor : Descriptor.Message → Message
  | ⟨name, fields, nested, enums⟩ =>
    { name := some name, fields := fields.map Field.ofDescriptor, nested := ofDescriptors nested,
      enums := enums.map Enum.ofDescriptor }

def Message.ofDescriptors : List Descriptor.Message → List Message
  | [] => []
  | m :: ms => ofDescriptor m :: ofDescriptors ms

end

def File.ofDescriptor (f : Descriptor.File) : File where
  name := some f.name
  package := some f.package
  messages := f.messages.map Message.ofDescriptor
  enums := f.enums.map Enum.ofDescriptor

theorem Field.encode_eq (f : Descriptor.Field) :
    f.encode = encodeAll (ofDescriptor f).parts := by
  have parts : (ofDescriptor f).parts = (ofDescriptor f).asked :=
    Rest.beside_empty (by simp [asked, ofDescriptor])
  rw [parts, asked]
  simp [ofDescriptor, Descriptor.Field.encode, encodeAll_append]

theorem Value.encode_eq (name : String) : encodeText 1 name = encodeAll (ofName name).parts := by
  have parts : (ofName name).parts = (ofName name).asked :=
    Rest.beside_empty (by simp [asked, ofName])
  rw [parts, asked]
  simp [ofName]

theorem Enum.encode_eq (e : Descriptor.Enum) : e.encode = encodeAll (ofDescriptor e).parts := by
  have parts : (ofDescriptor e).parts = (ofDescriptor e).asked :=
    Rest.beside_empty (by simp [asked, ofDescriptor, List.pairwise_replicate])
  rw [parts, asked]
  simp [ofDescriptor, Descriptor.Enum.encode, encodeAll_append, List.flatMap_map, Value.encode_eq]

theorem Enum.value_ofDescriptor (e : Descriptor.Enum) : (ofDescriptor e).value = e := by
  simp [value, ofDescriptor, Function.comp_def, Value.value, Value.ofName]

namespace Message

theorem ofDescriptor_eq (m : Descriptor.Message) : ofDescriptor m =
    { name := some m.name, fields := m.fields.map Field.ofDescriptor,
      nested := m.nested.map ofDescriptor, enums := m.enums.map Enum.ofDescriptor } := by
  have all (ms : List Descriptor.Message) : ofDescriptors ms = ms.map ofDescriptor := by
    induction ms with
    | nil => rw [ofDescriptors, List.map_nil]
    | cons m ms ih => rw [ofDescriptors, List.map_cons, ih]
  cases m
  rw [ofDescriptor, all]

theorem encodeMessages_eq (n : Nat) (ms : List Descriptor.Message) :
    encodeMessages n ms = ms.flatMap fun m => encodeBlock n m.encode := by
  induction ms with
  | nil => rw [encodeMessages, List.flatMap_nil]
  | cons m ms ih => rw [encodeMessages, List.flatMap_cons, ih]

theorem encode_of_nested (m : Descriptor.Message)
    (nested : ∀ n ∈ m.nested, n.encode = encodeAll (ofDescriptor n).parts) :
    m.encode = encodeAll (ofDescriptor m).parts := by
  have parts : (ofDescriptor m).parts = (ofDescriptor m).asked := by
    rw [parts_eq, ofDescriptor_eq]
    refine Rest.beside_empty ?_
    simp only [asked, List.map_append, map_number_texts, map_number_messages]
    exact pairwise_groups (by decide) (by decide) (by decide) ..
  have inner : (m.nested.flatMap fun n => encodeBlock 3 n.encode)
      = m.nested.flatMap fun n => encodeBlock 3 (encodeAll (ofDescriptor n).parts) :=
    List.flatMap_congr fun n hn => by rw [nested n hn]
  rw [parts, asked, ofDescriptor_eq]
  cases m
  simp [Descriptor.Message.encode, encodeMessages_eq, encodeAll_append, List.flatMap_map,
    Field.encode_eq, Enum.encode_eq, inner]

theorem value_of_nested (m : Descriptor.Message)
    (nested : ∀ n ∈ m.nested, (ofDescriptor n).value = n) : (ofDescriptor m).value = m := by
  rw [value_eq, ofDescriptor_eq]
  have inner : m.nested.map (value ∘ ofDescriptor) = m.nested :=
    (List.map_congr_left nested).trans m.nested.map_id
  have fields : Field.value ∘ Field.ofDescriptor = id := rfl
  have enums : Enum.value ∘ Enum.ofDescriptor = id := funext Enum.value_ofDescriptor
  simp only [List.map_map, inner, fields, enums, List.map_id, Option.getD_some]
  cases m
  rfl

mutual

theorem encode_eq : (m : Descriptor.Message) → m.encode = encodeAll (ofDescriptor m).parts
  | ⟨name, fields, nested, enums⟩ =>
    encode_of_nested ⟨name, fields, nested, enums⟩ (encode_eq_of_mem nested)

theorem encode_eq_of_mem : (ms : List Descriptor.Message) →
    ∀ m ∈ ms, m.encode = encodeAll (ofDescriptor m).parts
  | [] => nofun
  | m :: ms => List.forall_mem_cons.mpr ⟨encode_eq m, encode_eq_of_mem ms⟩

end

mutual

theorem value_ofDescriptor : (m : Descriptor.Message) → (ofDescriptor m).value = m
  | ⟨name, fields, nested, enums⟩ =>
    value_of_nested ⟨name, fields, nested, enums⟩ (value_of_mem nested)

theorem value_of_mem : (ms : List Descriptor.Message) →
    ∀ m ∈ ms, (ofDescriptor m).value = m
  | [] => nofun
  | m :: ms => List.forall_mem_cons.mpr ⟨value_ofDescriptor m, value_of_mem ms⟩

end

end Message

theorem File.encode_eq (f : Descriptor.File) : f.encode = encodeAll (ofDescriptor f).parts := by
  have parts : (ofDescriptor f).parts = (ofDescriptor f).asked := by
    refine Rest.beside_empty ?_
    simp only [asked, List.map_append, map_number_texts, map_number_messages]
    exact pairwise_groups (by decide) (by decide) (by decide) ..
  rw [parts, asked]
  simp [ofDescriptor, Descriptor.File.encode, Message.encodeMessages_eq, encodeAll_append,
    List.flatMap_map, Message.encode_eq, Enum.encode_eq]

theorem File.value_ofDescriptor (f : Descriptor.File) : (ofDescriptor f).value = f := by
  have messages : Message.value ∘ Message.ofDescriptor = id := funext Message.value_ofDescriptor
  have enums : Enum.value ∘ Enum.ofDescriptor = id := funext Enum.value_ofDescriptor
  simp only [value, ofDescriptor, List.map_map, messages, enums, List.map_id, Option.getD_some]

/-- A descriptor set that is not too deep or too long is read back as it was written. -/
theorem decodeSet?_encodeSet (files : List Descriptor.File)
    (deep : depthAll (messages 1 (files.map fun f => (File.ofDescriptor f).parts)) ≤ depthLimit)
    (small : (encodeSet files).length < 0x80000000) :
    decodeSet? (encodeSet files) = some files := by
  have bytes : encodeSet files
      = encodeAll (messages 1 ((files.map File.ofDescriptor).map File.parts)) := by
    simp [encodeSet, List.flatMap_map, File.encode_eq]
  have values : (files.map File.ofDescriptor).map File.value = files := by
    rw [List.map_map, show File.value ∘ File.ofDescriptor = id from funext File.value_ofDescriptor,
      List.map_id]
  rw [bytes] at small ⊢
  rw [decodeSet?_encodeAll _ (by rwa [List.map_map]) small, values]

end SchemaTypes.Sent
