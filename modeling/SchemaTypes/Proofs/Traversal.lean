import SchemaTypes.Proofs.Position

/-!
# Proofs/Traversal — flattening lists every position of a forest, once and in pre-order

A message has an address in its forest: which of the outermost messages to enter, then which of
those inside it, and so on.  Addresses tell positions apart even where names do not, and pre-order
is their lexicographic order: a message comes before those inside it, and siblings come as declared.

`addresses` lists the addresses of a forest.  They ascend (`pairwise_addresses`), they are those at
which a message stands (`mem_addresses_iff`), and the messages there are `positions`
(`map_at?_addresses`).  So `positions`, and with it flattening, leaves out nothing and repeats
nothing.
-/

namespace SchemaTypes.Descriptor

/-! ## Addresses -/

/-- The message at an address inside a message, with the names of the messages around it.  The empty
address is that of the message itself. -/
def Message.at? : Message → List ℕ → Option (List String × Message)
  | m, [] => some ([], m)
  | m, i :: a => m.nested[i]?.bind fun inner => (inner.at? a).map fun p => (m.name :: p.1, p.2)

/-- The message at an address in a forest, with the names of the messages around it. -/
def at? (ms : List Message) : List ℕ → Option (List String × Message)
  | [] => none
  | i :: a => ms[i]?.bind fun m => m.at? a

theorem Message.at?_cons (m : Message) (i : ℕ) (a : List ℕ) :
    m.at? (i :: a) = (Descriptor.at? m.nested (i :: a)).map fun p => (m.name :: p.1, p.2) := by
  rw [at?, Descriptor.at?, Option.map_bind]
  rfl

/-- Behind a first message, each place is one further on. -/
theorem at?_cons_modifyHead (m : Message) (ms : List Message) (a : List ℕ) :
    at? (m :: ms) (a.modifyHead (· + 1)) = at? ms a := by
  cases a <;> rfl

mutual

/-- The addresses inside a message, its own first. -/
def Message.addresses : Message → List (List ℕ)
  | ⟨_, _, nested, _⟩ => [] :: addresses nested

/-- The addresses of a forest. -/
def addresses : List Message → List (List ℕ)
  | [] => []
  | m :: ms => m.addresses.map (0 :: ·) ++ (addresses ms).map (List.modifyHead (· + 1))

end

theorem Message.addresses_eq (m : Message) :
    m.addresses = [] :: Descriptor.addresses m.nested := by
  cases m
  rw [addresses]

/-- Every address of a forest enters a message. -/
theorem exists_cons_of_mem_addresses {a : List ℕ} : ∀ {ms : List Message}, a ∈ addresses ms →
    ∃ i inner, a = i :: inner
  | m :: ms, h => by
      rw [addresses, List.mem_append, List.mem_map, List.mem_map] at h
      rcases h with ⟨inner, -, rfl⟩ | ⟨next, hnext, rfl⟩
      · exact ⟨0, inner, rfl⟩
      · obtain ⟨i, inner, rfl⟩ := exists_cons_of_mem_addresses hnext
        exact ⟨i + 1, inner, rfl⟩

/-! ## Addresses ascend -/

theorem modifyHead_lt {a b : List ℕ} (h : a < b) :
    a.modifyHead (· + 1) < b.modifyHead (· + 1) := by
  cases a with
  | nil =>
    cases b with
    | nil => exact h
    | cons j b => exact List.nil_lt_cons _ _
  | cons i a =>
    cases b with
    | nil => exact absurd h (List.not_lt_nil _)
    | cons j b =>
      obtain hij | ⟨rfl, hab⟩ := List.cons_lt_cons_iff.mp h
      · exact List.cons_lt_cons_iff.mpr (.inl (Nat.succ_lt_succ hij))
      · exact List.cons_lt_cons_iff.mpr (.inr ⟨rfl, hab⟩)

mutual

theorem Message.pairwise_addresses : ∀ m : Message, m.addresses.Pairwise (· < ·)
  | ⟨name, fields, nested, enums⟩ => by
      rw [Message.addresses, List.pairwise_cons]
      refine ⟨fun a ha => ?_, pairwise_addresses nested⟩
      obtain ⟨i, inner, rfl⟩ := exists_cons_of_mem_addresses ha
      exact List.nil_lt_cons _ _

/-- The addresses of a forest ascend, so none is listed twice. -/
theorem pairwise_addresses : ∀ ms : List Message, (addresses ms).Pairwise (· < ·)
  | [] => by
      rw [addresses]
      exact .nil
  | m :: ms => by
      rw [addresses, List.pairwise_append, List.pairwise_map, List.pairwise_map]
      refine ⟨m.pairwise_addresses.imp fun h => List.cons_lt_cons_iff.mpr (.inr ⟨rfl, h⟩),
        (pairwise_addresses ms).imp modifyHead_lt, fun a ha b hb => ?_⟩
      -- Whatever is inside the first message comes before what is inside the others.
      obtain ⟨inner, -, rfl⟩ := List.mem_map.mp ha
      obtain ⟨next, hnext, rfl⟩ := List.mem_map.mp hb
      obtain ⟨i, other, rfl⟩ := exists_cons_of_mem_addresses hnext
      exact List.cons_lt_cons_iff.mpr (.inl (Nat.succ_pos i))

end

/-! ## What stands at the addresses -/

mutual

theorem Message.map_at?_addresses : ∀ m : Message, m.addresses.map m.at? = m.positions.map some
  | ⟨name, fields, nested, enums⟩ => by
      have inside : (Descriptor.addresses nested).map (Message.at? ⟨name, fields, nested, enums⟩)
          = ((Descriptor.addresses nested).map (Descriptor.at? nested)).map
            (Option.map fun p => (name :: p.1, p.2)) := by
        rw [List.map_map]
        refine List.map_congr_left fun a ha => ?_
        obtain ⟨i, inner, rfl⟩ := exists_cons_of_mem_addresses ha
        exact Message.at?_cons ..
      rw [Message.addresses, Message.positions, List.map_cons, List.map_cons, inside,
        map_at?_addresses nested, List.map_map, List.map_map]
      rfl

/-- At the addresses of a forest, in their order, stand the messages at its positions. -/
theorem map_at?_addresses : ∀ ms : List Message,
    (addresses ms).map (at? ms) = (positions ms).map some
  | [] => by rw [addresses, positions, List.map_nil, List.map_nil]
  | m :: ms => by
      have next : at? (m :: ms) ∘ List.modifyHead (· + 1) = at? ms :=
        funext (at?_cons_modifyHead m ms)
      rw [addresses, positions, List.map_append, List.map_append, List.map_map, List.map_map, next,
        map_at?_addresses ms, ← m.map_at?_addresses]
      rfl

end

theorem cons_mem_addresses {m : Message} {a : List ℕ} (ha : a ∈ m.addresses) :
    ∀ {ms : List Message} {i : ℕ}, ms[i]? = some m → i :: a ∈ addresses ms
  | m' :: ms, 0, hm => by
      obtain rfl := Option.some.inj hm
      rw [addresses]
      exact List.mem_append_left _ (List.mem_map_of_mem ha)
  | m' :: ms, i + 1, hm => by
      rw [addresses]
      exact List.mem_append_right _
        (List.mem_map.mpr ⟨i :: a, cons_mem_addresses ha hm, rfl⟩)

theorem Message.mem_addresses_of_at? {a : List ℕ} {m : Message} {p : List String × Message}
    (h : m.at? a = some p) : a ∈ m.addresses := by
  induction a generalizing m p with
  | nil =>
    rw [addresses_eq]
    exact List.mem_cons_self
  | cons i a ih =>
    rw [at?_cons, Option.map_eq_some_iff] at h
    obtain ⟨q, hq, -⟩ := h
    obtain ⟨inner, hinner, hq⟩ := Option.bind_eq_some_iff.mp hq
    rw [addresses_eq]
    exact List.mem_cons_of_mem _ (cons_mem_addresses (ih hq) hinner)

/-- The addresses of a forest are those at which a message stands. -/
theorem mem_addresses_iff {ms : List Message} {a : List ℕ} :
    a ∈ addresses ms ↔ (at? ms a).isSome := by
  constructor
  · intro ha
    have listed : at? ms a ∈ (positions ms).map some := by
      rw [← map_at?_addresses]
      exact List.mem_map_of_mem ha
    obtain ⟨p, -, hp⟩ := List.mem_map.mp listed
    rw [← hp]
    rfl
  · intro h
    obtain ⟨p, hp⟩ := Option.isSome_iff_exists.mp h
    cases a with
    | nil => nomatch hp
    | cons i a =>
      obtain ⟨m, hm, hp⟩ := Option.bind_eq_some_iff.mp hp
      exact cons_mem_addresses (m.mem_addresses_of_at? hp) hm

/-- A list of messages, with the names around each, is the pre-order traversal of a forest: it holds
what stands at the addresses of the forest, at each of them once and in their order. -/
def IsTraversal (ms : List Message) (ps : List (List String × Message)) : Prop :=
  ∃ places : List (List ℕ), places.Pairwise (· < ·) ∧ (∀ a, a ∈ places ↔ (at? ms a).isSome) ∧
    places.map (at? ms) = ps.map some

theorem isTraversal_positions (ms : List Message) : IsTraversal ms (positions ms) :=
  ⟨addresses ms, pairwise_addresses ms, fun _ => mem_addresses_iff, map_at?_addresses ms⟩

/-! ## The schema file -/

/-- The full name of a path in a file: the package, if there is one, and each segment of the path,
each behind a dot. -/
def File.pathName (f : File) (path : List String) : String :=
  (if f.package = "" then "" else "." ++ f.package) ++ String.join (path.map ("." ++ ·))

/-- An enum of a file, declared inside the messages of the given names. -/
def File.enumIn (f : File) (outer : List String) (e : Enum) : Schema.Enum where
  name := e.name
  fullName := f.pathName (outer ++ [e.name])
  package := f.package
  values := e.values
  fileName := f.name

theorem foldl_under_eq_join (scope : String) (path : List String) :
    path.foldl under scope = scope ++ String.join (path.map ("." ++ ·)) := by
  induction path generalizing scope with
  | nil => simp
  | cons name path ih =>
    rw [List.foldl_cons, ih, List.map_cons, String.join_cons, under]
    simp only [String.append_assoc]

theorem under_foldl_eq_pathName (f : File) (outer : List String) (name : String) :
    under (outer.foldl under f.scope) name = f.pathName (outer ++ [name]) := by
  rw [File.pathName, ← File.scope, ← foldl_under_eq_join, List.foldl_append]
  rfl

theorem toSchema_eq_enumIn (f : File) (outer : List String) :
    Enum.toSchema f (outer.foldl under f.scope) = f.enumIn outer := by
  funext e
  rw [Enum.toSchema, File.enumIn, under_foldl_eq_pathName]

/-- The enums of one position are declared inside the message there. -/
theorem enumsAt_eq_map (f : File) (p : List String × Message) :
    enumsAt f f.scope p = p.2.enums.map (f.enumIn (p.1 ++ [p.2.name])) := by
  rw [enumsAt, ← toSchema_eq_enumIn, List.foldl_append]
  rfl

/-- A message of a file, declared inside the messages of the given names. -/
def File.messageIn (f : File) (outer : List String) (m : Message) : Schema.Message where
  name := m.name
  fullName := f.pathName (outer ++ [m.name])
  package := f.package
  fields := m.fields.map fun field =>
    { name := field.name, kind := field.type.number, typeName := field.typeName,
      repeated := decide (field.label = .repeated) }
  fileName := f.name

theorem Field.toSchema_eq (field : Field) : field.toSchema =
    { name := field.name, kind := field.type.number, typeName := field.typeName,
      repeated := decide (field.label = .repeated) } := by
  rw [toSchema, beq_eq_decide]

theorem toSchema_eq_messageIn (f : File) (outer : List String) :
    Message.toSchema f (outer.foldl under f.scope) = f.messageIn outer := by
  funext m
  rw [Message.toSchema, File.messageIn, under_foldl_eq_pathName, funext Field.toSchema_eq]

/-- The messages of a schema file are those at the positions, in pre-order. -/
theorem File.messages_toSchema (f : File) :
    f.toSchema.messages = (positions f.messages).map fun p => f.messageIn p.1 p.2 := by
  change flattenMessages f f.scope f.messages = _
  rw [flattenMessages_eq_map]
  exact List.map_congr_left fun p _ => congrFun (toSchema_eq_messageIn f p.1) p.2

theorem messageIn_mem {f : File} {outer : List String} {m : Message}
    (h : MessageAt f.messages outer m) : f.messageIn outer m ∈ f.toSchema.messages :=
  mem_messages_toSchema.mpr ⟨outer, m, h, by rw [toSchema_eq_messageIn]⟩

theorem enumIn_mem {f : File} {outer : List String} {e : Enum} (h : EnumAt f outer e) :
    f.enumIn outer e ∈ f.toSchema.enums :=
  mem_enums_toSchema.mpr ⟨outer, e, h, by rw [toSchema_eq_enumIn]⟩

/-- The enums of a file, those inside messages in the order of the messages given. -/
def File.enumsAlong (f : File) (ps : List (List String × Message)) : List Schema.Enum :=
  f.enums.map (f.enumIn []) ++ ps.flatMap fun p => p.2.enums.map (f.enumIn (p.1 ++ [p.2.name]))

/-- The enums of a schema file are those of the file and of the positions, in post-order. -/
theorem File.enums_toSchema (f : File) : f.toSchema.enums = f.enumsAlong (closings f.messages) := by
  rw [enumsAlong, ← toSchema_eq_enumIn, ← funext (enumsAt_eq_map f), ← enumsInside_eq_flatMap]
  rfl

/-- A schema file lists the messages of its descriptor in pre-order, each under the full name of its
position and with its fields, in order.  Its enums are those of the file, in order, and then those
of one position after the other, each position once and its enums in order. -/
theorem toSchema_lists_forest (f : File) : ∃ ps order : List (List String × Message),
    IsTraversal f.messages ps ∧ order.Perm ps ∧
    f.toSchema.messages = ps.map (fun p =>
      { name := p.2.name
        fullName := f.pathName (p.1 ++ [p.2.name])
        package := f.package
        fields := p.2.fields.map fun field =>
          { name := field.name, kind := field.type.number, typeName := field.typeName,
            repeated := decide (field.label = .repeated) }
        fileName := f.name }) ∧
    f.toSchema.enums = f.enums.map (f.enumIn []) ++
      order.flatMap (fun p => p.2.enums.map (f.enumIn (p.1 ++ [p.2.name]))) ∧
    f.toSchema.enums.Perm (f.enums.map (f.enumIn []) ++
      ps.flatMap fun p => p.2.enums.map (f.enumIn (p.1 ++ [p.2.name]))) := by
  refine ⟨positions f.messages, closings f.messages, isTraversal_positions f.messages,
    closings_perm f.messages, f.messages_toSchema, f.enums_toSchema, ?_⟩
  rw [f.enums_toSchema]
  exact ((closings_perm f.messages).flatMap_right _).append_left _

end SchemaTypes.Descriptor
