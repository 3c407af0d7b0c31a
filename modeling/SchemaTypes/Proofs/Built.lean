import SchemaTypes.Proofs.Declarations
import SchemaTypes.Proofs.LastEntry

/-!
# Proofs/Built — a file is built whole, or stops at its first unknown field

A field is unknown when the message or the enum it refers to is not registered; no other field can
fail (`field_eq_error_iff_unknown`), and the type of a known one is decided by its kind and its type
name alone (`fieldBase_of_known`).  Going up from fields to messages and from messages to the file,
the first unknown field is the one that is refused, and without one every field gets its type:

    field_eq_error_iff_unknown  ──▸  ofMessage_eq_error_iff  ──▸  build_eq_error_iff
    field_of_known              ──▸  ofMessage_of_known      ──▸  build_of_known

The options have no part in what is refused.
-/

namespace SchemaTypes

open Schema

/-! ## Unknown fields -/

namespace Schema

/-- The field refers to a message, or to an enum, that is not registered. -/
def Field.Unknown (r : Registry) (fd : Field) : Prop :=
  (fd.kind = 11 ∧ Name.canonical fd.typeName ∉ r.messages.keys) ∨
    (fd.kind = 14 ∧ Name.canonical fd.typeName ∉ r.enums.keys)

instance (r : Registry) (fd : Field) : Decidable (fd.Unknown r) :=
  inferInstanceAs (Decidable (_ ∨ _))

/-- The field refers to a message, or to an enum, that none of the files has, whatever the leading
dots of either name. -/
def Field.Absent (files : List File) (fd : Field) : Prop :=
  (fd.kind = 11 ∧ ∀ m ∈ files.flatMap File.messages, Name.bare m.fullName ≠ Name.bare fd.typeName) ∨
    (fd.kind = 14 ∧ ∀ e ∈ files.flatMap File.enums, Name.bare e.fullName ≠ Name.bare fd.typeName)

/-- In a registry made of files, the unknown fields are those that no file has an answer to. -/
theorem Field.unknown_ofFiles_iff {files : List File} {fd : Field} :
    fd.Unknown (.ofFiles files) ↔ fd.Absent files := by
  rw [Unknown, Absent, ← Table.get?_eq_none_iff, ← Table.get?_eq_none_iff,
    Registry.messages_ofFiles, Registry.enums_ofFiles, find?_reverse_eq_none_iff,
    find?_reverse_eq_none_iff]
  simp only [ne_eq, Name.canonical_eq_iff]

/-- The look-up of what an unknown field refers to, and of no other field, is refused. -/
theorem Field.unknown_iff {r : Registry} {fd : Field} : fd.Unknown r ↔
    (fd.kind = 11 ∧ ∃ u, r.message fd.typeName = .error u) ∨
      (fd.kind = 14 ∧ ∃ u, r.enum fd.typeName = .error u) := by
  rw [Unknown, Registry.exists_message_eq_error_iff, Registry.exists_enum_eq_error_iff,
    Table.get?_eq_none_iff, Table.get?_eq_none_iff]

theorem Unresolved.nonempty_some (s : String) :
    nonempty (some s) = if s = "" then none else some s := by
  by_cases h : s = "" <;> simp [nonempty, Option.filter, h]

end Schema

namespace Declaration

variable {options : Options} {registry : Registry} {f : File} {m : Message} {fd : Field}
  {u : Unresolved}

/-! ## What is refused -/

/-- The refusal of an unknown field of a message. -/
def refusal (m : Message) (fd : Field) : Unresolved where
  typeName := fd.typeName
  kind := if fd.kind = 11 then "message" else "enum"
  fieldName := some fd.name
  messageName := if Name.bare m.fullName = "" then none else some (Name.bare m.fullName)

/-- The first unknown field of a file: no field before it in its message is unknown, and none in a
message before that. -/
def FirstUnknown (registry : Registry) (f : File) (m : Message) (fd : Field) : Prop :=
  IsFirst (fun m => ∃ fd ∈ m.fields, fd.Unknown registry) f.messages m ∧
    IsFirst (Field.Unknown registry) m.fields fd

theorem refusal_of_message (hk : fd.kind = 11) : refusal m fd =
    Unresolved.within { typeName := fd.typeName, kind := "message" } fd.name
      (Name.bare m.fullName) := by
  simp [refusal, Unresolved.within, Unresolved.nonempty_some, hk]

theorem refusal_of_enum (hk : fd.kind = 14) : refusal m fd =
    Unresolved.within { typeName := fd.typeName, kind := "enum" } fd.name
      (Name.bare m.fullName) := by
  simp [refusal, Unresolved.within, Unresolved.nonempty_some, hk]

/-- A field fails exactly when it is unknown, and then it is refused by name. -/
theorem field_eq_error_iff_unknown :
    field options registry (Name.bare m.fullName) fd = .error u ↔
      fd.Unknown registry ∧ u = refusal m fd := by
  rw [field_eq_error_iff, Field.Unknown, ← Table.get?_eq_none_iff, ← Table.get?_eq_none_iff]
  simp only [fieldBase_eq_error_iff, Registry.message_eq_error_iff, Registry.enum_eq_error_iff]
  constructor
  · rintro ⟨v, ⟨hk, hnone, rfl⟩ | ⟨hk, hnone, rfl⟩, rfl⟩
    · exact ⟨.inl ⟨hk, hnone⟩, (refusal_of_message hk).symm⟩
    · exact ⟨.inr ⟨hk, hnone⟩, (refusal_of_enum hk).symm⟩
  · rintro ⟨⟨hk, hnone⟩ | ⟨hk, hnone⟩, rfl⟩
    · exact ⟨_, .inl ⟨hk, hnone, rfl⟩, (refusal_of_message hk).symm⟩
    · exact ⟨_, .inr ⟨hk, hnone, rfl⟩, (refusal_of_enum hk).symm⟩

/-- A message fails exactly by its first unknown field. -/
theorem ofMessage_eq_error_iff : ofMessage options registry m = .error u ↔
    ∃ fd, IsFirst (Field.Unknown registry) m.fields fd ∧ u = refusal m fd := by
  have fails (fd : Field) : (∃ u, field options registry (Name.bare m.fullName) fd = .error u) ↔
      fd.Unknown registry := by
    simp [field_eq_error_iff_unknown]
  rw [ofMessage, map_eq_error_iff, mapM_eq_error_iff_isFirst fails]
  refine exists_congr fun fd => and_congr_right fun first => ?_
  obtain ⟨-, -, -, unknown, -⟩ := first
  rw [field_eq_error_iff_unknown, and_iff_right unknown]

theorem exists_ofMessage_eq_error_iff_unknown :
    (∃ u, ofMessage options registry m = .error u) ↔ ∃ fd ∈ m.fields, fd.Unknown registry := by
  simp only [exists_ofMessage_eq_error_iff, Field.unknown_iff]

/-- A file fails exactly by its first unknown field, whatever the options. -/
theorem build_eq_error_iff : build options registry f = .error u ↔
    ∃ m fd, FirstUnknown registry f m fd ∧ u = refusal m fd := by
  rw [build, map_eq_error_iff,
    mapM_eq_error_iff_isFirst fun _ => exists_ofMessage_eq_error_iff_unknown]
  simp only [ofMessage_eq_error_iff, FirstUnknown, and_assoc, exists_and_left]

/-! ## What is built -/

/-- The type of one value of a field, by the field's kind and type name. -/
def baseType (options : Options) (registry : Registry) (kind : Int) (typeName : String) :
    TypeExpr :=
  (fieldBase options registry { name := "", kind, typeName }).toOption.getD .unknown

/-- No value of a field is an array: that is for repetition to say. -/
theorem baseType_ne_array (kind : Int) (typeName : String) (t : TypeExpr) :
    baseType options registry kind typeName ≠ .array t := by
  unfold baseType
  cases hbase : fieldBase options registry { name := "", kind, typeName } with
  | error u => exact nofun
  | ok base =>
    obtain ⟨-, m, -, rfl⟩ | ⟨-, e, -, rfl⟩ | ⟨-, -, word, rfl⟩ := fieldBase_cases hbase
    · exact nofun
    · cases options.embedEnums <;> exact nofun
    · exact nofun

theorem fieldBase_of_known (known : ¬fd.Unknown registry) :
    fieldBase options registry fd = .ok (baseType options registry fd.kind fd.typeName) := by
  -- Neither the name of a field nor its repetition is read.
  have read : fieldBase options registry { name := "", kind := fd.kind, typeName := fd.typeName }
      = fieldBase options registry fd := rfl
  rw [baseType, read]
  cases hbase : fieldBase options registry fd with
  | ok base => rfl
  | error u =>
    refine absurd (Field.unknown_iff.mpr ?_) known
    exact (fieldBase_eq_error_iff.mp hbase).imp (And.imp_right fun h => ⟨u, h⟩)
      (And.imp_right fun h => ⟨u, h⟩)

/-- The name and the type of a known field. -/
def typed (options : Options) (registry : Registry) (fd : Field) : String × TypeExpr :=
  (fd.name, if fd.repeated then .array (baseType options registry fd.kind fd.typeName)
    else baseType options registry fd.kind fd.typeName)

theorem field_of_known (known : ¬fd.Unknown registry) (owner : String) :
    field options registry owner fd = .ok (typed options registry fd) :=
  field_eq_ok_iff.mpr ⟨_, fieldBase_of_known known, rfl⟩

theorem ofMessage_of_known (known : ∀ fd ∈ m.fields, ¬fd.Unknown registry) :
    ofMessage options registry m
      = .ok ⟨messageName options m, .record (m.fields.map (typed options registry))⟩ := by
  rw [ofMessage, mapM_eq_ok_map fun fd hfd => field_of_known (known fd hfd) _]
  rfl

theorem build_of_known (known : ∀ m ∈ f.messages, ∀ fd ∈ m.fields, ¬fd.Unknown registry) :
    build options registry f = .ok (f.enums.map (ofEnum options) ++ f.messages.map fun m =>
      ⟨messageName options m, .record (m.fields.map (typed options registry))⟩) := by
  rw [build, mapM_eq_ok_map fun m hm => ofMessage_of_known (known m hm)]
  rfl

/-- A file fails exactly when some field of it is unknown, and then by the first one, which is told
with its message.  Otherwise it gives a union for each enum and a record for each message, in order:
a field keeps its place and its name, and its type is what its kind and type name say — an array of
that exactly when it is repeated.  In a registry made of files, to be unknown is to be in none. -/
theorem build_whole_or_first_unknown (options : Options) (registry : Registry) (f : File) :
    ((∃ u, build options registry f = .error u) ↔
        ∃ m ∈ f.messages, ∃ fd ∈ m.fields, fd.Unknown registry) ∧
      (∀ u, build options registry f = .error u ↔
        ∃ m fd, FirstUnknown registry f m fd ∧ u = refusal m fd) ∧
      ((¬∃ m ∈ f.messages, ∃ fd ∈ m.fields, fd.Unknown registry) →
        build options registry f = .ok (
          f.enums.map (fun e => ⟨enumName options e, .alternatives e.values⟩) ++
          f.messages.map fun m => ⟨messageName options m, .record (m.fields.map fun fd =>
            (fd.name, if fd.repeated then .array (baseType options registry fd.kind fd.typeName)
              else baseType options registry fd.kind fd.typeName))⟩)) ∧
      (∀ kind typeName t, baseType options registry kind typeName ≠ .array t) ∧
      ∀ files, registry = .ofFiles files → ∀ fd : Field, fd.Unknown registry ↔ fd.Absent files := by
  refine ⟨?_, fun u => build_eq_error_iff, fun known => ?_, baseType_ne_array, ?_⟩
  · simp only [exists_build_eq_error_iff, Field.unknown_iff]
  · simp only [not_exists, not_and] at known
    exact build_of_known known
  · rintro files rfl fd
    exact Field.unknown_ofFiles_iff

/-- A file with two parcels.  The second one has stamps, of an enum that goes by some name, and lies
in another parcel. -/
def parcelFile (stamp outer : String) : File where
  name := "parcel.proto"
  package := "post"
  messages := [
    { name := "Parcel", fullName := ".post.Parcel", package := "post",
      fields := [{ name := "weight", kind := 2 }] },
    { name := "Inner", fullName := ".post.Parcel.Inner", package := "post",
      fields := [{ name := "stamps", kind := 14, typeName := stamp, repeated := true },
        { name := "outer", kind := 11, typeName := outer }] }]
  enums := [{ name := "Stamp", fullName := ".post.Stamp", package := "post",
              values := ["SMALL", "LARGE"] }]

/-- With all names known the file is built whole; with two unknown ones the first is told. -/
theorem build_whole_or_first_unknown_parcel :
    build {} (.ofFiles [parcelFile "post.Stamp" ".post.Parcel"])
        (parcelFile "post.Stamp" ".post.Parcel")
      = .ok [⟨"Stamp", .alternatives ["SMALL", "LARGE"]⟩, ⟨"Parcel", .record [("weight", .float)]⟩,
          ⟨"ParcelInner", .record [("stamps", .array (.reference "Stamp")),
            ("outer", .reference "Parcel")]⟩] ∧
    build {} (.ofFiles [parcelFile "Stamp" "Parcel"]) (parcelFile "Stamp" "Parcel")
      = .error ⟨"Stamp", "enum", some "stamps", some "post.Parcel.Inner"⟩ := by
  constructor
  · exact (build_whole_or_first_unknown {} (.ofFiles [parcelFile "post.Stamp" ".post.Parcel"])
      (parcelFile "post.Stamp" ".post.Parcel")).2.2.1 (by decide)
  · refine ((build_whole_or_first_unknown {} (.ofFiles [parcelFile "Stamp" "Parcel"])
      (parcelFile "Stamp" "Parcel")).2.1 _).mpr
        ⟨_, _, ⟨⟨[_], [], rfl, ?_, ?_⟩, [], [_], rfl, ?_, ?_⟩, rfl⟩
    · exact ⟨_, List.mem_cons_self, by decide⟩
    · decide
    · decide
    · exact nofun

end Declaration

end SchemaTypes
