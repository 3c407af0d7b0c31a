import SchemaTypes.Proofs.Built
import SchemaTypes.Proofs.References

/-!
# Proofs/Wording — one file under two settings of the switches

The switches have no part in whether a file is built, nor in what its declarations consist of: one
per enum and one per message, with the fields in their places.  What they do decide is the
`Wording`: how enums and messages are named and which types the fields get.  `build_eq_ok_wording`
says so once, for any two settings.  A field that refers to a message or an enum finds the same one
under all of them, and gets its type from it (`baseType_of_message`, `baseType_of_enum`).

Here the wordings with and without embedded enums are compared: embedding writes out, in the place
of each reference to an enum, what the enum is declared as (`embedding_is_inlining`).
-/

namespace SchemaTypes

open Schema

/-! ## Wordings -/

/-- How a file is worded: what its enums and messages are called, and what types its fields get. -/
structure Wording where
  enumName : Enum → String
  messageName : Message → String
  type : Field → TypeExpr

/-- The declarations of a file in a wording: for each enum the union of its values, then for each
message the record of its fields. -/
def Wording.declarations (w : Wording) (f : File) : List Declaration :=
  f.enums.map (fun e => ⟨w.enumName e, .alternatives e.values⟩) ++
    f.messages.map fun m =>
      ⟨w.messageName m, .record (m.fields.map fun fd => (fd.name, w.type fd))⟩

namespace Declaration

variable {options options' : Options} {registry : Registry} {f : File} {fd : Field}
  {ds : List Declaration} {u : Unresolved}

/-- The wording under some options, for the fields that are known to a registry. -/
def wording (options : Options) (registry : Registry) : Wording where
  enumName := enumName options
  messageName := messageName options
  type fd := (typed options registry fd).2

/-- A file fails alike under all options. -/
theorem build_eq_error_congr :
    build options registry f = .error u ↔ build options' registry f = .error u := by
  rw [build_eq_error_iff, build_eq_error_iff]

/-- A file that is built under some options has no unknown field. -/
theorem known_of_build (built : build options registry f = .ok ds) :
    ∀ m ∈ f.messages, ∀ fd ∈ m.fields, ¬fd.Unknown registry := by
  intro m hm fd hfd unknown
  have refused : ∃ u, build options registry f = .error u :=
    exists_build_eq_error_iff.mpr ⟨m, hm, fd, hfd, Field.unknown_iff.mp unknown⟩
  obtain ⟨u, hu⟩ := refused
  exact ne_ok_of_eq_error hu ds built

/-- A file that is built under some options is built under all, each time in their wording. -/
theorem build_eq_ok_wording (built : build options registry f = .ok ds) (options' : Options) :
    build options' registry f = .ok ((wording options' registry).declarations f) :=
  build_of_known (known_of_build built)

theorem eq_declarations_of_build (built : build options registry f = .ok ds) :
    ds = (wording options registry).declarations f :=
  Except.ok.inj (built.symm.trans (build_eq_ok_wording built options))

/-! ## The type of a field under all options -/

/-- Of a field, its type reads the kind and the type name alone. -/
theorem baseType_eq_fieldBase : baseType options registry fd.kind fd.typeName
    = (fieldBase options registry fd).toOption.getD .unknown := rfl

theorem baseType_of_message {m : Message} (hk : fd.kind = 11)
    (hm : registry.message fd.typeName = .ok m) :
    baseType options registry fd.kind fd.typeName = .reference (messageName options m) := by
  rw [baseType_eq_fieldBase, fieldBase, sort_eq_message_iff.mpr hk]
  simp only [hm]
  rfl

theorem baseType_of_enum {e : Enum} (hk : fd.kind = 14)
    (he : registry.enum fd.typeName = .ok e) :
    baseType options registry fd.kind fd.typeName
      = if options.embedEnums then .alternatives e.values else .reference (enumName options e) := by
  rw [baseType_eq_fieldBase, fieldBase, sort_eq_enum_iff.mpr hk]
  simp only [he]
  rfl

/-- Where nothing is referred to, no option has a part in the type. -/
theorem baseType_congr (hmessage : fd.kind ≠ 11) (henum : fd.kind ≠ 14)
    (options options' : Options) :
    baseType options registry fd.kind fd.typeName
      = baseType options' registry fd.kind fd.typeName := by
  rw [baseType_eq_fieldBase, baseType_eq_fieldBase, fieldBase, fieldBase]
  cases hsort : fd.sort with
  | message => exact absurd (sort_eq_message_iff.mp hsort) hmessage
  | enum => exact absurd (sort_eq_enum_iff.mp hsort) henum
  | _ => rfl

/-- A known field refers to a message that is found, to an enum that is found, or to nothing. -/
theorem refers_of_known (known : ¬fd.Unknown registry) :
    (fd.kind = 11 ∧ ∃ m, registry.message fd.typeName = .ok m) ∨
      (fd.kind = 14 ∧ ∃ e, registry.enum fd.typeName = .ok e) ∨ (fd.kind ≠ 11 ∧ fd.kind ≠ 14) := by
  have base : fieldBase {} registry fd = .ok _ := fieldBase_of_known known
  obtain ⟨hk, m, hm, -⟩ | ⟨hk, e, he, -⟩ | ⟨hmessage, henum, -⟩ := fieldBase_cases base
  · exact .inl ⟨hk, m, hm⟩
  · exact .inr (.inl ⟨hk, e, he⟩)
  · exact .inr (.inr ⟨hmessage, henum⟩)

/-! ## Embedded enums -/

/-- The types of a field without and with embedded enums: the same, unless the field refers to an
enum.  Then it is the name of the enum on the one side and its values, in order, on the other —
on both sides in an array if the field is repeated. -/
inductive Inlines (options : Options) (registry : Registry) (fd : Field) :
    TypeExpr → TypeExpr → Prop
  | same {t : TypeExpr} : fd.kind ≠ 14 → Inlines options registry fd t t
  | single {e : Enum} : fd.kind = 14 → fd.repeated = false → registry.enum fd.typeName = .ok e →
      Inlines options registry fd (.reference (enumName options e)) (.alternatives e.values)
  | repeated {e : Enum} : fd.kind = 14 → fd.repeated = true → registry.enum fd.typeName = .ok e →
      Inlines options registry fd (.array (.reference (enumName options e)))
        (.array (.alternatives e.values))

theorem inlines_of_known (known : ¬fd.Unknown registry) (always : Bool) :
    Inlines ⟨always, false⟩ registry fd (typed ⟨always, false⟩ registry fd).2
      (typed ⟨always, true⟩ registry fd).2 := by
  unfold typed
  obtain ⟨hk, m, hm⟩ | ⟨hk, e, he⟩ | ⟨hmessage, henum⟩ := refers_of_known known
  · rw [baseType_of_message hk hm, baseType_of_message hk hm]
    exact .same (by rw [hk]; decide)
  · rw [baseType_of_enum hk he, baseType_of_enum hk he]
    cases hrepeated : fd.repeated with
    | false => exact .single hk hrepeated he
    | true => exact .repeated hk hrepeated he
  · rw [baseType_congr hmessage henum ⟨always, false⟩ ⟨always, true⟩]
    exact .same henum

/-- The only enum of its full name is declared, in every file that lists it, as the union of its
values. -/
theorem declared_of_onlyEnum {files : List File} {e e' : Enum} (only : OnlyEnum files e.fullName e)
    {g : File} (hg : g ∈ files) {k : ℕ} (he' : g.enums[k]? = some e')
    (same : Name.canonical e'.fullName = Name.canonical e.fullName)
    (built : build options registry g = .ok ds) :
    ds[k]? = some ⟨enumName options e, .alternatives e.values⟩ := by
  have listed : e' ∈ (files.flatMap File.enums).filter
      (Name.canonical ·.fullName == Name.canonical e.fullName) :=
    List.mem_filter.mpr ⟨List.mem_flatMap.mpr ⟨g, hg, List.mem_of_getElem? he'⟩,
      beq_iff_eq.mpr same⟩
  rw [only, List.mem_singleton] at listed
  exact getElem?_build_enum built (listed ▸ he')

/-- Embedding enums is inlining them.  It changes neither whether a file is built nor by what it
fails, and neither names nor enums nor the fields of a record; but the type of each field that
refers to an enum has the values of the enum for its name.  If the enum is the only one of its full
name, those values are what it is declared as in the file that lists it. -/
theorem embedding_is_inlining (always : Bool) (registry : Registry) (f : File) :
    (∀ u, build ⟨always, true⟩ registry f = .error u ↔
        build ⟨always, false⟩ registry f = .error u) ∧
      (∀ ds, build ⟨always, false⟩ registry f = .ok ds → ∃ referring embedding : Wording,
        ds = referring.declarations f ∧
        build ⟨always, true⟩ registry f = .ok (embedding.declarations f) ∧
        embedding.enumName = referring.enumName ∧
        embedding.messageName = referring.messageName ∧
        ∀ m ∈ f.messages, ∀ fd ∈ m.fields,
          Inlines ⟨always, false⟩ registry fd (referring.type fd) (embedding.type fd)) ∧
      ∀ files, registry = .ofFiles files → ∀ name e, registry.enum name = .ok e →
        OnlyEnum files e.fullName e → (∃ g ∈ files, e ∈ g.enums) ∧
          ∀ g ∈ files, ∀ (k : ℕ) (e' : Enum), g.enums[k]? = some e' →
            Name.canonical e'.fullName = Name.canonical e.fullName →
            ∀ options ds, build options registry g = .ok ds →
              ds[k]? = some ⟨enumName options e, .alternatives e.values⟩ := by
  refine ⟨fun u => build_eq_error_congr, fun ds built => ?_, ?_⟩
  · refine ⟨wording ⟨always, false⟩ registry, wording ⟨always, true⟩ registry,
      eq_declarations_of_build built, build_eq_ok_wording built _, rfl, rfl, ?_⟩
    exact fun m hm fd hfd => inlines_of_known (known_of_build built m hm fd hfd) always
  · rintro files rfl name e found only
    exact ⟨mem_of_enum_ofFiles found, fun g hg k e' he' same options ds built =>
      declared_of_onlyEnum only hg he' same built⟩

/-- The moods of a diary. -/
def mood : Enum where
  name := "Mood"
  fullName := ".diary.Mood"
  package := "diary"
  values := ["GOOD", "BAD"]

/-- The moods of the hours of a day. -/
def hours : Field where
  name := "hours"
  kind := 14
  typeName := "diary.Mood"
  repeated := true

/-- A file that lists the moods. -/
def moodFile : File where
  name := "mood.proto"
  package := "diary"
  enums := [mood]

/-- A file with a day: the day before it, and its hours. -/
def dayFile : File where
  name := "day.proto"
  messages := [{ name := "Day", fullName := ".Day",
                 fields := [{ name := "before", kind := 11, typeName := ".Day" }, hours] }]

/-- With enums embedded, the hours of a day are an array of what the moods are declared as in the
other file. -/
theorem embedding_is_inlining_day :
    build {} (.ofFiles [moodFile, dayFile]) dayFile = .ok [⟨"Day", .record
        [("before", .reference "Day"), ("hours", .array (.reference "Mood"))]⟩] ∧
      (∃ embedding : Wording, embedding.type hours = .array (.alternatives ["GOOD", "BAD"]) ∧
        build ⟨false, true⟩ (.ofFiles [moodFile, dayFile]) dayFile
          = .ok (embedding.declarations dayFile)) ∧
      ∃ ds, build {} (.ofFiles [moodFile, dayFile]) moodFile = .ok ds ∧
        ds[0]? = some ⟨"Mood", .alternatives ["GOOD", "BAD"]⟩ := by
  obtain ⟨-, inlined, owned⟩ :=
    embedding_is_inlining false (.ofFiles [moodFile, dayFile]) dayFile
  obtain ⟨referring, embedding, -, built, -, -, types⟩ := inlined _ rfl
  have written : ∀ t t', Inlines {} (.ofFiles [moodFile, dayFile]) hours t t' →
      t' = .array (.alternatives ["GOOD", "BAD"]) := by
    rintro t t' (hk | ⟨-, single, -⟩ | ⟨-, -, found⟩)
    · exact absurd rfl hk
    · exact absurd single (by decide)
    · obtain rfl : mood = _ := Except.ok.inj found
      rfl
  refine ⟨rfl, ⟨embedding, written _ _ (types _ List.mem_cons_self hours (by simp)), built⟩, _, rfl,
    ?_⟩
  exact (owned [moodFile, dayFile] rfl "diary.Mood" mood rfl rfl).2 moodFile List.mem_cons_self 0
    mood rfl rfl {} _ rfl

end Declaration

end SchemaTypes
