import SchemaTypes.Proofs.Answer
import SchemaTypes.Proofs.Position

/-!
# Proofs/Resolution — what a descriptor forest leaves unresolved

The registry of a request is read off the forests themselves: a name is known exactly when some
message, or some enum, at some position has it as its dotted name (`exists_message_error_iff`,
`exists_enum_error_iff`).  A file then fails exactly by a dangling field at some position
(`exists_build_error_iff`), and `answer_error_iff_unresolved` carries this to the response.
-/

namespace SchemaTypes

/-- A leading dot says nothing. -/
theorem Name.bare_dot_append (s : String) : bare ("." ++ s) = bare s := by
  rw [bare, String.toList_append]
  rfl

namespace Descriptor

/-! ## What names the forests know -/

/-- Some message of the files has the name, whatever the leading dots of either. -/
def HasMessage (files : List File) (name : String) : Prop :=
  ∃ g ∈ files, ∃ outer m, MessageAt g.messages outer m ∧
    Name.bare (dotted g.package (outer ++ [m.name])) = Name.bare name

/-- Some enum of the files has the name, whatever the leading dots of either. -/
def HasEnum (files : List File) (name : String) : Prop :=
  ∃ g ∈ files, ∃ outer e, EnumAt g outer e ∧
    Name.bare (dotted g.package (outer ++ [e.name])) = Name.bare name

/-- The field refers to a message, or to an enum, that no file has. -/
def Field.Dangling (files : List File) (fd : Field) : Prop :=
  (fd.type = .message ∧ ¬HasMessage files fd.typeName) ∨
    (fd.type = .enum ∧ ¬HasEnum files fd.typeName)

variable {files : List File}

/-- Names are looked up by their canonical form, which tells full names apart as dotted ones. -/
theorem canonical_under_eq_iff {g : File} {outer : List String} {own name : String} :
    Name.canonical (under (outer.foldl under g.scope) own) = Name.canonical name ↔
      Name.bare (dotted g.package (outer ++ [own])) = Name.bare name := by
  rw [Name.canonical_eq_iff, under_foldl_scope, Name.bare_dot_append]

theorem exists_message_error_iff {name : String} :
    (∃ u, (registry files).message name = .error u) ↔ ¬HasMessage files name := by
  rw [Schema.Registry.exists_message_eq_error_iff, registry, Schema.Registry.messages_ofFiles,
    find?_reverse_eq_none_iff, List.flatMap_map]
  constructor
  · rintro none ⟨g, hg, outer, m, hm, same⟩
    have listed : m.toSchema g (outer.foldl under g.scope) ∈ g.toSchema.messages :=
      mem_messages_toSchema.mpr ⟨outer, m, hm, rfl⟩
    exact none _ (List.mem_flatMap.mpr ⟨g, hg, listed⟩) (canonical_under_eq_iff.mpr same)
  · intro none s hs same
    obtain ⟨g, hg, listed⟩ := List.mem_flatMap.mp hs
    obtain ⟨outer, m, hm, rfl⟩ := mem_messages_toSchema.mp listed
    exact none ⟨g, hg, outer, m, hm, canonical_under_eq_iff.mp same⟩

theorem exists_enum_error_iff {name : String} :
    (∃ u, (registry files).enum name = .error u) ↔ ¬HasEnum files name := by
  rw [Schema.Registry.exists_enum_eq_error_iff, registry, Schema.Registry.enums_ofFiles,
    find?_reverse_eq_none_iff, List.flatMap_map]
  constructor
  · rintro none ⟨g, hg, outer, e, he, same⟩
    have listed : e.toSchema g (outer.foldl under g.scope) ∈ g.toSchema.enums :=
      mem_enums_toSchema.mpr ⟨outer, e, he, rfl⟩
    exact none _ (List.mem_flatMap.mpr ⟨g, hg, listed⟩) (canonical_under_eq_iff.mpr same)
  · intro none s hs same
    obtain ⟨g, hg, listed⟩ := List.mem_flatMap.mp hs
    obtain ⟨outer, e, he, rfl⟩ := mem_enums_toSchema.mp listed
    exact none ⟨g, hg, outer, e, he, canonical_under_eq_iff.mp same⟩

/-- The file that a name stands for is the last descriptor of that name, flattened. -/
theorem files_registry (files : List File) (name : String) : (registry files).files.get? name
    = (files.reverse.find? (File.name · == name)).map File.toSchema := by
  rw [registry, Schema.Registry.files_ofFiles, ← List.map_reverse, List.find?_map]
  rfl

/-! ## Dangling fields -/

theorem number_eq_message_iff {t : FieldType} : (t.number : Int) = 11 ↔ t = .message := by
  cases t <;> decide

theorem number_eq_enum_iff {t : FieldType} : (t.number : Int) = 14 ↔ t = .enum := by
  cases t <;> decide

/-- The declarations of a file fail exactly by a dangling field, in a message at any depth. -/
theorem exists_build_error_iff (options : Options) {f : File} :
    (∃ u, Declaration.build options (registry files) f.toSchema = .error u) ↔
      ∃ outer m, MessageAt f.messages outer m ∧ ∃ fd ∈ m.fields, fd.Dangling files := by
  rw [Declaration.exists_build_eq_error_iff]
  simp only [exists_message_error_iff, exists_enum_error_iff]
  constructor
  · rintro ⟨s, hs, field, hfield, dangling⟩
    obtain ⟨outer, m, hm, rfl⟩ := mem_messages_toSchema.mp hs
    obtain ⟨fd, hfd, rfl⟩ := List.mem_map.mp hfield
    refine ⟨outer, m, hm, fd, hfd, ?_⟩
    exact dangling.imp (And.imp_left number_eq_message_iff.mp) (And.imp_left number_eq_enum_iff.mp)
  · rintro ⟨outer, m, hm, fd, hfd, dangling⟩
    refine ⟨_, mem_messages_toSchema.mpr ⟨outer, m, hm, rfl⟩, fd.toSchema,
      List.mem_map_of_mem hfd, ?_⟩
    exact dangling.imp (And.imp_left number_eq_message_iff.mpr)
      (And.imp_left number_eq_enum_iff.mpr)

/-- A name is unresolved: no file has it, or the last file that does holds a dangling field. -/
def Unresolved (files : List File) (name : String) : Prop :=
  (∀ f ∈ files, f.name ≠ name) ∨
    ∃ f, files.reverse.find? (File.name · == name) = some f ∧
      ∃ outer m, MessageAt f.messages outer m ∧ ∃ fd ∈ m.fields, fd.Dangling files

theorem exists_generate_error_iff {d : Dialect} {options : Options} {name : String} :
    (∃ e, d.generate options (registry files) name = .error e) ↔ Unresolved files name := by
  simp only [Dialect.generate_eq_error_iff, Unresolved, ← find?_reverse_eq_none_iff]
  cases hfind : files.reverse.find? (File.name · == name) with
  | none =>
    have hnone : (registry files).files.get? name = none := by rw [files_registry, hfind]; rfl
    obtain ⟨u, hu⟩ := Schema.Registry.exists_file_eq_error_iff.mpr hnone
    exact ⟨fun _ => .inl rfl, fun _ => ⟨.unresolved u, u, rfl, .inl hu⟩⟩
  | some f =>
    have hfile : (registry files).file name = .ok f.toSchema :=
      Schema.Registry.file_eq_ok_iff.mpr (by rw [files_registry, hfind]; rfl)
    simp only [hfile, reduceCtorEq, false_or, Except.ok.injEq, exists_eq_left', Option.some.injEq,
      ← exists_build_error_iff (d.heeded options)]
    constructor
    · rintro ⟨e, u, -, hu⟩
      exact ⟨u, hu⟩
    · rintro ⟨u, hu⟩
      exact ⟨.unresolved u, u, rfl, hu⟩

end Descriptor

/-! ## The response -/

/-- A dialect names an output for every path that has a last part. -/
theorem Dialect.exists_outputName (d : Dialect) {name : String}
    (named : (Path.parse name).name? ≠ none) : ∃ outName, outputName name d.name = .ok outName := by
  obtain ⟨last, hlast⟩ := Option.ne_none_iff_exists'.mp named
  have hname : d.outputName? name
      = some (((Path.parse name).parent.child (Path.stemOf last ++ d.suffix)).text) := by
    rw [outputName?, Path.withSuffix?, hlast]
    rfl
  rw [outputName, ofName?_name]
  simp only [hname]
  exact ⟨_, rfl⟩

theorem Dialect.generate_name (d : Dialect) (options : Options) (registry : Schema.Registry)
    (name : String) :
    SchemaTypes.generate d.name options registry name = d.generate options registry name := by
  rw [SchemaTypes.generate, ofName?_name]

namespace Exchange

/-- A response tells an error exactly when there was a first failure. -/
theorem error_ne_none_iff {dialectName : String} {r : Request} :
    (answer dialectName r).result.error ≠ none ↔ ∃ e, FirstFailure dialectName r e := by
  rw [answer]
  cases h : (outputs dialectName r).result with
  | ok os =>
    refine ⟨fun herror => absurd rfl herror, ?_⟩
    rintro ⟨e, he⟩
    exact absurd h (ne_ok_of_eq_error (outputs_eq_error_iff.mpr he) os)
  | error e => exact ⟨fun _ => ⟨e, outputs_eq_error_iff.mp h⟩, fun _ => Option.some_ne_none _⟩

/-- With a valid parameter and nameable outputs, a request is refused exactly when some wanted name
is left unresolved by the descriptors: nothing else in them matters. -/
theorem answer_error_iff_unresolved (d : Dialect) (r : Request) (options : Options)
    (valid : Options.parse r.parameter = .ok options)
    (named : ∀ name ∈ r.wanted, (Path.parse name).name? ≠ none) :
    (answer d.name r).result.error ≠ none ↔
      ∃ name ∈ r.wanted, Descriptor.Unresolved r.files name := by
  rw [error_ne_none_iff, exists_firstFailure_iff]
  simp only [valid, reduceCtorEq, exists_false, false_or, Except.ok.injEq, exists_eq_left',
    Dialect.generate_name, Descriptor.exists_generate_error_iff]
  refine exists_congr fun name => and_congr_right fun hname => or_iff_right ?_
  rintro ⟨e, he⟩
  obtain ⟨outName, hout⟩ := d.exists_outputName (named name hname)
  exact ne_ok_of_eq_error he _ hout

/-- A request for one file, in which a nested item refers to the order around it as a type. -/
def orderRequest (type : Descriptor.FieldType) : Request where
  wanted := ["shop/order.proto"]
  files := [{
    name := "shop/order.proto"
    package := "shop"
    messages := [{
      name := "Order"
      nested := [{
        name := "Item"
        fields := [{ name := "order", type, typeName := "..shop.Order" }]
      }]
    }]
  }]

/-- Taken for an enum the order is nowhere to be found, taken for a message it is. -/
theorem answer_error_iff_unresolved_order :
    ((∃ name ∈ (orderRequest .enum).wanted, Descriptor.Unresolved (orderRequest .enum).files name) ∧
      (answer Dialect.elm.name (orderRequest .enum)).result.error ≠ none) ∧
    (¬∃ name ∈ (orderRequest .message).wanted,
        Descriptor.Unresolved (orderRequest .message).files name) ∧
      (answer Dialect.elm.name (orderRequest .message)).result.error = none := by
  have dangling : ∃ name ∈ (orderRequest .enum).wanted,
      Descriptor.Unresolved (orderRequest .enum).files name := by
    refine ⟨_, List.mem_singleton_self _, .inr ⟨_, rfl, ["Order"], _,
      .inside (List.mem_singleton_self _) (.top (List.mem_singleton_self _)), _,
      List.mem_singleton_self _, .inr ⟨rfl, ?_⟩⟩⟩
    exact Descriptor.exists_enum_error_iff.mp ⟨_, rfl⟩
  have named : ∀ name ∈ ["shop/order.proto"], (Path.parse name).name? ≠ none := by decide
  refine ⟨⟨dangling, (answer_error_iff_unresolved .elm (orderRequest .enum) {} rfl named).mpr
    dangling⟩, fun unresolved => ?_, rfl⟩
  exact (answer_error_iff_unresolved .elm (orderRequest .message) {} rfl named).mpr unresolved rfl

end Exchange

end SchemaTypes
