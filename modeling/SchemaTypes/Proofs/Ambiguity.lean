import SchemaTypes.Proofs.Position
import SchemaTypes.Proofs.References
import SchemaTypes.Proofs.Word

/-!
# Proofs/Ambiguity — when one name stands for one entity

A name stands in the declarations of a file for a message or an enum: the one declared there, or the
one that a field refers to (`Occurs`).  Names run the segments of a full name together and leave the
package out, so even over legal files two entities may share one (`ambiguous_names`).

`same_entity_iff` says what else tells them apart: what their names leave out (`CutAlike`), and where
the dots of their full names stand.  The first gives the word of the full name back, the second the
full name itself, and no two entities share that.  Within one scope the dots say nothing new.
-/

namespace SchemaTypes

open Schema

/-! ## Entities -/

/-- What a name can stand for. -/
inductive Entity where
  | message (m : Message)
  | enum (e : Enum)

namespace Entity

/-- The own name of an entity. -/
def name : Entity → String
  | .message m => m.name
  | .enum e => e.name

/-- The full name of an entity. -/
def fullName : Entity → String
  | .message m => m.fullName
  | .enum e => e.fullName

/-- The package an entity is declared in. -/
def package : Entity → String
  | .message m => m.package
  | .enum e => e.package

/-- The names of two entities leave out the same: nothing, or one package. -/
def CutAlike (x : Entity) (options : Options) (y : Entity) : Prop :=
  options.alwaysQualify = true ∨ x.package = y.package

end Entity

/-- The messages and enums of a file. -/
def Schema.File.entities (f : File) : List Entity := f.messages.map .message ++ f.enums.map .enum

theorem message_mem_entities {f : File} {m : Message} (h : m ∈ f.messages) :
    .message m ∈ f.entities := List.mem_append_left _ (List.mem_map_of_mem h)

theorem enum_mem_entities {f : File} {e : Enum} (h : e ∈ f.enums) : .enum e ∈ f.entities :=
  List.mem_append_right _ (List.mem_map_of_mem h)

/-- The messages and enums of all files, at any depth. -/
def Descriptor.entities (files : List Descriptor.File) : List Entity :=
  files.flatMap fun f => f.toSchema.entities

/-- What a schema compiler lets pass: distinct file names, names of one non-empty segment, distinct
full names over all files, and packages that do not start with a dot. -/
structure Legal (files : List Descriptor.File) : Prop where
  fileNames : (files.map Descriptor.File.name).Nodup
  names : ∀ x ∈ Descriptor.entities files, x.name ≠ "" ∧ '.' ∉ x.name.toList
  fullNames : ((Descriptor.entities files).map Entity.fullName).Nodup
  packages : ∀ f ∈ files, f.package.toList.head? ≠ some '.'

/-! ## Where names stand -/

/-- A name stands in the declarations of a file for an entity: declared in the place of a message or
an enum, or in the type of a field, for what the registry holds under the field's type name. -/
inductive Occurs (registry : Registry) (f : File) (ds : List Declaration) : String → Entity → Prop
  | declaredEnum {i : ℕ} {e : Enum} {d : Declaration} : f.enums[i]? = some e → ds[i]? = some d →
      Occurs registry f ds d.name (.enum e)
  | declaredMessage {k : ℕ} {m : Message} {d : Declaration} : f.messages[k]? = some m →
      ds[f.enums.length + k]? = some d → Occurs registry f ds d.name (.message m)
  | referredMessage {k j : ℕ} {m target : Message} {fd : Field} {declared label name : String}
      {fields : List (String × TypeExpr)} {t : TypeExpr} : f.messages[k]? = some m →
      ds[f.enums.length + k]? = some ⟨declared, .record fields⟩ → m.fields[j]? = some fd →
      fields[j]? = some (label, t) → name ∈ t.references → fd.kind = 11 →
      registry.message fd.typeName = .ok target → Occurs registry f ds name (.message target)
  | referredEnum {k j : ℕ} {m : Message} {target : Enum} {fd : Field} {declared label name : String}
      {fields : List (String × TypeExpr)} {t : TypeExpr} : f.messages[k]? = some m →
      ds[f.enums.length + k]? = some ⟨declared, .record fields⟩ → m.fields[j]? = some fd →
      fields[j]? = some (label, t) → name ∈ t.references → fd.kind = 14 →
      registry.enum fd.typeName = .ok target → Occurs registry f ds name (.enum target)

variable {options : Options} {registry : Registry} {f : File} {ds : List Declaration}

/-- Every name in the declarations stands for something. -/
theorem exists_occurs (built : Declaration.build options registry f = .ok ds) {d : Declaration}
    (hd : d ∈ ds) {a : String} (ha : a ∈ d.name :: d.body.references) :
    ∃ x, Occurs registry f ds a x := by
  obtain ⟨i, hi⟩ := List.mem_iff_getElem?.mp hd
  obtain ⟨e, he, rfl⟩ | ⟨k, m, rfl, hm, hmd⟩ := Declaration.build_cases built hi
  · obtain rfl : a = Declaration.enumName options e := by
      simpa [Declaration.ofEnum, TypeExpr.references] using ha
    exact ⟨_, .declaredEnum he hi⟩
  · obtain ⟨fields, -, rfl⟩ := Declaration.ofMessage_eq_ok_iff.mp hmd
    rcases List.mem_cons.mp ha with rfl | ha
    · exact ⟨_, .declaredMessage hm hi⟩
    · rw [TypeExpr.references, TypeExpr.mem_fieldReferences] at ha
      obtain ⟨⟨label, t⟩, ht, ha⟩ := ha
      obtain ⟨j, hj⟩ := List.mem_iff_getElem?.mp ht
      obtain ⟨k', m', fd, hk, hm', hfd, found⟩ := exists_field_of_reference built hi hj ha
      obtain rfl : k = k' := by omega
      obtain rfl := Option.some.inj (hm.symm.trans hm')
      rcases found with ⟨hkind, target, htarget, -⟩ | ⟨hkind, target, htarget, -⟩
      · exact ⟨_, .referredMessage hm hi hfd hj ha hkind htarget⟩
      · exact ⟨_, .referredEnum hm hi hfd hj ha hkind htarget⟩

/-- What the field behind a reference was resolved to. -/
theorem resolved_of_reference (built : Declaration.build options registry f = .ok ds) {k j : ℕ}
    {m : Message} {fd : Field} {declared label name : String} {fields : List (String × TypeExpr)}
    {t : TypeExpr} (hm : f.messages[k]? = some m)
    (hd : ds[f.enums.length + k]? = some ⟨declared, .record fields⟩) (hfd : m.fields[j]? = some fd)
    (ht : fields[j]? = some (label, t)) (hname : name ∈ t.references) :
    (fd.kind = 11 ∧ ∃ target, registry.message fd.typeName = .ok target ∧
        name = Declaration.messageName options target) ∨
      (fd.kind = 14 ∧ ∃ target, registry.enum fd.typeName = .ok target ∧
        name = Declaration.enumName options target) := by
  obtain ⟨k', m', fd', hk, hm', hfd', found⟩ := exists_field_of_reference built hd ht hname
  obtain rfl := Nat.add_left_cancel hk
  obtain rfl := Option.some.inj (hm.symm.trans hm')
  obtain rfl := Option.some.inj (hfd.symm.trans hfd')
  exact found

/-- A name is the word of the entity it stands for. -/
theorem Occurs.eq_qualify (built : Declaration.build options registry f = .ok ds) {a : String}
    {x : Entity} (h : Occurs registry f ds a x) :
    a = Name.qualify x.fullName x.package options.alwaysQualify := by
  cases h with
  | declaredEnum he hd =>
    obtain rfl := Option.some.inj (hd.symm.trans (Declaration.getElem?_build_enum built he))
    rfl
  | declaredMessage hm hd =>
    obtain ⟨fields, hfields⟩ := declares_message options registry f _ ds _ built hm
    obtain rfl := Option.some.inj (hd.symm.trans hfields)
    rfl
  | referredMessage hm hd hfd ht ha hkind htarget =>
    obtain ⟨-, target', htarget', rfl⟩ | ⟨hkind', -⟩ :=
      resolved_of_reference built hm hd hfd ht ha
    · obtain rfl := Except.ok.inj (htarget.symm.trans htarget')
      rfl
    · exact absurd (hkind.symm.trans hkind') (by decide)
  | referredEnum hm hd hfd ht ha hkind htarget =>
    obtain ⟨hkind', -⟩ | ⟨-, target', htarget', rfl⟩ :=
      resolved_of_reference built hm hd hfd ht ha
    · exact absurd (hkind.symm.trans hkind') (by decide)
    · obtain rfl := Except.ok.inj (htarget.symm.trans htarget')
      rfl

/-- What a name stands for is an entity of the files. -/
theorem Occurs.mem_entities {files : List Descriptor.File} {f : Descriptor.File} (hf : f ∈ files)
    {a : String} {x : Entity} (h : Occurs (Descriptor.registry files) f.toSchema ds a x) :
    x ∈ Descriptor.entities files := by
  rw [Descriptor.entities, List.mem_flatMap]
  cases h with
  | declaredEnum he => exact ⟨f, hf, enum_mem_entities (List.mem_of_getElem? he)⟩
  | declaredMessage hm => exact ⟨f, hf, message_mem_entities (List.mem_of_getElem? hm)⟩
  | referredMessage _ _ _ _ _ _ htarget =>
    obtain ⟨s, hs, hm⟩ := mem_of_message_ofFiles htarget
    obtain ⟨g, hg, rfl⟩ := List.mem_map.mp hs
    exact ⟨g, hg, message_mem_entities hm⟩
  | referredEnum _ _ _ _ _ _ htarget =>
    obtain ⟨s, hs, he⟩ := mem_of_enum_ofFiles htarget
    obtain ⟨g, hg, rfl⟩ := List.mem_map.mp hs
    exact ⟨g, hg, enum_mem_entities he⟩

/-! ## Legal names -/

namespace Descriptor

/-- An entity of a file lies in the file's package, at some path. -/
theorem exists_path {g : File} {x : Entity} (h : x ∈ g.toSchema.entities) :
    x.package = g.package ∧ ∃ path, path ≠ [] ∧ x.fullName = "." ++ dotted g.package path := by
  rcases List.mem_append.mp h with h | h
  · obtain ⟨s, hs, rfl⟩ := List.mem_map.mp h
    obtain ⟨outer, m, -, rfl⟩ := mem_messages_toSchema.mp hs
    exact ⟨rfl, outer ++ [m.name], by simp, under_foldl_scope g outer m.name⟩
  · obtain ⟨s, hs, rfl⟩ := List.mem_map.mp h
    obtain ⟨outer, e, -, rfl⟩ := mem_enums_toSchema.mp hs
    exact ⟨rfl, outer ++ [e.name], by simp, under_foldl_scope g outer e.name⟩

theorem word_under {name : String} (h : '.' ∉ name.toList) (scope : String) :
    Name.word (under scope name) = Name.word scope ++ name := by
  rw [under, Name.word_append, Name.word_append, Name.word_eq_self h]
  exact congrArg (· ++ name) String.append_empty

end Descriptor

namespace Legal

variable {files : List Descriptor.File} {x y : Entity}

/-- A full name lies in its package. -/
theorem inPackage (legal : Legal files) (hx : x ∈ Descriptor.entities files)
    (nonempty : x.package ≠ "") : Name.inPackage x.package x.fullName = true := by
  obtain ⟨g, hg, hgx⟩ := List.mem_flatMap.mp hx
  obtain ⟨hpackage, path, hpath, hname⟩ := Descriptor.exists_path hgx
  rw [hpackage] at nonempty ⊢
  rw [hname, Descriptor.dotted, if_neg nonempty, String.intercalate_cons_of_ne_nil hpath]
  exact Name.inPackage_dot_append (legal.packages g hg) nonempty _

/-- An entity is told by its full name. -/
theorem eq_of_fullName_eq (legal : Legal files) (hx : x ∈ Descriptor.entities files)
    (hy : y ∈ Descriptor.entities files) (h : x.fullName = y.fullName) : x = y :=
  List.inj_on_of_nodup_map legal.fullNames hx hy h

/-- Where the names leave out the same, an equal name is an equal word of the full names. -/
theorem word_eq_of_qualify_eq (legal : Legal files) (hx : x ∈ Descriptor.entities files)
    (hy : y ∈ Descriptor.entities files) (alike : x.CutAlike options y)
    (h : Name.qualify x.fullName x.package options.alwaysQualify
      = Name.qualify y.fullName y.package options.alwaysQualify) :
    Name.word x.fullName = Name.word y.fullName := by
  cases halways : options.alwaysQualify with
  | true => simpa [halways] using h
  | false =>
    have hpackage : x.package = y.package := by simpa [Entity.CutAlike, halways] using alike
    rw [halways] at h
    rw [Name.word_eq_append_qualify (legal.inPackage hx),
      Name.word_eq_append_qualify (legal.inPackage hy), h, hpackage]

/-- Within one scope, an equal word is an equal name. -/
theorem fullName_eq_of_scope (legal : Legal files) (hx : x ∈ Descriptor.entities files)
    (hy : y ∈ Descriptor.entities files) {scope : String}
    (scopex : x.fullName = Descriptor.under scope x.name)
    (scopey : y.fullName = Descriptor.under scope y.name)
    (h : Name.word x.fullName = Name.word y.fullName) : x.fullName = y.fullName := by
  rw [scopex, scopey, Descriptor.word_under (legal.names x hx).2,
    Descriptor.word_under (legal.names y hy).2, String.append_right_inj] at h
  rw [scopex, scopey, h]

end Legal

/-! ## One name, one entity -/

/-- Over legal files, every name in the declarations of a file stands for an entity.  Two of them
stand for the same exactly when they are equal, leave out the same, and come from full names with
their dots in the same places; within one scope, exactly when they are equal and leave out the
same. -/
theorem same_entity_iff (files : List Descriptor.File) (legal : Legal files) (options : Options)
    (f : Descriptor.File) (hf : f ∈ files) (ds : List Declaration)
    (built : Declaration.build options (Descriptor.registry files) f.toSchema = .ok ds) :
    (∀ d ∈ ds, ∀ a ∈ d.name :: d.body.references,
        ∃ x, Occurs (Descriptor.registry files) f.toSchema ds a x) ∧
      ∀ (a b : String) (x y : Entity), Occurs (Descriptor.registry files) f.toSchema ds a x →
        Occurs (Descriptor.registry files) f.toSchema ds b y →
        (x = y ↔ a = b ∧ x.CutAlike options y ∧
          Name.dots x.fullName = Name.dots y.fullName) ∧
        ∀ scope, x.fullName = Descriptor.under scope x.name →
          y.fullName = Descriptor.under scope y.name →
          (x = y ↔ a = b ∧ x.CutAlike options y) := by
  refine ⟨fun d hd a ha => exists_occurs built hd ha, fun a b x y hx hy => ?_⟩
  have memx := hx.mem_entities hf
  have memy := hy.mem_entities hf
  rw [hx.eq_qualify built, hy.eq_qualify built]
  constructor
  · constructor
    · rintro rfl
      exact ⟨rfl, .inr rfl, rfl⟩
    · rintro ⟨same, alike, places⟩
      have letters := legal.word_eq_of_qualify_eq memx memy alike same
      exact legal.eq_of_fullName_eq memx memy (Name.eq_of_word_eq letters places)
  · intro scope scopex scopey
    constructor
    · rintro rfl
      exact ⟨rfl, .inr rfl⟩
    · rintro ⟨same, alike⟩
      have letters := legal.word_eq_of_qualify_eq memx memy alike same
      have full := legal.fullName_eq_of_scope memx memy scopex scopey letters
      exact legal.eq_of_fullName_eq memx memy full

/-- A file with one message inside another, beside a third that is named like both together. -/
def mergedFile : Descriptor.File where
  name := "merged.proto"
  messages := [{ name := "A", nested := [{ name := "B" }] }, { name := "AB" }]

/-- A file that others refer to. -/
def lentFile : Descriptor.File where
  name := "lent.proto"
  package := "lent"
  messages := [{ name := "Item" }]

/-- A file with an item of its own, which holds an item of its own and a lent one. -/
def ownFile : Descriptor.File where
  name := "own.proto"
  package := "own"
  messages := [{
    name := "Item"
    fields := [{ name := "own", type := .message, typeName := ".own.Item" },
      { name := "lent", type := .message, typeName := ".lent.Item" }]
  }]

/-- The declarations of `mergedFile`, with and without qualified names. -/
def mergedDeclarations : List Declaration :=
  [⟨"A", .record []⟩, ⟨"AB", .record []⟩, ⟨"AB", .record []⟩]

/-- The declarations of `ownFile`. -/
def ownDeclarations : List Declaration :=
  [⟨"Item", .record [("own", .reference "Item"), ("lent", .reference "Item")]⟩]

theorem legal_merged : Legal [mergedFile] :=
  ⟨by decide, by decide, by decide, by decide⟩

theorem legal_lent_own : Legal [lentFile, ownFile] :=
  ⟨by decide, by decide, by decide, by decide⟩

/-- The item of `ownFile`, as its first field finds it. -/
def ownItem : Message where
  name := "Item"
  fullName := ".own.Item"
  package := "own"
  fields := [{ name := "own", kind := 11, typeName := ".own.Item" },
    { name := "lent", kind := 11, typeName := ".lent.Item" }]
  fileName := "own.proto"

/-- The item of `lentFile`, as the second field of the other finds it. -/
def lentItem : Message where
  name := "Item"
  fullName := ".lent.Item"
  package := "lent"
  fileName := "lent.proto"

theorem occurs_own : Occurs (Descriptor.registry [lentFile, ownFile]) ownFile.toSchema
    ownDeclarations "Item" (.message ownItem) :=
  .referredMessage (k := 0) (j := 0) rfl rfl rfl rfl (by decide) rfl rfl

theorem occurs_lent : Occurs (Descriptor.registry [lentFile, ownFile]) ownFile.toSchema
    ownDeclarations "Item" (.message lentItem) :=
  .referredMessage (k := 0) (j := 1) rfl rfl rfl rfl (by decide) rfl rfl

/-- Some file has declarations in which one name stands for two entities. -/
def Ambiguous (options : Options) (files : List Descriptor.File) : Prop :=
  ∃ f ∈ files, ∃ ds, Declaration.build options (Descriptor.registry files) f.toSchema = .ok ds ∧
    ∃ a x y, Occurs (Descriptor.registry files) f.toSchema ds a x ∧
      Occurs (Descriptor.registry files) f.toSchema ds a y ∧ x ≠ y

/-- Legal files can be ambiguous: by where a name is cut into segments, even when names are always
qualified, and by the packages that names leave out. -/
theorem ambiguous_names :
    (Legal [mergedFile] ∧ Ambiguous {} [mergedFile] ∧
      Ambiguous { alwaysQualify := true } [mergedFile]) ∧
    Legal [lentFile, ownFile] ∧ Ambiguous {} [lentFile, ownFile] := by
  have merged : ∀ options, Declaration.build options (Descriptor.registry [mergedFile])
      mergedFile.toSchema = .ok mergedDeclarations → Ambiguous options [mergedFile] := by
    intro options built
    refine ⟨mergedFile, List.mem_singleton_self _, mergedDeclarations, built, "AB", _, _,
      .declaredMessage (k := 1) (d := ⟨"AB", .record []⟩) rfl rfl,
      .declaredMessage (k := 2) (d := ⟨"AB", .record []⟩) rfl rfl, fun same => ?_⟩
    exact absurd (congrArg Entity.fullName same) (by decide)
  refine ⟨⟨legal_merged, merged _ rfl, merged _ rfl⟩, legal_lent_own, ?_⟩
  refine ⟨ownFile, by simp, ownDeclarations, rfl, "Item", _, _, occurs_own, occurs_lent,
    fun same => ?_⟩
  exact absurd (congrArg Entity.fullName same) (by decide)

/-- The item that `ownFile` declares is the one that its first field refers to and not the one that
its second field does, by the same name. -/
theorem same_entity_iff_item : ∃ declared own lent,
    Occurs (Descriptor.registry [lentFile, ownFile]) ownFile.toSchema ownDeclarations "Item"
        declared ∧
      Occurs (Descriptor.registry [lentFile, ownFile]) ownFile.toSchema ownDeclarations "Item" own ∧
      Occurs (Descriptor.registry [lentFile, ownFile]) ownFile.toSchema ownDeclarations "Item"
        lent ∧
      declared = own ∧ own ≠ lent := by
  have compare := (same_entity_iff [lentFile, ownFile] legal_lent_own {} ownFile (by simp)
    ownDeclarations rfl).2 "Item" "Item"
  have declares : Occurs (Descriptor.registry [lentFile, ownFile]) ownFile.toSchema ownDeclarations
      "Item" (.message ownItem) := .declaredMessage (k := 0) (d := ⟨"Item", _⟩) rfl rfl
  refine ⟨_, _, _, declares, occurs_own, occurs_lent, ?_, fun same => ?_⟩
  · exact (compare _ _ declares occurs_own).1.mpr ⟨rfl, .inr rfl, rfl⟩
  · obtain ⟨-, alike, -⟩ := (compare _ _ occurs_own occurs_lent).1.mp same
    exact alike.elim (by decide) (by decide)

end SchemaTypes
