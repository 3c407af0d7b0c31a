import Mathlib.Data.List.Perm.Basic
import SchemaTypes.Proofs.LastEntry
import SchemaTypes.Proofs.Resolution

/-!
# Proofs/Dependence — what a response depends on

Of a registry, the declarations of a file see only how the type names of its fields are resolved:
`AgreesOn` is that much of two registries, and `build_congr` says that it is enough.  So the text of
a file depends on what the file refers to and on nothing else (`generate_eq_of_sameForFile`), and
registries that answer every look-up alike (`Registry.Alike`) lead to the same response.

Where no two files, messages or enums share a name, the last entry of a name is its only one, and no
look-up can tell in which order the files came (`alike_of_perm`).  Hence `answer_eq_of_perm`.
-/

namespace SchemaTypes

open Schema

variable {options : Options} {r s : Registry}

/-! ## What declarations see of a registry -/

/-- Two registries agree on a field: what it refers to fails in both, or is written alike. -/
structure AgreesOn (r s : Registry) (f : Field) : Prop where
  message : f.kind = 11 → (r.message f.typeName).map (fun m => (m.fullName, m.package))
    = (s.message f.typeName).map fun m => (m.fullName, m.package)
  enum : f.kind = 14 → (r.enum f.typeName).map (fun e => (e.fullName, e.package, e.values))
    = (s.enum f.typeName).map fun e => (e.fullName, e.package, e.values)

namespace Declaration

theorem fieldBase_congr {f : Field} (h : AgreesOn r s f) :
    fieldBase options r f = fieldBase options s f := by
  unfold fieldBase
  cases hsort : f.sort with
  | message =>
    have written := congrArg (Except.map fun (full, package) =>
        TypeExpr.reference (Name.qualify full package options.alwaysQualify))
      (h.message (sort_eq_message_iff.mp hsort))
    rwa [map_map, map_map] at written
  | enum =>
    have written := congrArg (Except.map fun (full, package, values) =>
        if options.embedEnums then TypeExpr.alternatives values
        else .reference (Name.qualify full package options.alwaysQualify))
      (h.enum (sort_eq_enum_iff.mp hsort))
    rwa [map_map, map_map] at written
  | _ => rfl

theorem field_congr {owner : String} {f : Field} (h : AgreesOn r s f) :
    field options r owner f = field options s owner f := by
  rw [field, field, fieldBase_congr h]

/-- The declarations of a file depend on the registry by the fields of the file alone. -/
theorem build_congr {f : File} (h : ∀ m ∈ f.messages, ∀ fd ∈ m.fields, AgreesOn r s fd) :
    build options r f = build options s f := by
  have messages :
      f.messages.mapM (ofMessage options r) = f.messages.mapM (ofMessage options s) := by
    refine mapM_congr fun m hm => ?_
    rw [ofMessage, ofMessage, mapM_congr fun fd hfd => field_congr (h m hm fd hfd)]
  rw [build, build, messages]

end Declaration

/-! ## What a text depends on -/

/-- Registries in which a name means the same file, and which agree on the fields of that file, give
the same text or the same failure. -/
theorem generate_congr {name : String} (file : r.file name = s.file name)
    (fields : ∀ f, s.file name = .ok f → ∀ m ∈ f.messages, ∀ fd ∈ m.fields, AgreesOn r s fd)
    (dialectName : String) (options : Options) :
    generate dialectName options r name = generate dialectName options s name := by
  unfold generate
  cases Dialect.ofName? dialectName with
  | none => rfl
  | some d =>
    dsimp only
    unfold Dialect.generate
    rw [file]
    cases hfound : s.file name with
    | error u => rfl
    | ok f => simp only [Declaration.build_congr (fields f hfound)]

/-- Two look-ups end alike: both fail, or both find something, with the same visible part. -/
def EndAlike {α β : Type} (visible : α → β) (x y : Except Unresolved α) : Prop :=
  ((∃ u, x = .error u) ∧ ∃ v, y = .error v) ∨
    ∃ a b, x = .ok a ∧ y = .ok b ∧ visible a = visible b

/-- Look-ups that end alike show the same, if failing they fail the same way. -/
theorem EndAlike.map_eq {α β : Type} {visible : α → β} {x y : Except Unresolved α}
    (h : EndAlike visible x y) (failure : ∀ u v, x = .error u → y = .error v → u = v) :
    x.map visible = y.map visible := by
  obtain ⟨⟨u, hx⟩, v, hy⟩ | ⟨a, b, rfl, rfl, same⟩ := h
  · rw [hx, hy, failure u v hx hy]
  · exact congrArg Except.ok same

/-- Two registries are the same for a file name: it is unknown to both, or it means the same file,
and whatever message or enum a field of that file refers to is unknown to both, or is written alike
— its full name and package are the same, and the value names of an enum. -/
inductive SameForFile (r s : Registry) (name : String) : Prop
  | unknown {u v : Unresolved} : r.file name = .error u → s.file name = .error v →
      SameForFile r s name
  | found {f : File} : r.file name = .ok f → s.file name = .ok f →
      (∀ m ∈ f.messages, ∀ fd ∈ m.fields, fd.kind = 11 →
        EndAlike (fun m => (m.fullName, m.package)) (r.message fd.typeName)
          (s.message fd.typeName)) →
      (∀ m ∈ f.messages, ∀ fd ∈ m.fields, fd.kind = 14 →
        EndAlike (fun e => (e.fullName, e.package, e.values)) (r.enum fd.typeName)
          (s.enum fd.typeName)) →
      SameForFile r s name

theorem SameForFile.file_eq {name : String} (same : SameForFile r s name) :
    r.file name = s.file name := by
  obtain ⟨hr, hs⟩ | ⟨hr, hs, -, -⟩ := same
  · rw [hr, hs, (Registry.file_eq_error_iff.mp hr).2, (Registry.file_eq_error_iff.mp hs).2]
  · rw [hr, hs]

theorem SameForFile.agreesOn {name : String} (same : SameForFile r s name) {f : File}
    (hf : s.file name = .ok f) {m : Message} (hm : m ∈ f.messages) {fd : Field}
    (hfd : fd ∈ m.fields) : AgreesOn r s fd := by
  obtain ⟨-, hs⟩ | ⟨-, hs, messages, enums⟩ := same
  · exact absurd hf (ne_ok_of_eq_error hs f)
  · obtain rfl := Except.ok.inj (hs.symm.trans hf)
    refine ⟨fun kind => (messages m hm fd hfd kind).map_eq fun u v hu hv => ?_,
      fun kind => (enums m hm fd hfd kind).map_eq fun u v hu hv => ?_⟩
    · rw [(Registry.message_eq_error_iff.mp hu).2, (Registry.message_eq_error_iff.mp hv).2]
    · rw [(Registry.enum_eq_error_iff.mp hu).2, (Registry.enum_eq_error_iff.mp hv).2]

/-- Registries that are the same for a file give it the same text, or the same failure with the same
data — whatever else they hold, in every dialect and under all options. -/
theorem generate_eq_of_sameForFile (r s : Registry) (name : String) (same : SameForFile r s name)
    (dialectName : String) (options : Options) :
    generate dialectName options r name = generate dialectName options s name :=
  generate_congr same.file_eq (fun _ hf _ hm _ hfd => same.agreesOn hf hm hfd) dialectName options

/-- A file with a part whose size is of some enum. -/
def partFile (size : String) : File where
  name := "part.proto"
  package := "shop"
  messages := [{
    name := "Part"
    fullName := ".shop.Part"
    package := "shop"
    fields := [{ name := "in", kind := 11, typeName := ".shop.Crate", repeated := true },
      { name := "size", kind := 14, typeName := size }]
  }]

/-- A file with a crate of some fields, an enum of sizes and some more messages. -/
def crateFile (name : String) (fields : List Field) (others : List Message) : File where
  name := name
  package := "shop"
  messages := { name := "Crate", fullName := ".shop.Crate", package := "shop", fields } :: others
  enums := [{ name := "Size", fullName := ".shop.Size", package := "shop", values := ["S", "L"] }]

/-- The fields of the crate, the file it stands in and the messages beside it do not matter to the
part — neither where its size is found nor where it is not. -/
theorem generate_eq_of_sameForFile_part :
    ((∃ text, generate "flow" { embedEnums := true }
        (.ofFiles [crateFile "a.proto" [] [], partFile "shop.Size"]) "part.proto" = .ok text) ∧
      generate "flow" { embedEnums := true }
          (.ofFiles [crateFile "a.proto" [] [], partFile "shop.Size"]) "part.proto"
        = generate "flow" { embedEnums := true }
          (.ofFiles [partFile "shop.Size", crateFile "b.proto" [{ name := "id", kind := 3 }]
            [{ name := "Lid", fullName := ".shop.Lid" }]]) "part.proto") ∧
    generate "elm" {} (.ofFiles [crateFile "a.proto" [] [], partFile "Size"]) "part.proto"
        = .error (.unresolved ⟨"Size", "enum", some "size", some "shop.Part"⟩) ∧
      generate "elm" {} (.ofFiles [crateFile "a.proto" [] [], partFile "Size"]) "part.proto"
        = generate "elm" {}
          (.ofFiles [partFile "Size", crateFile "b.proto" [{ name := "id", kind := 3 }]
            [{ name := "Lid", fullName := ".shop.Lid" }]]) "part.proto" := by
  refine ⟨⟨⟨_, rfl⟩, ?_⟩, rfl, ?_⟩
  · refine generate_eq_of_sameForFile _ _ _ (.found (f := partFile "shop.Size") rfl rfl ?_ ?_) _ _
    · rintro m (_ | ⟨_, ⟨⟩⟩) fd (_ | ⟨_, _ | ⟨_, ⟨⟩⟩⟩) kind
      · exact .inr ⟨_, _, rfl, rfl, rfl⟩
      · exact absurd kind (by decide)
    · rintro m (_ | ⟨_, ⟨⟩⟩) fd (_ | ⟨_, _ | ⟨_, ⟨⟩⟩⟩) kind
      · exact absurd kind (by decide)
      · exact .inr ⟨_, _, rfl, rfl, rfl⟩
  · refine generate_eq_of_sameForFile _ _ _ (.found (f := partFile "Size") rfl rfl ?_ ?_) _ _
    · rintro m (_ | ⟨_, ⟨⟩⟩) fd (_ | ⟨_, _ | ⟨_, ⟨⟩⟩⟩) kind
      · exact .inr ⟨_, _, rfl, rfl, rfl⟩
      · exact absurd kind (by decide)
    · rintro m (_ | ⟨_, ⟨⟩⟩) fd (_ | ⟨_, _ | ⟨_, ⟨⟩⟩⟩) kind
      · exact absurd kind (by decide)
      · exact .inl ⟨⟨_, rfl⟩, _, rfl⟩

/-! ## Alike registries -/

theorem Schema.Registry.Alike.agreesOn (alike : r.Alike s) (f : Field) : AgreesOn r s f :=
  ⟨fun _ => by rw [alike.message], fun _ => by rw [alike.enum]⟩

/-- Alike registries give the same text, or the same failure. -/
theorem generate_eq_of_alike (alike : r.Alike s) (dialectName : String) (options : Options)
    (name : String) :
    generate dialectName options r name = generate dialectName options s name :=
  generate_congr (by rw [alike.file]) (fun _ _ _ _ fd _ => alike.agreesOn fd) dialectName options

theorem Exchange.outputsOf_eq_of_alike (alike : r.Alike s) (dialectName : String)
    (options : Options) : ∀ names : List String,
      outputsOf dialectName options r names = outputsOf dialectName options s names
  | [] => rfl
  | name :: names => by
      have first : outputOf dialectName options r name = outputOf dialectName options s name := by
        rw [outputOf, outputOf, generate_eq_of_alike alike]
      rw [outputsOf, outputsOf, first, outputsOf_eq_of_alike alike dialectName options names]

/-! ## Distinct names -/

namespace FindsLast

variable {α : Type} {lookup lookup' : String → Except Unresolved α} {kind : String}
  {hasName : α → String → Prop} {xs ys : List α}

/-- If names tell entries apart, an entry is found wherever it stands. -/
theorem ok_iff_mem (h : FindsLast lookup kind hasName xs) {name : String}
    (only : ∀ x ∈ xs, ∀ y ∈ xs, hasName x name → hasName y name → x = y) {x : α} :
    lookup name = .ok x ↔ x ∈ xs ∧ hasName x name := by
  constructor
  · intro hx
    exact ((h.ok_iff name x).mp hx).mem
  · rintro ⟨hx, hname⟩
    obtain ⟨y, hy⟩ := (h.exists_ok_iff name).mpr ⟨x, hx, hname⟩
    obtain ⟨hmem, hname'⟩ := ((h.ok_iff name y).mp hy).mem
    rw [hy, only x hx y hmem hname hname']

/-- If names tell entries apart, the order of the entries does not matter. -/
theorem eq_of_perm (h : FindsLast lookup kind hasName xs) (h' : FindsLast lookup' kind hasName ys)
    (perm : xs.Perm ys)
    (only : ∀ name, ∀ x ∈ xs, ∀ y ∈ xs, hasName x name → hasName y name → x = y) :
    lookup = lookup' := by
  refine h.eq_of_isLast_iff h' fun name x => ?_
  have only' : ∀ x ∈ ys, ∀ y ∈ ys, hasName x name → hasName y name → x = y :=
    fun x hx y hy => only name x (perm.mem_iff.mpr hx) y (perm.mem_iff.mpr hy)
  rw [← h.ok_iff, ← h'.ok_iff, h.ok_iff_mem (only name), h'.ok_iff_mem only', perm.mem_iff]

end FindsLast

namespace Descriptor

/-- The dotted names of the messages of a file, at any depth. -/
def File.messageNames (f : File) : List String :=
  (positions f.messages).map fun p => dotted f.package (p.1 ++ [p.2.name])

/-- The dotted names of the enums of a file: of its own, and of those in its messages at any
depth. -/
def File.enumNames (f : File) : List String :=
  f.enums.map (fun e => dotted f.package [e.name]) ++ (positions f.messages).flatMap fun p =>
    p.2.enums.map fun e => dotted f.package (p.1 ++ [p.2.name] ++ [e.name])

/-- No two files, no two messages and no two enums share a name, whatever the leading dots. -/
structure Distinct (files : List File) : Prop where
  fileNames : (files.map File.name).Nodup
  messageNames : ((files.flatMap File.messageNames).map Name.canonical).Nodup
  enumNames : ((files.flatMap File.enumNames).map Name.canonical).Nodup

theorem canonical_under (f : File) (outer : List String) (name : String) :
    Name.canonical (under (outer.foldl under f.scope) name)
      = Name.canonical (dotted f.package (outer ++ [name])) :=
  canonical_under_eq_iff.mpr rfl

/-- The messages of the schema file are registered under their dotted names. -/
theorem File.map_canonical_messages (f : File) :
    f.toSchema.messages.map (Name.canonical ·.fullName) = f.messageNames.map Name.canonical := by
  change (flattenMessages f f.scope f.messages).map _ = _
  rw [flattenMessages_eq_map, messageNames, List.map_map, List.map_map]
  exact List.map_congr_left fun p _ => canonical_under f p.1 p.2.name

/-- The enums of the schema file are registered under their dotted names. -/
theorem File.map_canonical_enums_perm (f : File) :
    (f.toSchema.enums.map (Name.canonical ·.fullName)).Perm (f.enumNames.map Name.canonical) := by
  change ((f.enums.map (Enum.toSchema f f.scope) ++ enumsInside f f.scope f.messages).map _).Perm _
  rw [enumNames, List.map_append, List.map_append, List.map_map, List.map_map]
  refine .append (.of_eq ?_) (((enumsInside_perm f f.scope f.messages).map _).trans (.of_eq ?_))
  · exact List.map_congr_left fun e _ => canonical_under f [] e.name
  · rw [List.map_flatMap, List.map_flatMap]
    refine List.flatMap_congr fun p _ => ?_
    rw [enumsAt, List.map_map, List.map_map]
    refine List.map_congr_left fun e _ => ?_
    rw [Function.comp_apply, Function.comp_apply, ← canonical_under, List.foldl_append]
    rfl

variable {fs gs : List File}

theorem Distinct.nodup_messages (distinct : Distinct fs) :
    (((fs.map File.toSchema).flatMap Schema.File.messages).map
      (Name.canonical ·.fullName)).Nodup := by
  rw [List.flatMap_map, List.map_flatMap, List.flatMap_congr fun f _ => f.map_canonical_messages,
    ← List.map_flatMap]
  exact distinct.messageNames

theorem Distinct.nodup_enums (distinct : Distinct fs) :
    (((fs.map File.toSchema).flatMap Schema.File.enums).map (Name.canonical ·.fullName)).Nodup := by
  have names : (fs.flatMap fun f => f.toSchema.enums.map (Name.canonical ·.fullName)).Perm
      (fs.flatMap fun f => f.enumNames.map Name.canonical) :=
    .flatMap_left fs fun f _ => f.map_canonical_enums_perm
  rw [List.flatMap_map, List.map_flatMap, names.nodup_iff, ← List.map_flatMap]
  exact distinct.enumNames

/-- With distinct names, no look-up tells in which order the files came. -/
theorem alike_of_perm (perm : fs.Perm gs) (distinct : Distinct fs) :
    (registry fs).Alike (registry gs) := by
  have here := Schema.Registry.goesByLast_ofFiles (fs.map File.toSchema)
  have there := Schema.Registry.goesByLast_ofFiles (gs.map File.toSchema)
  have permuted := perm.map File.toSchema
  have fileNames : ((fs.map File.toSchema).map Schema.File.name).Nodup := by
    rw [List.map_map]
    exact distinct.fileNames
  refine ⟨here.file.eq_of_perm there.file permuted fun name f hf g hg hfname hgname => ?_,
    here.message.eq_of_perm there.message (permuted.flatMap_right _)
      fun name m hm n hn hmname hnname => ?_,
    here.enum.eq_of_perm there.enum (permuted.flatMap_right _)
      fun name d hd e he hdname hename => ?_⟩
  · exact List.inj_on_of_nodup_map fileNames hf hg (hfname.trans hgname.symm)
  · exact List.inj_on_of_nodup_map distinct.nodup_messages hm hn
      (Name.canonical_eq_iff.mpr (hmname.trans hnname.symm))
  · exact List.inj_on_of_nodup_map distinct.nodup_enums hd he
      (Name.canonical_eq_iff.mpr (hdname.trans hename.symm))

end Descriptor

/-! ## The order of descriptors -/

namespace Exchange

/-- Over descriptors with distinct names, their order changes neither the response, be it outputs or
an error, nor what is said on the way. -/
theorem answer_eq_of_perm (dialectName : String) (r s : Request) (wanted : r.wanted = s.wanted)
    (parameter : r.parameter = s.parameter) (files : r.files.Perm s.files)
    (distinct : Descriptor.Distinct r.files) : answer dialectName r = answer dialectName s := by
  have alike := Descriptor.alike_of_perm files distinct
  have same : outputs dialectName r = outputs dialectName s := by
    simp only [outputs, parameter, wanted, outputsOf_eq_of_alike alike]
  rw [answer, answer, same]

/-- A file with a message in which an enum is nested. -/
def sideFile : Descriptor.File where
  name := "shelf.proto"
  package := "shop"
  messages := [{ name := "Shelf", enums := [{ name := "Side", values := ["LEFT"] }] }]

/-- A file that refers to that message and, under some name, to that enum. -/
def aisleFile (side : String) : Descriptor.File where
  name := "aisle.proto"
  package := "shop"
  messages := [{
    name := "Aisle"
    fields := [{ name := "shelf", type := .message, typeName := ".shop.Shelf" },
      { name := "side", type := .enum, typeName := side }]
  }]

/-- A request for both files. -/
def aisleRequest (files : List Descriptor.File) : Request where
  wanted := ["aisle.proto", "shelf.proto"]
  files := files

/-- Two files may change places, both where the request is answered and where the side is not
found. -/
theorem answer_eq_of_perm_aisle :
    ((answer "flow" (aisleRequest [sideFile, aisleFile ".shop.Shelf.Side"])).result.error = none ∧
      answer "flow" (aisleRequest [sideFile, aisleFile ".shop.Shelf.Side"])
        = answer "flow" (aisleRequest [aisleFile ".shop.Shelf.Side", sideFile])) ∧
    (answer "flow" (aisleRequest [sideFile, aisleFile ".shop.Side"])).result.error
        = some "Unresolved enum '.shop.Side' referenced by field 'side' of message 'shop.Aisle'" ∧
      answer "flow" (aisleRequest [sideFile, aisleFile ".shop.Side"])
        = answer "flow" (aisleRequest [aisleFile ".shop.Side", sideFile]) := by
  have found : Descriptor.Distinct [sideFile, aisleFile ".shop.Shelf.Side"] :=
    ⟨by decide, by decide, by decide⟩
  have missed : Descriptor.Distinct [sideFile, aisleFile ".shop.Side"] :=
    ⟨by decide, by decide, by decide⟩
  refine ⟨⟨rfl, ?_⟩, rfl, ?_⟩
  · exact answer_eq_of_perm "flow" (aisleRequest _) (aisleRequest _) rfl rfl (.swap _ _ _) found
  · exact answer_eq_of_perm "flow" (aisleRequest _) (aisleRequest _) rfl rfl (.swap _ _ _) missed

end Exchange

end SchemaTypes
