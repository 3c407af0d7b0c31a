import SchemaTypes.Proofs.Traversal
import SchemaTypes.Proofs.Word
import SchemaTypes.Proofs.Wording

/-!
# Proofs/Qualified — names are paths, and qualifying adds the package

In a file whose package does not start with a dot, a full name always lies in its package
(`inPackage_pathName`), so the word of the package is all that is cut from it and the path is what
is left (`qualify_pathName`).  This holds for names and packages of any form: whether to cut is
decided by the dotted name, and the cut is as long as the word of the package.

Over whole files, qualifying all names puts the word of a package in front: that of the file itself
before the names it declares, and before each reference that of the file its target comes from
(`qualifying_adds_packages`).
-/

namespace SchemaTypes

open Schema

/-! ## Words of paths -/

namespace Descriptor

/-- The dots between the segments of a path leave no trace in its word. -/
theorem word_join_dots (path : List String) :
    Name.word (String.join (path.map ("." ++ ·))) = Name.word (String.join path) := by
  induction path with
  | nil => rfl
  | cons name path ih =>
    have dot : Name.word "." = "" := rfl
    rw [List.map_cons, String.join_cons, String.join_cons, Name.word_append, Name.word_append,
      Name.word_append, ih, dot, String.empty_append]

theorem word_pathName (f : File) (path : List String) :
    Name.word (f.pathName path) = Name.word f.package ++ Name.word (String.join path) := by
  have scope : Name.word (if f.package = "" then "" else "." ++ f.package)
      = Name.word f.package := by
    split
    · next h => rw [h]
    · rw [Name.word_append]
      exact String.empty_append
  rw [File.pathName, Name.word_append, scope, word_join_dots]

/-- A full name lies in the package of its file. -/
theorem inPackage_pathName {f : File} (plain : f.package.toList.head? ≠ some '.')
    (nonempty : f.package ≠ "") {path : List String} (hpath : path ≠ []) :
    Name.inPackage f.package (f.pathName path) = true := by
  obtain ⟨name, rest, rfl⟩ := List.exists_cons_of_ne_nil hpath
  have behind := Name.inPackage_dot_append plain nonempty
    (name ++ String.join (rest.map ("." ++ ·)))
  rw [File.pathName, if_neg nonempty, List.map_cons, String.join_cons]
  simpa only [String.append_assoc] using behind

/-- The public name of a path in a file: its segments run together, if names are always qualified
behind those of the package. -/
def File.publicName (f : File) : Bool → List String → String
  | false, path => Name.word (String.join path)
  | true, path => Name.word f.package ++ Name.word (String.join path)

/-- A full name is written as the public name of its path. -/
theorem qualify_pathName {f : File} (plain : f.package.toList.head? ≠ some '.')
    {path : List String} (hpath : path ≠ []) (always : Bool) :
    Name.qualify (f.pathName path) f.package always = f.publicName always path := by
  cases always with
  | true => exact word_pathName f path
  | false =>
    have cut := Name.word_eq_append_qualify fun nonempty => inPackage_pathName plain nonempty hpath
    rw [word_pathName, String.append_right_inj] at cut
    exact cut.symm

/-- The name of a declared message is the public name of its path. -/
theorem messageName_messageIn {f : File} (plain : f.package.toList.head? ≠ some '.')
    (outer : List String) (m : Message) (options : Options) :
    Declaration.messageName options (f.messageIn outer m)
      = f.publicName options.alwaysQualify (outer ++ [m.name]) :=
  qualify_pathName plain (by simp) options.alwaysQualify

/-- The name of a declared enum is the public name of its path. -/
theorem enumName_enumIn {f : File} (plain : f.package.toList.head? ≠ some '.')
    (outer : List String) (e : Enum) (options : Options) :
    Declaration.enumName options (f.enumIn outer e)
      = f.publicName options.alwaysQualify (outer ++ [e.name]) :=
  qualify_pathName plain (by simp) options.alwaysQualify

/-- Qualified, a message has the word of its file's package in front. -/
theorem messageName_qualified {f : File} (plain : f.package.toList.head? ≠ some '.')
    {s : Schema.Message} (hs : s ∈ f.toSchema.messages) (embed : Bool) :
    Declaration.messageName ⟨true, embed⟩ s
      = Name.word f.package ++ Declaration.messageName ⟨false, embed⟩ s := by
  obtain ⟨outer, m, -, rfl⟩ := mem_messages_toSchema.mp hs
  rw [toSchema_eq_messageIn, messageName_messageIn plain, messageName_messageIn plain]
  rfl

/-- Qualified, an enum has the word of its file's package in front. -/
theorem enumName_qualified {f : File} (plain : f.package.toList.head? ≠ some '.')
    {s : Schema.Enum} (hs : s ∈ f.toSchema.enums) (embed : Bool) :
    Declaration.enumName ⟨true, embed⟩ s
      = Name.word f.package ++ Declaration.enumName ⟨false, embed⟩ s := by
  obtain ⟨outer, e, -, rfl⟩ := mem_enums_toSchema.mp hs
  rw [toSchema_eq_enumIn, enumName_enumIn plain, enumName_enumIn plain]
  rfl

end Descriptor

/-! ## References and where they come from -/

namespace TypeExpr

mutual

/-- The type with each reference replaced by another. -/
def mapReferences (g : String → String) : TypeExpr → TypeExpr
  | .reference name => .reference (g name)
  | .array element => .array (element.mapReferences g)
  | .record fields => .record (mapFieldReferences g fields)
  | .primitive name => .primitive name
  | .alternatives members => .alternatives members
  | .foreign value => .foreign value

/-- The fields with each reference in their types replaced by another. -/
def mapFieldReferences (g : String → String) : List (String × TypeExpr) → List (String × TypeExpr)
  | [] => []
  | (name, type) :: fields => (name, type.mapReferences g) :: mapFieldReferences g fields

end

/-- An array has the references of its element, so repetition makes no difference. -/
theorem mapReferences_repeated (g : String → String) (b : Bool) (t : TypeExpr) :
    (if b then .array t else t : TypeExpr).mapReferences g
      = if b then .array (t.mapReferences g) else t.mapReferences g := by
  cases b
  · rfl
  · simp [mapReferences]

end TypeExpr

namespace Descriptor

/-- The file that the target of a field was registered from: the target stands in it, and no file
behind it has a message, or an enum, of the name. -/
inductive Origin (files : List File) (fd : Schema.Field) (g : File) : Prop
  | message {target : Schema.Message} : fd.kind = 11 →
      (registry files).message fd.typeName = .ok target → target ∈ g.toSchema.messages →
      IsLast (fun h => ∃ m ∈ h.toSchema.messages, Name.bare m.fullName = Name.bare fd.typeName)
        files g → Origin files fd g
  | enum {target : Schema.Enum} : fd.kind = 14 →
      (registry files).enum fd.typeName = .ok target → target ∈ g.toSchema.enums →
      IsLast (fun h => ∃ e ∈ h.toSchema.enums, Name.bare e.fullName = Name.bare fd.typeName)
        files g → Origin files fd g

/-- What a look-up by the last entry finds was registered from some file. -/
theorem exists_file_of_found {α : Type} {lookup : String → Except Schema.Unresolved α}
    {kind : String} {hasName : α → String → Prop} {entries : Schema.File → List α}
    {files : List File}
    (finds : FindsLast lookup kind hasName ((files.map File.toSchema).flatMap entries))
    {name : String} {target : α} (found : lookup name = .ok target) :
    ∃ g, target ∈ entries g.toSchema ∧
      IsLast (fun h => ∃ x ∈ entries h.toSchema, hasName x name) files g := by
  obtain ⟨s, lastFile, last⟩ := ((finds.ok_iff name target).mp found).of_flatMap
  obtain ⟨g, rfl, lastDescriptor⟩ := lastFile.of_map
  exact ⟨g, last.mem.1, lastDescriptor⟩

/-! ## Two wordings -/

/-- The types of a field without and with qualified names: the word of the package that the target
comes from in front of each reference, and no difference where nothing is referred to. -/
def Qualifies (files : List File) (fd : Schema.Field) (short full : TypeExpr) : Prop :=
  (∃ g, Origin files fd g ∧ full = short.mapReferences (Name.word g.package ++ ·)) ∨
    (fd.kind ≠ 11 ∧ fd.kind ≠ 14 ∧ full = short)

theorem qualifies_of_known {files : List File}
    (plain : ∀ g ∈ files, g.package.toList.head? ≠ some '.') {fd : Schema.Field}
    (known : ¬fd.Unknown (registry files)) (embed : Bool) :
    Qualifies files fd (Declaration.typed ⟨false, embed⟩ (registry files) fd).2
      (Declaration.typed ⟨true, embed⟩ (registry files) fd).2 := by
  have entries := Schema.Registry.goesByLast_ofFiles (files.map File.toSchema)
  unfold Declaration.typed
  obtain ⟨hk, target, found⟩ | ⟨hk, target, found⟩ | ⟨hmessage, henum⟩ :=
    Declaration.refers_of_known known
  · obtain ⟨g, hg, last⟩ := exists_file_of_found entries.message found
    refine .inl ⟨g, .message hk found hg last, ?_⟩
    rw [Declaration.baseType_of_message hk found, Declaration.baseType_of_message hk found,
      messageName_qualified (plain g last.mem.1) hg, TypeExpr.mapReferences_repeated,
      TypeExpr.mapReferences]
  · obtain ⟨g, hg, last⟩ := exists_file_of_found entries.enum found
    refine .inl ⟨g, .enum hk found hg last, ?_⟩
    rw [Declaration.baseType_of_enum hk found, Declaration.baseType_of_enum hk found,
      enumName_qualified (plain g last.mem.1) hg, TypeExpr.mapReferences_repeated]
    cases embed
    · simp [TypeExpr.mapReferences]
    · simp [TypeExpr.mapReferences]
  · refine .inr ⟨hmessage, henum, ?_⟩
    rw [Declaration.baseType_congr hmessage henum ⟨true, embed⟩ ⟨false, embed⟩]

/-- The declarations of a file are named by paths.  Each message and each enum is listed in the
schema file, and declared under the public name of the messages around it and its own name. -/
structure NamedByPaths (f : File) : Prop where
  message {outer : List String} {m : Message} : MessageAt f.messages outer m →
    f.messageIn outer m ∈ f.toSchema.messages ∧ ∀ options registry d,
      Declaration.ofMessage options registry (f.messageIn outer m) = .ok d →
        d.name = f.publicName options.alwaysQualify (outer ++ [m.name])
  enum {outer : List String} {e : Enum} : EnumAt f outer e →
    f.enumIn outer e ∈ f.toSchema.enums ∧ ∀ options,
      (Declaration.ofEnum options (f.enumIn outer e)).name
        = f.publicName options.alwaysQualify (outer ++ [e.name])

theorem namedByPaths {f : File} (plain : f.package.toList.head? ≠ some '.') : NamedByPaths f where
  message := by
    intro outer m h
    refine ⟨messageIn_mem h, fun options registry d built => ?_⟩
    obtain ⟨fields, -, rfl⟩ := Declaration.ofMessage_eq_ok_iff.mp built
    exact messageName_messageIn plain outer m options
  enum := by
    intro outer e h
    exact ⟨enumIn_mem h, fun options => enumName_enumIn plain outer e options⟩

/-- Over packages that do not start with a dot, declarations are named by paths.  Qualifying all
names changes neither whether a file is built nor by what it fails; and of its declarations it
changes the names alone, by the package of the file, and the references in the types of fields, by
the package of the file that each target was registered from. -/
theorem qualifying_adds_packages (files : List File)
    (plain : ∀ g ∈ files, g.package.toList.head? ≠ some '.') (f : File) (hf : f ∈ files)
    (embed : Bool) :
    NamedByPaths f ∧
      (∀ u, Declaration.build ⟨true, embed⟩ (registry files) f.toSchema = .error u ↔
        Declaration.build ⟨false, embed⟩ (registry files) f.toSchema = .error u) ∧
      ∀ ds, Declaration.build ⟨false, embed⟩ (registry files) f.toSchema = .ok ds →
        ∃ short full : Wording, ds = short.declarations f.toSchema ∧
          Declaration.build ⟨true, embed⟩ (registry files) f.toSchema
            = .ok (full.declarations f.toSchema) ∧
          (∀ e ∈ f.toSchema.enums, full.enumName e = Name.word f.package ++ short.enumName e) ∧
          (∀ m ∈ f.toSchema.messages,
            full.messageName m = Name.word f.package ++ short.messageName m) ∧
          ∀ m ∈ f.toSchema.messages, ∀ fd ∈ m.fields,
            Qualifies files fd (short.type fd) (full.type fd) := by
  refine ⟨namedByPaths (plain f hf), fun u => Declaration.build_eq_error_congr, fun ds built => ?_⟩
  refine ⟨Declaration.wording ⟨false, embed⟩ (registry files),
    Declaration.wording ⟨true, embed⟩ (registry files),
    Declaration.eq_declarations_of_build built, Declaration.build_eq_ok_wording built _,
    fun e he => enumName_qualified (plain f hf) he embed,
    fun m hm => messageName_qualified (plain f hf) hm embed, fun m hm fd hfd => ?_⟩
  exact qualifies_of_known plain (Declaration.known_of_build built m hm fd hfd) embed

/-- A file with an enum, in a package of two segments. -/
def tagFile : File where
  name := "tag.proto"
  package := "base.util"
  enums := [{ name := "Tag", values := ["RED"] }]

/-- The tags of an item. -/
def tags : Field where
  name := "tags"
  type := .enum
  label := .repeated
  typeName := ".base.util.Tag"

/-- A file with an item that is named like its package, and a cell inside it. -/
def cartFile : File where
  name := "cart.proto"
  package := "cart"
  messages := [{
    name := "cartItem"
    fields := [tags, { name := "cell", type := .message, typeName := "cart.cartItem.Cell" }]
    nested := [{ name := "Cell" }]
  }]

/-- The declarations of `cartFile` for given words in front of its own names and of the tags. -/
def cartDeclarations (own tag : String) : List Declaration :=
  [⟨own ++ "cartItem", .record [("tags", .array (.reference (tag ++ "Tag"))),
      ("cell", .reference (own ++ "cartItemCell"))]⟩,
    ⟨own ++ "cartItemCell", .record []⟩]

/-- Qualified, the names of the cart have its package in front, and the tags theirs. -/
theorem qualifying_adds_packages_cart :
    Declaration.build {} (registry [tagFile, cartFile]) cartFile.toSchema
        = .ok (cartDeclarations "" "") ∧
      Declaration.build ⟨true, false⟩ (registry [tagFile, cartFile]) cartFile.toSchema
        = .ok (cartDeclarations "cart" "baseutil") ∧
      ∃ short full : Wording, cartDeclarations "" "" = short.declarations cartFile.toSchema ∧
        cartDeclarations "cart" "baseutil" = full.declarations cartFile.toSchema ∧
        Qualifies [tagFile, cartFile] tags.toSchema (short.type tags.toSchema)
          (full.type tags.toSchema) := by
  obtain ⟨-, -, worded⟩ := qualifying_adds_packages [tagFile, cartFile] (by decide) cartFile
    (by simp) false
  obtain ⟨short, full, hshort, hfull, -, -, types⟩ := worded (cartDeclarations "" "") rfl
  have qualified : Declaration.build ⟨true, false⟩ (registry [tagFile, cartFile]) cartFile.toSchema
      = .ok (cartDeclarations "cart" "baseutil") := rfl
  exact ⟨rfl, qualified, short, full, hshort, Except.ok.inj (qualified.symm.trans hfull),
    types _ List.mem_cons_self _ List.mem_cons_self⟩

end Descriptor

end SchemaTypes
