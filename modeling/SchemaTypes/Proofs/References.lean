import SchemaTypes.Proofs.Declarations

/-!
# Proofs/References — a reference is the name of a declaration

The word for a message or an enum is formed twice: where it is declared, from the file's own list,
and where a field refers to it, from what the registry holds under the field's type name.  Over
files whose messages, and whose enums, have distinct canonical names, `reference_names_declaration`
says that both are the same word.

The registry settles it: what is found is an entry of the files, the only one of its name
(`message_ofFiles_unique`, `enum_ofFiles_unique`), and a declaration is named by the entry alone
(`declares_message`, `declares_enum`).
-/

namespace SchemaTypes

open Schema

/-! ## The only entry of a name -/

/-- The files hold exactly one message of the name, whatever its leading dots. -/
def OnlyMessage (fs : List File) (name : String) (m : Message) : Prop :=
  (fs.flatMap File.messages).filter (Name.canonical ·.fullName == Name.canonical name) = [m]

/-- The files hold exactly one enum of the name, whatever its leading dots. -/
def OnlyEnum (fs : List File) (name : String) (e : Enum) : Prop :=
  (fs.flatMap File.enums).filter (Name.canonical ·.fullName == Name.canonical name) = [e]

/-- A message that is found stands in one of the files. -/
theorem mem_of_message_ofFiles {fs : List File} {name : String} {m : Message}
    (h : (Registry.ofFiles fs).message name = .ok m) : ∃ g ∈ fs, m ∈ g.messages := by
  rw [Registry.message_eq_ok_iff, Registry.messages_ofFiles] at h
  exact List.mem_flatMap.mp (mem_of_find?_reverse h)

/-- An enum that is found stands in one of the files. -/
theorem mem_of_enum_ofFiles {fs : List File} {name : String} {e : Enum}
    (h : (Registry.ofFiles fs).enum name = .ok e) : ∃ g ∈ fs, e ∈ g.enums := by
  rw [Registry.enum_eq_ok_iff, Registry.enums_ofFiles] at h
  exact List.mem_flatMap.mp (mem_of_find?_reverse h)

theorem message_ofFiles_unique {fs : List File} {name : String} {m : Message}
    (distinct : ((fs.flatMap File.messages).map (Name.canonical ·.fullName)).Nodup)
    (h : (Registry.ofFiles fs).message name = .ok m) : OnlyMessage fs name m := by
  rw [Registry.message_eq_ok_iff, Registry.messages_ofFiles] at h
  exact filter_eq_singleton distinct h

theorem enum_ofFiles_unique {fs : List File} {name : String} {e : Enum}
    (distinct : ((fs.flatMap File.enums).map (Name.canonical ·.fullName)).Nodup)
    (h : (Registry.ofFiles fs).enum name = .ok e) : OnlyEnum fs name e := by
  rw [Registry.enum_eq_ok_iff, Registry.enums_ofFiles] at h
  exact filter_eq_singleton distinct h

/-! ## The declaration of an entry -/

/-- Once built, the declarations of a file hold a record of the name in the place of the message. -/
def DeclaresMessage (options : Options) (registry : Registry) (g : File) (m : Message)
    (name : String) : Prop :=
  ∀ (ds : List Declaration) (k : ℕ), Declaration.build options registry g = .ok ds →
    g.messages[k]? = some m → ∃ fields, ds[g.enums.length + k]? = some ⟨name, .record fields⟩

/-- Once built, the declarations of a file hold a union of the name in the place of the enum. -/
def DeclaresEnum (options : Options) (registry : Registry) (g : File) (e : Enum)
    (name : String) : Prop :=
  ∀ (ds : List Declaration) (k : ℕ), Declaration.build options registry g = .ok ds →
    g.enums[k]? = some e → ds[k]? = some ⟨name, .alternatives e.values⟩

theorem declares_message (options : Options) (registry : Registry) (g : File) (m : Message) :
    DeclaresMessage options registry g m (Declaration.messageName options m) := by
  intro ds k built hm
  obtain ⟨d, hd, hmd⟩ := Declaration.getElem?_build_message built hm
  obtain ⟨fields, -, rfl⟩ := Declaration.ofMessage_eq_ok_iff.mp hmd
  exact ⟨fields, hd⟩

theorem declares_enum (options : Options) (registry : Registry) (g : File) (e : Enum) :
    DeclaresEnum options registry g e (Declaration.enumName options e) :=
  fun _ _ built he => Declaration.getElem?_build_enum built he

/-! ## Declarations and references agree -/

/-- A name in the record of a place of the result, and the field of the message it comes from. -/
theorem exists_field_of_reference {options : Options} {registry : Registry} {f : File}
    {ds : List Declaration} (built : Declaration.build options registry f = .ok ds) {i j : ℕ}
    {declared label name : String} {fields : List (String × TypeExpr)} {t : TypeExpr}
    (hd : ds[i]? = some ⟨declared, .record fields⟩) (ht : fields[j]? = some (label, t))
    (hname : name ∈ t.references) :
    ∃ k m fd, i = f.enums.length + k ∧ f.messages[k]? = some m ∧ m.fields[j]? = some fd ∧
      ((fd.kind = 11 ∧ ∃ target, registry.message fd.typeName = .ok target ∧
          name = Declaration.messageName options target) ∨
        (fd.kind = 14 ∧ ∃ target, registry.enum fd.typeName = .ok target ∧
          name = Declaration.enumName options target)) := by
  obtain ⟨e, -, he⟩ | ⟨k, m, hi, hm, hmd⟩ := Declaration.build_cases built hd
  · exact absurd (congrArg Declaration.body he) nofun
  · obtain ⟨records, hrecords, hrec⟩ := Declaration.ofMessage_eq_ok_iff.mp hmd
    obtain rfl : records = fields := by simpa using congrArg Declaration.body hrec
    obtain ⟨fd, hfd, hfield⟩ := getElem?_of_forall₂_right hrecords ht
    exact ⟨k, m, fd, hi, hm, hfd, Declaration.field_references hfield hname⟩

/-- A field's reference by `name` agrees with the declarations: the field's type name is that of
exactly one message or enum of the files, every file that lists it declares it under `name`, and the
declarations at hand do so if their own file lists it. -/
def Agrees (fs : List File) (options : Options) (f : File) (ds : List Declaration) (fd : Field)
    (name : String) : Prop :=
  (fd.kind = 11 ∧ ∃ target, OnlyMessage fs fd.typeName target ∧ (∃ g ∈ fs, target ∈ g.messages) ∧
      (∀ g ∈ fs, DeclaresMessage options (.ofFiles fs) g target name) ∧
      (target ∈ f.messages → ∃ d ∈ ds, d.name = name ∧ d.body.isRecord)) ∨
    (fd.kind = 14 ∧ ∃ target, OnlyEnum fs fd.typeName target ∧ (∃ g ∈ fs, target ∈ g.enums) ∧
      (∀ g ∈ fs, DeclaresEnum options (.ofFiles fs) g target name) ∧
      (target ∈ f.enums → ∃ d ∈ ds, d.name = name ∧ d.body = .alternatives target.values))

/-- Every name that a record refers to, at whatever depth, comes from the field in the same place of
the message in the same place — and agrees with the declarations of all files. -/
theorem reference_names_declaration (fs : List File) (options : Options)
    (distinctMessages : ((fs.flatMap File.messages).map (Name.canonical ·.fullName)).Nodup)
    (distinctEnums : ((fs.flatMap File.enums).map (Name.canonical ·.fullName)).Nodup)
    (f : File) (ds : List Declaration)
    (built : Declaration.build options (.ofFiles fs) f = .ok ds) (i j : ℕ)
    (declared label name : String) (fields : List (String × TypeExpr)) (t : TypeExpr)
    (hd : ds[i]? = some ⟨declared, .record fields⟩) (ht : fields[j]? = some (label, t))
    (hname : name ∈ t.references) :
    ∃ k m fd, i = f.enums.length + k ∧ f.messages[k]? = some m ∧ m.fields[j]? = some fd ∧
      Agrees fs options f ds fd name := by
  obtain ⟨k, m, fd, hi, hm, hfd, found⟩ := exists_field_of_reference built hd ht hname
  refine ⟨k, m, fd, hi, hm, hfd, ?_⟩
  rcases found with ⟨hk, target, htarget, rfl⟩ | ⟨hk, target, htarget, rfl⟩
  · have only := message_ofFiles_unique distinctMessages htarget
    have owned := mem_of_message_ofFiles htarget
    refine .inl ⟨hk, target, only, owned, fun g _ => declares_message options _ g target, ?_⟩
    intro own
    obtain ⟨b, hb⟩ := List.mem_iff_getElem?.mp own
    obtain ⟨records, hrecords⟩ := declares_message options _ f target ds b built hb
    exact ⟨_, List.mem_of_getElem? hrecords, rfl, rfl⟩
  · have only := enum_ofFiles_unique distinctEnums htarget
    have owned := mem_of_enum_ofFiles htarget
    refine .inr ⟨hk, target, only, owned, fun g _ => declares_enum options _ g target, ?_⟩
    intro own
    obtain ⟨b, hb⟩ := List.mem_iff_getElem?.mp own
    have union := declares_enum options _ f target ds b built hb
    exact ⟨_, List.mem_of_getElem? union, rfl, rfl⟩

/-- An order with items nested in it and a state from another file. -/
def orderFile : File where
  name := "order.proto"
  package := "shop"
  messages := [
    { name := "Order", fullName := ".shop.Order", package := "shop",
      fields := [{ name := "items", kind := 11, typeName := ".shop.Order.Item", repeated := true },
        { name := "state", kind := 14, typeName := "..base.State" }] },
    { name := "Item", fullName := ".shop.Order.Item", package := "shop" }]

/-- The states of an order. -/
def stateFile : File where
  name := "state.proto"
  package := "base"
  enums := [{ name := "State", fullName := ".base.State", package := "base",
              values := ["OPEN", "PAID"] }]

/-- The declarations of `orderFile`. -/
def orderDeclarations : List Declaration :=
  [⟨"Order", .record [("items", .array (.reference "OrderItem")), ("state", .reference "State")]⟩,
    ⟨"OrderItem", .record []⟩]

/-- Both references of an order agree: the items under an array, the state across files. -/
theorem reference_names_declaration_order :
    (∃ k m fd, 0 = orderFile.enums.length + k ∧ orderFile.messages[k]? = some m ∧
      m.fields[0]? = some fd ∧
      Agrees [stateFile, orderFile] {} orderFile orderDeclarations fd "OrderItem") ∧
    ∃ k m fd, 0 = orderFile.enums.length + k ∧ orderFile.messages[k]? = some m ∧
      m.fields[1]? = some fd ∧
      Agrees [stateFile, orderFile] {} orderFile orderDeclarations fd "State" :=
  ⟨reference_names_declaration [stateFile, orderFile] {} (by decide) (by decide) orderFile
      orderDeclarations rfl 0 0 "Order" "items" "OrderItem" _ _ rfl rfl (by decide),
    reference_names_declaration [stateFile, orderFile] {} (by decide) (by decide) orderFile
      orderDeclarations rfl 0 1 "Order" "state" "State" _ _ rfl rfl (by decide)⟩

end SchemaTypes
