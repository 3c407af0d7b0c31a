import SchemaTypes.Proofs.LastEntry
import SchemaTypes.Proofs.Readable
import SchemaTypes.Proofs.Traversal

/-!
# Proofs/OwnName — every declared type is found under its own name

Where the names of a scope are plain and distinct, no two messages of a file have the same path
(`nodup_paths`), nor do two enums (`nodup_enumPaths`).  Their full names are the paths behind the
package, and these tell the paths even without their leading dots, whatever the package is
(`path_eq_of_bare_eq`): how many dots lead a full name is decided by the package alone.

So the names that a file is registered under are distinct, and the last file that is added to a
registry answers for every one of them (`lookup_own_name`).
-/

namespace SchemaTypes

/-! ## Names of one segment -/

namespace Name

/-- A name of one segment: it is not empty and has no dot. -/
def Plain (name : String) : Prop := name ≠ "" ∧ '.' ∉ name.toList

instance (name : String) : Decidable (Plain name) := inferInstanceAs (Decidable (_ ∧ _))

/-- The name behind so many dots, whatever dots it started with. -/
def behind (count : ℕ) (name : String) : String :=
  String.ofList (List.replicate count '.') ++ bare name

theorem bare_behind (count : ℕ) (name : String) : bare (behind count name) = bare name := by
  have dots : ∀ c ∈ List.replicate count '.', (c == '.') = true := by simp
  have stripped : (bare name).toList.dropWhile (· == '.') = (bare name).toList := by
    rw [List.dropWhile_eq_self_iff, toList_bare]
    exact List.dropWhile_get_zero_not _ _
  rw [← String.toList_inj, toList_bare, behind, String.toList_append, String.toList_ofList,
    List.dropWhile_append_of_pos dots, stripped]

end Name

namespace Descriptor

/-! ## Paths by their full names -/

/-- The characters of a path, each segment behind a dot. -/
def segments (path : List String) : List Char := path.flatMap fun name => '.' :: name.toList

theorem toList_pathName (f : File) (path : List String) :
    (f.pathName path).toList = f.scope.toList ++ segments path := by
  rw [File.pathName, ← File.scope, String.toList_append, segments, String.toList_join,
    List.flatMap_map]
  simp

/-- A segment ends where the next one starts. -/
theorem stops_segments : ∀ path : List String, Stops (· != '.') (segments path)
  | [] => nofun
  | _ :: _ => stops_cons (by decide) _

/-- Segments without dots can be read off their path. -/
theorem path_eq_of_segments_eq {path other : List String} (hpath : ∀ name ∈ path, '.' ∉ name.toList)
    (hother : ∀ name ∈ other, '.' ∉ name.toList) (same : segments path = segments other) :
    path = other := by
  have letters {name : String} (h : '.' ∉ name.toList) : ∀ c ∈ name.toList, (c != '.') = true :=
    fun c hc => bne_iff_ne.mpr (ne_of_mem_of_not_mem hc h)
  induction path generalizing other with
  | nil =>
    cases other with
    | nil => rfl
    | cons name other => simp [segments] at same
  | cons name path ih =>
    cases other with
    | nil => simp [segments] at same
    | cons name' other =>
      obtain ⟨hname, hrest⟩ := List.forall_mem_cons.mp hpath
      obtain ⟨hname', hrest'⟩ := List.forall_mem_cons.mp hother
      have same' : name.toList ++ segments path = name'.toList ++ segments other :=
        (List.cons.inj same).2
      obtain ⟨rfl, rest⟩ := readable_toList (letters hname) (letters hname') (stops_segments path)
        (stops_segments other) same'
      rw [ih hrest hrest' rest]

/-- A path of plain names, not empty. -/
def PlainPath (path : List String) : Prop := path ≠ [] ∧ ∀ name ∈ path, Name.Plain name

/-- A path of plain names starts with a single dot. -/
theorem takeWhile_segments {path : List String} (h : PlainPath path) :
    (segments path).takeWhile (· == '.') = ['.'] := by
  obtain ⟨name, rest, rfl⟩ := List.exists_cons_of_ne_nil h.1
  obtain ⟨nonempty, dotless⟩ := h.2 name List.mem_cons_self
  obtain ⟨c, cs, hname⟩ := List.exists_cons_of_ne_nil (mt String.toList_eq_nil_iff.mp nonempty)
  have hc : c ≠ '.' := by
    rintro rfl
    exact dotless (hname ▸ List.mem_cons_self)
  simp [segments, hname, hc]

/-- Full names that differ at most in their leading dots belong to one path. -/
theorem path_eq_of_bare_eq {f : File} {path other : List String} (hpath : PlainPath path)
    (hother : PlainPath other)
    (same : Name.bare (f.pathName path) = Name.bare (f.pathName other)) : path = other := by
  -- The leading dots are those of the scope, and one more if the scope has nothing else.
  have leading : (f.pathName path).toList.takeWhile (· == '.')
      = (f.pathName other).toList.takeWhile (· == '.') := by
    simp only [toList_pathName, List.takeWhile_append, takeWhile_segments hpath,
      takeWhile_segments hother]
  have rest : (f.pathName path).toList.dropWhile (· == '.')
      = (f.pathName other).toList.dropWhile (· == '.') := by
    rw [← Name.toList_bare, ← Name.toList_bare, same]
  have whole : (f.pathName path).toList = (f.pathName other).toList := by
    rw [← List.takeWhile_append_dropWhile (p := (· == '.')) (l := (f.pathName path).toList),
      leading, rest, List.takeWhile_append_dropWhile]
  rw [toList_pathName, toList_pathName, List.append_cancel_left_eq] at whole
  exact path_eq_of_segments_eq (fun name h => (hpath.2 name h).2)
    (fun name h => (hother.2 name h).2) whole

/-! ## Distinct paths -/

/-- The path of a position: the names of the messages around it, then its own. -/
def pathOf (p : List String × Message) : List String := p.1 ++ [p.2.name]

/-- A path starts with the name of an outermost message. -/
theorem exists_head_of_mem_positions {ms : List Message} {p : List String × Message}
    (h : p ∈ positions ms) : ∃ m ∈ ms, (pathOf p).head? = some m.name := by
  obtain ⟨outer, inner⟩ := p
  cases mem_positions_iff.mp h with
  | top hm => exact ⟨inner, hm, rfl⟩
  | @inside _ m _ outer hm _ => exact ⟨m, hm, rfl⟩

mutual

theorem Message.nodup_paths : ∀ m : Message,
    (∀ p ∈ m.positions, (p.2.nested.map Message.name).Nodup) → (m.positions.map pathOf).Nodup
  | ⟨name, fields, nested, enums⟩, siblings => by
      rw [Message.positions, List.forall_mem_cons, List.forall_mem_map] at siblings
      have inside := nodup_paths nested siblings.1 siblings.2
      have deeper : ((Descriptor.positions nested).map fun p => (name :: p.1, p.2)).map pathOf
          = ((Descriptor.positions nested).map pathOf).map (name :: ·) := by
        rw [List.map_map, List.map_map]
        rfl
      rw [Message.positions, List.map_cons, deeper, List.nodup_cons]
      refine ⟨fun own => ?_, inside.map (List.cons_injective)⟩
      obtain ⟨path, hpath, same⟩ := List.mem_map.mp own
      obtain ⟨p, -, rfl⟩ := List.mem_map.mp hpath
      exact List.append_ne_nil_of_right_ne_nil _ (List.cons_ne_nil _ _) (List.cons.inj same).2

/-- Where siblings differ by name, no two messages of a forest have the same path. -/
theorem nodup_paths : ∀ ms : List Message, (ms.map Message.name).Nodup →
    (∀ p ∈ positions ms, (p.2.nested.map Message.name).Nodup) → ((positions ms).map pathOf).Nodup
  | [], _, _ => by
      rw [positions]
      exact List.nodup_nil
  | m :: ms, top, siblings => by
      rw [List.map_cons, List.nodup_cons] at top
      rw [positions, List.forall_mem_append] at siblings
      rw [positions, List.map_append, List.nodup_append]
      refine ⟨m.nodup_paths siblings.1, nodup_paths ms top.2 siblings.2, ?_⟩
      -- The paths of the first message start with its name, and no other path does.
      intro path hpath other hother same
      obtain ⟨p, hp, rfl⟩ := List.mem_map.mp hpath
      obtain ⟨q, hq, rfl⟩ := List.mem_map.mp hother
      have hp' : p ∈ positions [m] := mem_positions_of_mem hp List.mem_cons_self
      obtain ⟨m', hm', headp⟩ := exists_head_of_mem_positions hp'
      obtain ⟨n, hn, headq⟩ := exists_head_of_mem_positions hq
      obtain rfl := List.mem_singleton.mp hm'
      rw [same, headq, Option.some.injEq] at headp
      exact top.1 (headp ▸ List.mem_map_of_mem hn)

end

/-- The paths of the enums of a file: of its own, then of those inside its messages. -/
def File.enumPaths (f : File) : List (List String) :=
  f.enums.map (fun e => [e.name]) ++
    (positions f.messages).flatMap fun p => p.2.enums.map fun e => pathOf p ++ [e.name]

/-- What one scope declares goes by plain names, of which no two messages and no two enums share
one. -/
structure ScopeNamed (messages : List Message) (enums : List Enum) : Prop where
  plainMessages : ∀ m ∈ messages, Name.Plain m.name
  plainEnums : ∀ e ∈ enums, Name.Plain e.name
  distinctMessages : (messages.map Message.name).Nodup
  distinctEnums : (enums.map Enum.name).Nodup

instance (messages : List Message) (enums : List Enum) : Decidable (ScopeNamed messages enums) :=
  decidable_of_iff ((∀ m ∈ messages, Name.Plain m.name) ∧ (∀ e ∈ enums, Name.Plain e.name) ∧
      (messages.map Message.name).Nodup ∧ (enums.map Enum.name).Nodup)
    ⟨fun ⟨a, b, c, d⟩ => ⟨a, b, c, d⟩, fun ⟨a, b, c, d⟩ => ⟨a, b, c, d⟩⟩

/-- Every scope of a file is well named: its top level, and the inside of each message. -/
structure File.WellNamed (f : File) : Prop where
  top : ScopeNamed f.messages f.enums
  inside : ∀ p ∈ positions f.messages, ScopeNamed p.2.nested p.2.enums

theorem File.WellNamed.nodup_messagePaths {f : File} (named : f.WellNamed) :
    ((positions f.messages).map pathOf).Nodup :=
  nodup_paths f.messages named.top.distinctMessages
    fun p hp => (named.inside p hp).distinctMessages

/-- No two enums of a well named file have the same path. -/
theorem File.WellNamed.nodup_enumPaths {f : File} (named : f.WellNamed) : f.enumPaths.Nodup := by
  rw [enumPaths, List.nodup_append, List.nodup_flatMap]
  refine ⟨?_, ⟨fun p hp => ?_, ?_⟩, ?_⟩
  · have own := named.top.distinctEnums.map (f := fun name => [name]) List.singleton_injective
    rwa [List.map_map] at own
  · have inner := (named.inside p hp).distinctEnums.map (f := fun name => pathOf p ++ [name])
      fun a b h => by simpa using h
    rwa [List.map_map] at inner
  · -- An enum's path without its last segment is that of the message around it.
    refine (List.pairwise_map.mp named.nodup_messagePaths).imp fun {p q} differ path hp hq => ?_
    obtain ⟨e, -, rfl⟩ := List.mem_map.mp hp
    obtain ⟨e', -, same⟩ := List.mem_map.mp hq
    exact differ (List.append_inj_left' same rfl).symm
  · intro path hpath other hother same
    obtain ⟨e, -, rfl⟩ := List.mem_map.mp hpath
    obtain ⟨p, -, hp⟩ := List.mem_flatMap.mp hother
    obtain ⟨e', -, rfl⟩ := List.mem_map.mp hp
    have length := congrArg List.length same
    simp [pathOf] at length

/-! ## Distinct full names -/

/-- The path of a message is plain if the names of its forest are. -/
theorem MessageAt.plain {ms : List Message} {outer : List String} {m : Message}
    (h : MessageAt ms outer m) (top : ∀ n ∈ ms, Name.Plain n.name)
    (inside : ∀ outer m, MessageAt ms outer m → ∀ n ∈ m.nested, Name.Plain n.name) :
    ∀ name ∈ outer ++ [m.name], Name.Plain name := by
  induction h with
  | top hm => simpa using top _ hm
  | @inside ms m inner outer hm _ ih =>
    rw [List.cons_append, List.forall_mem_cons]
    exact ⟨top m hm, ih (inside [] m (.top hm)) fun outer n h => inside (m.name :: outer) n
      (.inside hm h)⟩

/-- Distinct plain paths have distinct canonical names. -/
theorem nodup_canonical (f : File) {paths : List (List String)} (distinct : paths.Nodup)
    (plain : ∀ path ∈ paths, PlainPath path) :
    (paths.map fun path => Name.canonical (f.pathName path)).Nodup :=
  distinct.map_on fun path hpath other hother same =>
    path_eq_of_bare_eq (plain path hpath) (plain other hother) (Name.canonical_eq_iff.mp same)

namespace File.WellNamed

variable {f : File}

theorem plainPath_message (named : f.WellNamed) {outer : List String} {m : Message}
    (h : MessageAt f.messages outer m) : PlainPath (outer ++ [m.name]) :=
  ⟨by simp, h.plain named.top.plainMessages fun _ _ h =>
    (named.inside _ (mem_positions_iff.mpr h)).plainMessages⟩

theorem plainPath_enum (named : f.WellNamed) {outer : List String} {e : Enum}
    (h : EnumAt f outer e) : PlainPath (outer ++ [e.name]) := by
  refine ⟨by simp, List.forall_mem_append.mpr ?_⟩
  cases h with
  | top he => exact ⟨nofun, List.forall_mem_singleton.mpr (named.top.plainEnums e he)⟩
  | inside hm he =>
    exact ⟨(named.plainPath_message hm).2, List.forall_mem_singleton.mpr
      ((named.inside _ (mem_positions_iff.mpr hm)).plainEnums e he)⟩

/-- No two messages of a well named file are registered under one name. -/
theorem nodup_messages (named : f.WellNamed) :
    (f.toSchema.messages.map (Name.canonical ·.fullName)).Nodup := by
  have names := nodup_canonical f named.nodup_messagePaths fun path hpath => by
    obtain ⟨p, hp, rfl⟩ := List.mem_map.mp hpath
    exact named.plainPath_message (mem_positions_iff.mp hp)
  rw [List.map_map] at names
  rw [f.messages_toSchema, List.map_map]
  exact names

theorem plainPath_of_mem_enumPaths (named : f.WellNamed) {path : List String}
    (h : path ∈ f.enumPaths) : PlainPath path := by
  rcases List.mem_append.mp h with h | h
  · obtain ⟨e, he, rfl⟩ := List.mem_map.mp h
    exact named.plainPath_enum (.top he)
  · obtain ⟨p, hp, h⟩ := List.mem_flatMap.mp h
    obtain ⟨e, he, rfl⟩ := List.mem_map.mp h
    exact named.plainPath_enum (.inside (mem_positions_iff.mp hp) he)

/-- No two enums of a well named file are registered under one name. -/
theorem nodup_enums (named : f.WellNamed) :
    (f.toSchema.enums.map (Name.canonical ·.fullName)).Nodup := by
  have names := nodup_canonical f named.nodup_enumPaths
    fun path hpath => named.plainPath_of_mem_enumPaths hpath
  have listed : (f.enumsAlong (positions f.messages)).map (Name.canonical ·.fullName)
      = f.enumPaths.map fun path => Name.canonical (f.pathName path) := by
    simp only [enumsAlong, enumPaths, List.map_append, List.map_flatMap, List.map_map]
    rfl
  have order : f.toSchema.enums.Perm (f.enumsAlong (positions f.messages)) := by
    rw [f.enums_toSchema]
    exact ((closings_perm f.messages).flatMap_right _).append_left _
  rwa [(order.map _).nodup_iff, listed]

end File.WellNamed

end Descriptor

/-! ## The file that was added last -/

/-- A filling with distinct keys leaves each item under its key, whatever was there before. -/
theorem Table.get?_foldl_insert_of_mem {α : Type} {key : α → String} {xs : List α} {x : α}
    (distinct : (xs.map key).Nodup) (hx : x ∈ xs) (t : Table α) :
    (xs.foldl (fun t x => t.insert (key x) x) t).get? (key x) = some x := by
  obtain ⟨y, last⟩ := exists_isLast key hx
  obtain rfl := List.inj_on_of_nodup_map distinct last.mem.1 hx last.mem.2
  rw [get?_foldl_insert, find?_reverse_eq_some_iff.mpr last, Option.some_or]

namespace Schema.Registry

variable {r : Registry} {f : File} {name : String}

theorem message_add_of_mem {m : Message}
    (distinct : (f.messages.map (Name.canonical ·.fullName)).Nodup) (hm : m ∈ f.messages)
    (same : Name.bare name = Name.bare m.fullName) : (r.add f).message name = .ok m := by
  rw [message_eq_ok_iff, Name.canonical_eq_iff.mpr same]
  exact Table.get?_foldl_insert_of_mem distinct hm r.messages

theorem enum_add_of_mem {e : Enum}
    (distinct : (f.enums.map (Name.canonical ·.fullName)).Nodup) (he : e ∈ f.enums)
    (same : Name.bare name = Name.bare e.fullName) : (r.add f).enum name = .ok e := by
  rw [enum_eq_ok_iff, Name.canonical_eq_iff.mpr same]
  exact Table.get?_foldl_insert_of_mem distinct he r.enums

end Schema.Registry

namespace Descriptor

/-- The messages of a well named file have distinct names, and so have its enums.  Added last to any
registry, the file answers for each position: its full name, behind any number of dots, stands for
what is declared there. -/
theorem lookup_own_name (f : File) (named : f.WellNamed) :
    (f.toSchema.messages.map (Name.canonical ·.fullName)).Nodup ∧
      (f.toSchema.enums.map (Name.canonical ·.fullName)).Nodup ∧
      ∀ (r : Schema.Registry) (count : ℕ),
        (∀ outer m, MessageAt f.messages outer m →
          (r.add f.toSchema).message (Name.behind count (f.pathName (outer ++ [m.name])))
            = .ok (f.messageIn outer m)) ∧
        ∀ outer e, EnumAt f outer e →
          (r.add f.toSchema).enum (Name.behind count (f.pathName (outer ++ [e.name])))
            = .ok (f.enumIn outer e) := by
  refine ⟨named.nodup_messages, named.nodup_enums, fun r count => ⟨fun outer m h => ?_,
    fun outer e h => ?_⟩⟩
  · exact Schema.Registry.message_add_of_mem named.nodup_messages (messageIn_mem h)
      (Name.bare_behind ..)
  · exact Schema.Registry.enum_add_of_mem named.nodup_enums (enumIn_mem h) (Name.bare_behind ..)

/-- A message whose one field is of an enum. -/
def crossInner : Message where
  name := "B"
  fields := [{ name := "states", type := .enum, label := .repeated, typeName := "..x..A.B" }]

/-- A message with a message and an enum of one name inside. -/
def crossMessage : Message where
  name := "A"
  nested := [crossInner]
  enums := [{ name := "B", values := ["ON"] }]

/-- A file in a package of dots around a letter, in which the same names return. -/
def crossFile : File where
  name := "cross.proto"
  package := ".x."
  messages := [crossMessage, { name := "B", nested := [{ name := "A" }] }]
  enums := [{ name := "A" }]

/-- A file with a message of the same full name, in no package. -/
def earlierFile : Schema.File where
  name := "earlier.proto"
  messages := [{ name := "B", fullName := "x..A.B", fields := [{ name := "on", kind := 8 }] }]

/-- Both the message and the enum inside the first message are found, in place of an earlier one. -/
theorem lookup_own_name_cross :
    crossFile.WellNamed ∧
      ((Schema.Registry.ofFiles [earlierFile]).add crossFile.toSchema).message "x..A.B" = .ok
        { name := "B", fullName := "..x..A.B", package := ".x.", fileName := "cross.proto",
          fields := [{ name := "states", kind := 14, typeName := "..x..A.B", repeated := true }] } ∧
      ((Schema.Registry.ofFiles [earlierFile]).add crossFile.toSchema).enum "...x..A.B" = .ok
        { name := "B", fullName := "..x..A.B", package := ".x.", values := ["ON"],
          fileName := "cross.proto" } := by
  have named : crossFile.WellNamed := ⟨by decide, by decide⟩
  have found := (lookup_own_name crossFile named).2.2 (Schema.Registry.ofFiles [earlierFile])
  refine ⟨named, (found 0).1 ["A"] crossInner ?_,
    (found 3).2 ["A"] { name := "B", values := ["ON"] } ?_⟩
  · exact .inside (m := crossMessage) List.mem_cons_self (.top List.mem_cons_self)
  · exact .inside (m := crossMessage) (.top List.mem_cons_self) List.mem_cons_self

end Descriptor

end SchemaTypes
