import Mathlib.Data.List.Basic
import SchemaTypes.Descriptor.Flatten

/-!
# Proofs/Position — where messages and enums stand in a descriptor

A message stands in a forest inside the messages of certain names, outermost first: `MessageAt`.
`positions` lists them all in pre-order, and flattening is that list with each message given its
full name (`flattenMessages_eq_map`).  The enums are those of the same positions in post-order:
`closings`, by `enumsInside_eq_flatMap`.

The full name of a position is its path from the file's scope (`List.foldl under`).  Up to leading
dots it is `dotted`: the package, the messages around and the own name, joined by dots.
-/

namespace SchemaTypes.Descriptor

/-! ## Positions -/

/-- A message stands in a forest, inside the messages of the given names, outermost first. -/
inductive MessageAt : List Message → List String → Message → Prop
  | top {ms : List Message} {m : Message} : m ∈ ms → MessageAt ms [] m
  | inside {ms : List Message} {m inner : Message} {outer : List String} : m ∈ ms →
      MessageAt m.nested outer inner → MessageAt ms (m.name :: outer) inner

/-- An enum stands in a file, inside the messages of the given names, outermost first. -/
inductive EnumAt (f : File) : List String → Enum → Prop
  | top {e : Enum} : e ∈ f.enums → EnumAt f [] e
  | inside {m : Message} {e : Enum} {outer : List String} : MessageAt f.messages outer m →
      e ∈ m.enums → EnumAt f (outer ++ [m.name]) e

theorem MessageAt.mono {ms ms' : List Message} {outer : List String} {m : Message}
    (h : MessageAt ms outer m) (sub : ms ⊆ ms') : MessageAt ms' outer m := by
  cases h with
  | top hm => exact .top (sub hm)
  | inside hm inner => exact .inside (sub hm) inner

mutual

/-- A message and those inside it, in pre-order, each with the names of the messages around it. -/
def Message.positions : Message → List (List String × Message)
  | ⟨name, fields, nested, enums⟩ =>
    ([], ⟨name, fields, nested, enums⟩) :: (positions nested).map fun p => (name :: p.1, p.2)

/-- The messages of a forest, in pre-order, each with the names of the messages around it. -/
def positions : List Message → List (List String × Message)
  | [] => []
  | m :: ms => m.positions ++ positions ms

end

theorem Message.positions_eq (m : Message) :
    m.positions = ([], m) :: (Descriptor.positions m.nested).map fun p => (m.name :: p.1, p.2) := by
  cases m
  rw [positions]

mutual

theorem Message.messageAt_of_mem_positions {outer : List String} {inner : Message} :
    ∀ m : Message, (outer, inner) ∈ m.positions → MessageAt [m] outer inner
  | ⟨name, fields, nested, enums⟩, h => by
      rw [Message.positions, List.mem_cons, List.mem_map] at h
      rcases h with h | ⟨⟨outer', inner'⟩, h, hp⟩
      · obtain ⟨rfl, rfl⟩ := Prod.mk.inj h
        exact .top List.mem_cons_self
      · obtain ⟨rfl, rfl⟩ := Prod.mk.inj hp
        exact .inside List.mem_cons_self (messageAt_of_mem_positions nested h)

/-- What is listed stands there. -/
theorem messageAt_of_mem_positions {outer : List String} {inner : Message} :
    ∀ ms : List Message, (outer, inner) ∈ positions ms → MessageAt ms outer inner
  | [], h => by simp [positions] at h
  | m :: ms, h => by
      rw [positions, List.mem_append] at h
      rcases h with h | h
      · exact (Message.messageAt_of_mem_positions m h).mono (by simp)
      · exact (messageAt_of_mem_positions ms h).mono (List.subset_cons_self m ms)

end

theorem mem_positions_of_mem {p : List String × Message} {m : Message} (hp : p ∈ m.positions) :
    ∀ {ms : List Message}, m ∈ ms → p ∈ positions ms
  | m' :: ms, hm => by
      rw [positions, List.mem_append]
      rcases List.mem_cons.mp hm with rfl | hm
      · exact .inl hp
      · exact .inr (mem_positions_of_mem hp hm)

/-- The list of positions is complete. -/
theorem mem_positions_iff {ms : List Message} {outer : List String} {inner : Message} :
    (outer, inner) ∈ positions ms ↔ MessageAt ms outer inner := by
  refine ⟨messageAt_of_mem_positions ms, fun h => ?_⟩
  induction h with
  | @top ms m hm =>
    refine mem_positions_of_mem ?_ hm
    rw [Message.positions_eq]
    exact List.mem_cons_self
  | @inside ms m inner outer hm _ ih =>
    refine mem_positions_of_mem ?_ hm
    rw [Message.positions_eq]
    exact List.mem_cons_of_mem _ (List.mem_map.mpr ⟨(outer, inner), ih, rfl⟩)

/-! ## Flattening by positions -/

mutual

theorem Message.flatten_eq_map (file : File) : ∀ (scope : String) (m : Message),
    m.flatten file scope = m.positions.map fun p => p.2.toSchema file (p.1.foldl under scope)
  | scope, ⟨name, fields, nested, enums⟩ => by
      rw [Message.flatten, Message.positions, flattenMessages_eq_map file _ nested, List.map_cons,
        List.map_map]
      rfl

/-- Flattening lists the positions in pre-order, each message under its full name. -/
theorem flattenMessages_eq_map (file : File) : ∀ (scope : String) (ms : List Message),
    flattenMessages file scope ms
      = (positions ms).map fun p => p.2.toSchema file (p.1.foldl under scope)
  | _, [] => by rw [flattenMessages, positions, List.map_nil]
  | scope, m :: ms => by
      rw [flattenMessages, positions, List.map_append, m.flatten_eq_map file scope,
        flattenMessages_eq_map file scope ms]

end

/-- The enums of one position, each under its full name. -/
def enumsAt (file : File) (scope : String) (p : List String × Message) : List Schema.Enum :=
  p.2.enums.map (Enum.toSchema file (under (p.1.foldl under scope) p.2.name))

mutual

/-- A message behind those inside it, in post-order, each with the names of the messages around
it. -/
def Message.closings : Message → List (List String × Message)
  | ⟨name, fields, nested, enums⟩ =>
    (closings nested).map (fun p => (name :: p.1, p.2)) ++ [([], ⟨name, fields, nested, enums⟩)]

/-- The messages of a forest, in post-order, each with the names of the messages around it. -/
def closings : List Message → List (List String × Message)
  | [] => []
  | m :: ms => m.closings ++ closings ms

end

mutual

theorem Message.closings_perm : ∀ m : Message, m.closings.Perm m.positions
  | ⟨name, fields, nested, enums⟩ => by
      rw [Message.closings, Message.positions]
      exact List.perm_append_comm.trans (((closings_perm nested).map _).cons _)

/-- Both orders list the same positions. -/
theorem closings_perm : ∀ ms : List Message, (closings ms).Perm (positions ms)
  | [] => by rw [closings, positions]
  | m :: ms => by
      rw [closings, positions]
      exact m.closings_perm.append (closings_perm ms)

end

mutual

theorem Message.flattenEnums_eq_flatMap (file : File) : ∀ (scope : String) (m : Message),
    m.flattenEnums file scope = m.closings.flatMap (enumsAt file scope)
  | scope, ⟨name, fields, nested, enums⟩ => by
      rw [Message.flattenEnums, Message.closings, List.flatMap_append, List.flatMap_map,
        List.flatMap_singleton, enumsInside_eq_flatMap file _ nested]
      rfl

/-- Flattening takes the enums of one position after the other, in post-order. -/
theorem enumsInside_eq_flatMap (file : File) : ∀ (scope : String) (ms : List Message),
    enumsInside file scope ms = (closings ms).flatMap (enumsAt file scope)
  | _, [] => by rw [enumsInside, closings, List.flatMap_nil]
  | scope, m :: ms => by
      rw [enumsInside, closings, List.flatMap_append, m.flattenEnums_eq_flatMap file scope,
        enumsInside_eq_flatMap file scope ms]

end

/-- The enums inside a forest are those of its positions, each exactly once. -/
theorem enumsInside_perm (file : File) (scope : String) (ms : List Message) :
    (enumsInside file scope ms).Perm ((positions ms).flatMap (enumsAt file scope)) := by
  rw [enumsInside_eq_flatMap]
  exact (closings_perm ms).flatMap_right _

/-! ## Full names -/

/-- The package, unless it is empty, and the segments of a path, joined by dots. -/
def dotted (package : String) (path : List String) : String :=
  ".".intercalate (if package = "" then path else package :: path)

/-- Going down a path puts its segments, joined by dots, behind the scope. -/
theorem foldl_under : ∀ (scope : String) {path : List String}, path ≠ [] →
    path.foldl under scope = scope ++ "." ++ ".".intercalate path
  | _, [], h => absurd rfl h
  | scope, [name], _ => by rw [String.intercalate_singleton, List.foldl_cons, List.foldl_nil, under]
  | scope, name :: next :: path, _ => by
      rw [List.foldl_cons, foldl_under (under scope name) (List.cons_ne_nil next path),
        String.intercalate_cons_cons, under]
      simp only [String.append_assoc]

/-- A full name in a file is its dotted name behind one dot. -/
theorem foldl_under_scope (f : File) {path : List String} (h : path ≠ []) :
    path.foldl under f.scope = "." ++ dotted f.package path := by
  rw [foldl_under f.scope h, File.scope, dotted]
  by_cases hp : f.package = ""
  · rw [if_pos hp, if_pos hp, String.empty_append]
  · rw [if_neg hp, if_neg hp, String.intercalate_cons_of_ne_nil h]
    simp only [String.append_assoc]

/-- The full name of what is declared in a file under a name, inside the messages around it. -/
theorem under_foldl_scope (f : File) (outer : List String) (name : String) :
    under (outer.foldl under f.scope) name = "." ++ dotted f.package (outer ++ [name]) := by
  rw [← foldl_under_scope f (List.append_ne_nil_of_right_ne_nil outer (List.cons_ne_nil name [])),
    List.foldl_append]
  rfl

/-! ## The schema file by positions -/

/-- The messages of the schema file are those at the positions, under their full names. -/
theorem mem_messages_toSchema {f : File} {s : Schema.Message} : s ∈ f.toSchema.messages ↔
    ∃ outer m, MessageAt f.messages outer m ∧ s = m.toSchema f (outer.foldl under f.scope) := by
  change s ∈ flattenMessages f f.scope f.messages ↔ _
  rw [flattenMessages_eq_map, List.mem_map]
  simp only [Prod.exists, mem_positions_iff, eq_comm]

/-- The enums of the schema file are those at the positions, under their full names. -/
theorem mem_enums_toSchema {f : File} {s : Schema.Enum} : s ∈ f.toSchema.enums ↔
    ∃ outer e, EnumAt f outer e ∧ s = e.toSchema f (outer.foldl under f.scope) := by
  change s ∈ f.enums.map (Enum.toSchema f f.scope) ++ enumsInside f f.scope f.messages ↔ _
  rw [List.mem_append, (enumsInside_perm f f.scope f.messages).mem_iff, List.mem_map,
    List.mem_flatMap]
  constructor
  · rintro (⟨e, he, rfl⟩ | ⟨⟨outer, m⟩, hm, hs⟩)
    · exact ⟨[], e, .top he, rfl⟩
    · obtain ⟨e, he, rfl⟩ := List.mem_map.mp hs
      refine ⟨outer ++ [m.name], e, .inside (mem_positions_iff.mp hm) he, ?_⟩
      rw [List.foldl_append]
      rfl
  · rintro ⟨outer, e, he | ⟨hm, he⟩, rfl⟩
    · exact .inl ⟨e, he, rfl⟩
    · refine .inr ⟨_, mem_positions_iff.mpr hm, List.mem_map.mpr ⟨e, he, ?_⟩⟩
      rw [List.foldl_append]
      rfl

end SchemaTypes.Descriptor
