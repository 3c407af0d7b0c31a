import SchemaTypes.Proofs.Declarations
import SchemaTypes.Proofs.Traversal

/-!
# Proofs/EnumOrder — when nested enums follow the order of the messages

The messages of a schema file come in pre-order: each before those inside it.  Its enums go the
other way: those of a message come behind those of the messages inside it (`closings`).  The two
orders are at odds wherever a message and one inside it both have enums — and nowhere else, by
`enums_follow_messages_iff`.

What makes this exact is that an enum is never mistaken for one further in: its scope is shorter
(`disjoint_enumsAt`), so two lists of enums cannot change places unseen (`append_eq_swap_iff`).
-/

namespace SchemaTypes.Descriptor

/-! ## Enums further in -/

theorem length_lt_length_under (scope name : String) :
    scope.length < (under scope name).length := by
  rw [under, String.length_append, String.length_append]
  change scope.length < scope.length + 1 + name.length
  omega

/-- Going down a path makes a scope no shorter. -/
theorem length_le_length_foldl_under (scope : String) (path : List String) :
    scope.length ≤ (path.foldl under scope).length := by
  induction path generalizing scope with
  | nil => exact Nat.le_refl _
  | cons name path ih =>
    exact Nat.le_trans (Nat.le_of_lt (length_lt_length_under scope name)) (ih (under scope name))

/-- An enum tells the scope it is declared in. -/
theorem scope_eq_of_toSchema_eq {file : File} {scope scope' : String} {e e' : Enum}
    (h : Enum.toSchema file scope e = Enum.toSchema file scope' e') : scope = scope' := by
  have name : e.name = e'.name := congrArg Schema.Enum.name h
  have fullName : under scope e.name = under scope' e'.name := congrArg Schema.Enum.fullName h
  rw [← name, under, under, String.append_left_inj, String.append_left_inj] at fullName
  exact fullName

/-- No enum of a scope is also one of a message further in. -/
theorem disjoint_enumsAt (file : File) (scope : String) (enums : List Enum)
    (ps : List (List String × Message)) :
    (enums.map (Enum.toSchema file scope)).Disjoint (ps.flatMap (enumsAt file scope)) := by
  intro s own inside
  obtain ⟨e, -, rfl⟩ := List.mem_map.mp own
  obtain ⟨⟨outer, m⟩, -, hs⟩ := List.mem_flatMap.mp inside
  obtain ⟨e', -, same⟩ := List.mem_map.mp hs
  have further : scope.length < (under (outer.foldl under scope) m.name).length :=
    Nat.lt_of_le_of_lt (length_le_length_foldl_under scope outer) (length_lt_length_under _ _)
  rw [scope_eq_of_toSchema_eq same] at further
  exact Nat.lt_irrefl _ further

/-! ## Two orders of one forest -/

/-- Lists without a common item change places only if one of them is empty. -/
theorem append_eq_swap_iff {α : Type} {xs ys zs : List α} (disjoint : xs.Disjoint ys) :
    ys ++ xs = xs ++ zs ↔ ys = zs ∧ (xs = [] ∨ ys = []) := by
  cases xs with
  | nil => simp
  | cons x xs =>
    cases ys with
    | nil => simp [eq_comm]
    | cons y ys =>
      refine ⟨fun h => ?_, fun h => by simp at h⟩
      obtain ⟨rfl, -⟩ := List.cons.inj h
      exact absurd List.mem_cons_self (disjoint List.mem_cons_self)

/-- A message keeps its enums apart: it has none, or no message inside it has one. -/
def Message.EnumsApart (m : Message) : Prop :=
  m.enums = [] ∨ ∀ p ∈ Descriptor.positions m.nested, p.2.enums = []

instance (m : Message) : Decidable m.EnumsApart := inferInstanceAs (Decidable (_ ∨ _))

theorem flatMap_closings_eq_nil_iff {file : File} {scope : String} {ms : List Message} :
    (closings ms).flatMap (enumsAt file scope) = [] ↔ ∀ p ∈ positions ms, p.2.enums = [] := by
  simp only [List.flatMap_eq_nil_iff, enumsAt, List.map_eq_nil_iff, (closings_perm ms).mem_iff]

mutual

theorem Message.flatMap_closings_eq_iff (file : File) : ∀ (scope : String) (m : Message),
    m.closings.flatMap (enumsAt file scope) = m.positions.flatMap (enumsAt file scope) ↔
      ∀ p ∈ m.positions, p.2.EnumsApart
  | scope, ⟨name, fields, nested, enums⟩ => by
      -- One scope further in, what stands inside is the forest of the nested messages.
      have deeper (ps : List (List String × Message)) :
          (ps.map fun p => (name :: p.1, p.2)).flatMap (enumsAt file scope)
            = ps.flatMap (enumsAt file (under scope name)) := List.flatMap_map ..
      have own : enumsAt file scope ([], ⟨name, fields, nested, enums⟩)
          = enums.map (Enum.toSchema file (under scope name)) := rfl
      have apart : Message.EnumsApart ⟨name, fields, nested, enums⟩ ↔
          enums = [] ∨ ∀ p ∈ positions nested, p.2.enums = [] := Iff.rfl
      rw [Message.closings, Message.positions, List.flatMap_append, List.flatMap_singleton,
        List.flatMap_cons, deeper, deeper, own,
        append_eq_swap_iff (disjoint_enumsAt file _ enums _), List.map_eq_nil_iff,
        flatMap_closings_eq_nil_iff, flatMap_closings_eq_iff file _ nested, List.forall_mem_cons,
        List.forall_mem_map, apart, and_comm]

/-- Post-order and pre-order list the enums of a forest alike exactly when all its messages keep
their enums apart. -/
theorem flatMap_closings_eq_iff (file : File) : ∀ (scope : String) (ms : List Message),
    (closings ms).flatMap (enumsAt file scope) = (positions ms).flatMap (enumsAt file scope) ↔
      ∀ p ∈ positions ms, p.2.EnumsApart
  | _, [] => by simp [closings, positions]
  | scope, m :: ms => by
      have length := (m.closings_perm.flatMap_right (enumsAt file scope)).length_eq
      rw [closings, positions, List.flatMap_append, List.flatMap_append, List.forall_mem_append,
        ← m.flatMap_closings_eq_iff file scope, ← flatMap_closings_eq_iff file scope ms]
      exact ⟨fun h => List.append_inj h length, fun ⟨first, rest⟩ => by rw [first, rest]⟩

end

/-! ## The schema file -/

/-- The messages of a schema file come in pre-order, but its enums in post-order, and the enums are
declared in that order.  They follow the order of the messages exactly when no message that has
enums holds, at any depth, a message that has enums. -/
theorem enums_follow_messages_iff (f : File) :
    f.toSchema.messages.map (·.fullName)
        = (positions f.messages).map (fun p => f.pathName (p.1 ++ [p.2.name])) ∧
      f.toSchema.enums = f.enumsAlong (closings f.messages) ∧
      (f.toSchema.enums = f.enumsAlong (positions f.messages) ↔
        ∀ p ∈ positions f.messages, p.2.EnumsApart) ∧
      ∀ options registry ds, Declaration.build options registry f.toSchema = .ok ds →
        ds.take f.toSchema.enums.length
          = (f.enumsAlong (closings f.messages)).map (Declaration.ofEnum options) := by
  refine ⟨?_, f.enums_toSchema, ?_, fun options registry ds built => ?_⟩
  · rw [f.messages_toSchema, List.map_map]
    rfl
  · rw [f.enums_toSchema, File.enumsAlong, File.enumsAlong, List.append_right_inj,
      ← funext (enumsAt_eq_map f), flatMap_closings_eq_iff]
  · obtain ⟨records, -, rfl⟩ := Declaration.build_eq_ok_iff.mp built
    rw [← f.enums_toSchema]
    exact List.take_left' (List.length_map _)

/-- A desk with an enum of its own and a drawer with another. -/
def deskFile : File where
  name := "desk.proto"
  package := "office"
  messages := [{
    name := "Desk"
    nested := [{ name := "Drawer", enums := [{ name := "Lock", values := ["OPEN", "SHUT"] }] }]
    enums := [{ name := "Wood", values := ["OAK"] }]
  }]

/-- The desk comes before its drawer, and the enum of the desk behind that of the drawer. -/
theorem enums_against_messages :
    deskFile.toSchema.messages.map (·.fullName) = [".office.Desk", ".office.Desk.Drawer"] ∧
      deskFile.toSchema.enums.map (·.fullName)
        = [".office.Desk.Drawer.Lock", ".office.Desk.Wood"] ∧
      (deskFile.enumsAlong (positions deskFile.messages)).map (·.fullName)
        = [".office.Desk.Wood", ".office.Desk.Drawer.Lock"] ∧
      deskFile.toSchema.enums ≠ deskFile.enumsAlong (positions deskFile.messages) := by
  refine ⟨by decide, by decide, by decide, by decide⟩

/-- A lamp without an enum of its own; its bulb and what is beside it have one each. -/
def lampFile : File where
  name := "lamp.proto"
  messages := [
    { name := "Lamp", nested := [{ name := "Bulb", enums := [{ name := "Fit" }] }] },
    { name := "Shade", enums := [{ name := "Cloth" }] }]

/-- The enums of the lamp follow its messages; of the desk, that of the drawer is declared first. -/
theorem enums_follow_messages_iff_lamp :
    lampFile.toSchema.enums = lampFile.enumsAlong (positions lampFile.messages) ∧
      ∃ ds, Declaration.build {} {} deskFile.toSchema = .ok ds ∧
        (ds.take 2).map (·.name) = ["DeskDrawerLock", "DeskWood"] := by
  refine ⟨(enums_follow_messages_iff lampFile).2.2.1.mpr (by decide), _, rfl, ?_⟩
  exact congrArg (List.map Declaration.name)
    ((enums_follow_messages_iff deskFile).2.2.2 {} {} _ rfl)

end SchemaTypes.Descriptor
