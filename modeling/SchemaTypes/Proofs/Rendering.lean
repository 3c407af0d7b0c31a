import SchemaTypes.Generate
import SchemaTypes.Proofs.Declarations

/-!
# Proofs/Rendering — writing fails on foreign values alone

Whatever the style, a type is written unless some position in it holds a value that is no type; then
the first such value is what comes back (`failure?_type`, `failure?_render`).  The declarations of a
schema file hold no such value (`foreigns_of_build`), so a file that has been built is written.
-/

namespace SchemaTypes

open Schema

namespace TypeExpr

mutual

/-- The values in a type that are no types, from left to right. -/
def foreigns : TypeExpr → List Value
  | .foreign value => [value]
  | .array element => element.foreigns
  | .record fields => fieldForeigns fields
  | .primitive _ | .reference _ | .alternatives _ => []

/-- The values in the fields of a record that are no types, from left to right. -/
def fieldForeigns : List (String × TypeExpr) → List Value
  | [] => []
  | (_, type) :: fields => type.foreigns ++ fieldForeigns fields

end

theorem fieldForeigns_eq_nil : ∀ {fields : List (String × TypeExpr)},
    (∀ p ∈ fields, p.2.foreigns = []) → fieldForeigns fields = []
  | [], _ => rfl
  | (label, type) :: fields, h => by
      obtain ⟨htype, hfields⟩ := List.forall_mem_cons.mp h
      rw [fieldForeigns, htype, fieldForeigns_eq_nil hfields, List.append_nil]

end TypeExpr

/-! ## The first foreign value -/

namespace Style

mutual

/-- A type fails as the first foreign value in it. -/
theorem failure?_type (s : Style) : ∀ t : TypeExpr, failure? (s.type t) = t.foreigns.head?
  | .primitive _ | .reference _ | .alternatives _ | .foreign _ => by
      rw [type, TypeExpr.foreigns]
      rfl
  | .array element => by
      rw [TypeExpr.foreigns, ← failure?_type s element, type]
      cases s.type element <;> rfl
  | .record fields => by
      rw [TypeExpr.foreigns, ← failure?_lines s fields, type]
      cases s.lines fields <;> rfl

/-- The lines of a record fail as the first foreign value in its fields. -/
theorem failure?_lines (s : Style) : ∀ fields : List (String × TypeExpr),
    failure? (s.lines fields) = (TypeExpr.fieldForeigns fields).head?
  | [] => by
      rw [lines, TypeExpr.fieldForeigns]
      rfl
  | (label, t) :: fields => by
      rw [TypeExpr.fieldForeigns, List.head?_append, ← failure?_type s t,
        ← failure?_lines s fields, lines]
      cases s.type t with
      | error v => rfl
      | ok text => cases s.lines fields <;> rfl

end

/-- A file fails as the first foreign value in its declarations. -/
theorem failure?_render (s : Style) (ds : List Declaration) :
    failure? (s.render ds) = (ds.flatMap (·.body.foreigns)).head? := by
  rw [render, failure?_map, failure?_mapM, List.head?_flatMap]
  refine congrArg (List.findSome? · ds) (funext fun d => ?_)
  rw [declare, failure?_map, failure?_type]

end Style

/-! ## Built declarations are written -/

namespace Declaration

variable {options : Options} {registry : Registry}

theorem foreigns_of_field {owner : String} {f : Field} {p : String × TypeExpr}
    (h : field options registry owner f = .ok p) : p.2.foreigns = [] := by
  obtain ⟨base, hbase, rfl⟩ := field_eq_ok_iff.mp h
  have plain : base.foreigns = [] := by
    obtain ⟨-, m, -, rfl⟩ | ⟨-, e, -, rfl⟩ | ⟨-, -, word, rfl⟩ := fieldBase_cases hbase
    · rw [TypeExpr.foreigns]
    · cases options.embedEnums <;> rfl
    · rw [TypeExpr.foreigns]
  cases f.repeated
  · exact plain
  · exact plain

/-- No declaration of a schema file holds a foreign value. -/
theorem foreigns_of_build {f : File} {ds : List Declaration}
    (h : build options registry f = .ok ds) {d : Declaration} (hd : d ∈ ds) :
    d.body.foreigns = [] := by
  obtain ⟨i, hi⟩ := List.mem_iff_getElem?.mp hd
  obtain ⟨e, -, rfl⟩ | ⟨k, m, -, -, hm⟩ := build_cases h hi
  · rfl
  · obtain ⟨fields, hfields, rfl⟩ := ofMessage_eq_ok_iff.mp hm
    refine TypeExpr.fieldForeigns_eq_nil fun p hp => ?_
    obtain ⟨j, hj⟩ := List.mem_iff_getElem?.mp hp
    obtain ⟨fd, -, hfd⟩ := getElem?_of_forall₂_right hfields hj
    exact foreigns_of_field hfd

/-- The declarations of a schema file are written, in any style. -/
theorem exists_render_of_build {f : File} {ds : List Declaration}
    (h : build options registry f = .ok ds) (s : Style) : ∃ text, s.render ds = .ok text := by
  rw [← failure?_eq_none_iff, Style.failure?_render,
    List.flatMap_eq_nil_iff.mpr fun _ => foreigns_of_build h]
  rfl

end Declaration

namespace Dialect

/-- What a generation that fails has failed by: the file, or a field of it. -/
theorem generate_eq_error_iff {d : Dialect} {options : Options} {registry : Registry}
    {name : String} {e : Failure} : d.generate options registry name = .error e ↔
      ∃ u, e = .unresolved u ∧ (registry.file name = .error u ∨
        ∃ f, registry.file name = .ok f ∧
          Declaration.build (d.heeded options) registry f = .error u) := by
  unfold generate
  cases hfile : registry.file name with
  | error u => simp [eq_comm]
  | ok f =>
    cases hbuild : Declaration.build (d.heeded options) registry f with
    | error u => simp [hbuild, eq_comm]
    | ok ds =>
      obtain ⟨text, htext⟩ := Declaration.exists_render_of_build hbuild d.style
      simp [htext, hbuild, Except.mapError]

end Dialect

/-- No generation meets a value that it cannot write. -/
theorem generate_ne_unsupported (dialectName : String) (options : Options) (registry : Registry)
    (name : String) (v : Value) : generate dialectName options registry name ≠
      .error (.unsupported v) := by
  unfold generate
  split
  · exact nofun
  · intro h
    obtain ⟨u, hu, -⟩ := Dialect.generate_eq_error_iff.mp h
    exact nomatch hu

end SchemaTypes
