import SchemaTypes.Declaration.Build
import SchemaTypes.Proofs.Lookup
import SchemaTypes.Proofs.Pass

/-!
# Proofs/Declarations — what building a file's declarations can do

Every fact about the declarations of a file starts here.  A field, a message and a file each have
one lemma for success and one for failure:

    fieldBase_cases   ──▸  field_eq_ok_iff     ──▸  ofMessage_eq_ok_iff  ──▸  build_eq_ok_iff
    fieldBase_eq_error_iff                     ──▸                exists_build_eq_error_iff

and `build_cases` reads a place of the result back as the enum or the message that stands there.
-/

namespace SchemaTypes

open Schema

/-! ## The names a type refers to -/

namespace TypeExpr

mutual

/-- The names a type refers to, at any depth. -/
def references : TypeExpr → List String
  | .reference name => [name]
  | .array element => element.references
  | .record fields => fieldReferences fields
  | .primitive _ | .alternatives _ | .foreign _ => []

/-- The names that the fields of a record refer to. -/
def fieldReferences : List (String × TypeExpr) → List String
  | [] => []
  | (_, type) :: fields => type.references ++ fieldReferences fields

end

/-- A record refers to what its fields refer to. -/
theorem mem_fieldReferences {name : String} : ∀ {fields : List (String × TypeExpr)},
    name ∈ fieldReferences fields ↔ ∃ p ∈ fields, name ∈ p.2.references
  | [] => by simp [fieldReferences]
  | (label, type) :: fields => by
      rw [fieldReferences, List.mem_append, mem_fieldReferences]
      simp

end TypeExpr

namespace Declaration

variable {options : Options} {registry : Registry}

/-! ## One field -/

theorem sort_eq_message_iff {f : Field} : f.sort = .message ↔ f.kind = 11 :=
  FieldSort.ofKind_eq_message_iff f.kind

theorem sort_eq_enum_iff {f : Field} : f.sort = .enum ↔ f.kind = 14 :=
  FieldSort.ofKind_eq_enum_iff f.kind

/-- All that the type of a field can be: a message by its name, an enum by its name or its values,
or a primitive, which no look-up had a part in. -/
theorem fieldBase_cases {f : Field} {t : TypeExpr} (h : fieldBase options registry f = .ok t) :
    (f.kind = 11 ∧ ∃ m, registry.message f.typeName = .ok m ∧
      t = .reference (messageName options m)) ∨
    (f.kind = 14 ∧ ∃ e, registry.enum f.typeName = .ok e ∧
      t = if options.embedEnums then .alternatives e.values else .reference (enumName options e)) ∨
    (f.kind ≠ 11 ∧ f.kind ≠ 14 ∧ ∃ word, t = .primitive word) := by
  simp only [ne_eq, ← sort_eq_message_iff, ← sort_eq_enum_iff]
  unfold fieldBase at h
  cases hs : f.sort <;> rw [hs] at h
  case message =>
    obtain ⟨m, hm, rfl⟩ := map_eq_ok_iff.mp h
    exact .inl ⟨rfl, m, hm, rfl⟩
  case enum =>
    obtain ⟨e, he, rfl⟩ := map_eq_ok_iff.mp h
    exact .inr (.inl ⟨rfl, e, he, rfl⟩)
  case other =>
    obtain rfl := Except.ok.inj h
    refine .inr (.inr ⟨by decide, by decide, ?_⟩)
    split
    · exact ⟨_, rfl⟩
    · exact ⟨_, rfl⟩
  all_goals
    obtain rfl := Except.ok.inj h
    exact .inr (.inr ⟨by decide, by decide, _, rfl⟩)

/-- A field fails only by the look-up of the message or the enum it refers to. -/
theorem fieldBase_eq_error_iff {f : Field} {u : Unresolved} :
    fieldBase options registry f = .error u ↔
      (f.kind = 11 ∧ registry.message f.typeName = .error u) ∨
        (f.kind = 14 ∧ registry.enum f.typeName = .error u) := by
  rw [← sort_eq_message_iff, ← sort_eq_enum_iff]
  unfold fieldBase
  cases f.sort <;> simp [map_eq_error_iff]

theorem field_eq_ok_iff {owner : String} {f : Field} {p : String × TypeExpr} :
    field options registry owner f = .ok p ↔
      ∃ base, fieldBase options registry f = .ok base ∧
        (f.name, if f.repeated then .array base else base) = p := by
  unfold field
  cases fieldBase options registry f <;> simp

theorem field_eq_error_iff {owner : String} {f : Field} {u : Unresolved} :
    field options registry owner f = .error u ↔
      ∃ v, fieldBase options registry f = .error v ∧ v.within f.name owner = u := by
  unfold field
  cases fieldBase options registry f <;> simp

/-- An array refers to what its element refers to, so repetition adds and drops no name. -/
theorem references_repeated (b : Bool) (t : TypeExpr) :
    (if b then TypeExpr.array t else t).references = t.references := by
  cases b
  · rfl
  · simp [TypeExpr.references]

/-- Where a name in the type of a field comes from: the message or the enum that was found. -/
theorem field_references {owner label name : String} {f : Field} {t : TypeExpr}
    (h : field options registry owner f = .ok (label, t)) (hname : name ∈ t.references) :
    (f.kind = 11 ∧ ∃ m, registry.message f.typeName = .ok m ∧ name = messageName options m) ∨
      (f.kind = 14 ∧ ∃ e, registry.enum f.typeName = .ok e ∧ name = enumName options e) := by
  obtain ⟨base, hbase, hp⟩ := field_eq_ok_iff.mp h
  obtain ⟨rfl, rfl⟩ := Prod.mk.inj hp
  rw [references_repeated] at hname
  obtain ⟨hk, m, hm, rfl⟩ | ⟨hk, e, he, rfl⟩ | ⟨-, -, word, rfl⟩ := fieldBase_cases hbase
  · exact .inl ⟨hk, m, hm, by simpa [TypeExpr.references] using hname⟩
  · refine .inr ⟨hk, e, he, ?_⟩
    cases hembed : options.embedEnums <;> rw [hembed] at hname
    · simpa [TypeExpr.references] using hname
    · simp [TypeExpr.references] at hname
  · simp [TypeExpr.references] at hname

/-! ## One message -/

theorem ofMessage_eq_ok_iff {m : Message} {d : Declaration} :
    ofMessage options registry m = .ok d ↔
      ∃ fields, List.Forall₂ (fun f p => field options registry (Name.bare m.fullName) f = .ok p)
          m.fields fields ∧
        ⟨messageName options m, .record fields⟩ = d := by
  rw [ofMessage, map_eq_ok_iff]
  simp only [mapM_eq_ok_iff]

theorem exists_ofMessage_eq_error_iff {m : Message} :
    (∃ u, ofMessage options registry m = .error u) ↔
      ∃ f ∈ m.fields, (f.kind = 11 ∧ ∃ u, registry.message f.typeName = .error u) ∨
        (f.kind = 14 ∧ ∃ u, registry.enum f.typeName = .error u) := by
  simp only [ofMessage, map_eq_error_iff, exists_mapM_eq_error_iff]
  refine exists_congr fun f => and_congr_right fun _ => ?_
  constructor
  · rintro ⟨u, hu⟩
    obtain ⟨v, hv, -⟩ := field_eq_error_iff.mp hu
    exact (fieldBase_eq_error_iff.mp hv).imp (And.imp_right fun h => ⟨v, h⟩)
      (And.imp_right fun h => ⟨v, h⟩)
  · rintro (⟨hk, v, hv⟩ | ⟨hk, v, hv⟩)
    · exact ⟨_, field_eq_error_iff.mpr ⟨v, fieldBase_eq_error_iff.mpr (.inl ⟨hk, hv⟩), rfl⟩⟩
    · exact ⟨_, field_eq_error_iff.mpr ⟨v, fieldBase_eq_error_iff.mpr (.inr ⟨hk, hv⟩), rfl⟩⟩

/-! ## A whole file -/

variable {f : File} {ds : List Declaration}

theorem build_eq_ok_iff : build options registry f = .ok ds ↔
    ∃ records, List.Forall₂ (fun m d => ofMessage options registry m = .ok d) f.messages records ∧
      f.enums.map (ofEnum options) ++ records = ds := by
  rw [build, map_eq_ok_iff]
  simp only [mapM_eq_ok_iff]

/-- A file fails exactly when a field of one of its messages refers to nothing. -/
theorem exists_build_eq_error_iff : (∃ u, build options registry f = .error u) ↔
    ∃ m ∈ f.messages, ∃ fd ∈ m.fields,
      (fd.kind = 11 ∧ ∃ u, registry.message fd.typeName = .error u) ∨
        (fd.kind = 14 ∧ ∃ u, registry.enum fd.typeName = .error u) := by
  simp only [build, map_eq_error_iff, exists_mapM_eq_error_iff, exists_ofMessage_eq_error_iff]

/-- An enum is declared in its own place. -/
theorem getElem?_build_enum (h : build options registry f = .ok ds) {i : ℕ} {e : Enum}
    (he : f.enums[i]? = some e) : ds[i]? = some (ofEnum options e) := by
  obtain ⟨records, -, rfl⟩ := build_eq_ok_iff.mp h
  obtain ⟨hi, -⟩ := List.getElem?_eq_some_iff.mp he
  rw [List.getElem?_append_left (by simpa using hi), List.getElem?_map, he]
  rfl

/-- A message is declared in its own place behind the enums. -/
theorem getElem?_build_message (h : build options registry f = .ok ds) {k : ℕ} {m : Message}
    (hm : f.messages[k]? = some m) :
    ∃ d, ds[f.enums.length + k]? = some d ∧ ofMessage options registry m = .ok d := by
  obtain ⟨records, hrecords, rfl⟩ := build_eq_ok_iff.mp h
  obtain ⟨d, hd, hmd⟩ := getElem?_of_forall₂_left hrecords hm
  refine ⟨d, ?_, hmd⟩
  rw [List.getElem?_append_right (by simp)]
  simpa using hd

/-- Each place of the result is that of an enum or, behind those, of a message. -/
theorem build_cases (h : build options registry f = .ok ds) {i : ℕ} {d : Declaration}
    (hd : ds[i]? = some d) :
    (∃ e, f.enums[i]? = some e ∧ d = ofEnum options e) ∨
      ∃ k m, i = f.enums.length + k ∧ f.messages[k]? = some m ∧
        ofMessage options registry m = .ok d := by
  obtain ⟨records, hrecords, rfl⟩ := build_eq_ok_iff.mp h
  rcases Nat.lt_or_ge i f.enums.length with hi | hi
  · rw [List.getElem?_append_left (by simpa using hi), List.getElem?_map] at hd
    obtain ⟨e, he, rfl⟩ := Option.map_eq_some_iff.mp hd
    exact .inl ⟨e, he, rfl⟩
  · rw [List.getElem?_append_right (by simpa using hi), List.length_map] at hd
    obtain ⟨m, hm, hmd⟩ := getElem?_of_forall₂_right hrecords hd
    exact .inr ⟨i - f.enums.length, m, by omega, hm, hmd⟩

end Declaration

end SchemaTypes
