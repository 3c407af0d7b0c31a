import SchemaTypes.Proofs.Rendering

/-!
# Proofs/Spelling — the words that stand in a text

A text shows words: the names of declarations, fields and members as they are, and for each leaf of
a type the word that the dialect has for it.  `Style.spelt` replaces the leaves by these words, so
that the type holds what its text can show.

Names are plain if they are made of letters, digits, underscores and dots.  A type with plain names
alone is `WellSpelt` once its leaves are replaced (`Style.wellSpelt_spelt`).
-/

namespace SchemaTypes

/-! ## Plain names -/

/-- An ASCII letter or digit, an underscore or a dot. -/
def isNameChar (c : Char) : Bool := c.isAlphanum || c == '_' || c == '.'

/-- The name is not empty and made of letters, digits, underscores and dots. -/
def IsPlain (name : String) : Prop := name ≠ "" ∧ ∀ c ∈ name.toList, isNameChar c = true

instance (name : String) : Decidable (IsPlain name) :=
  decidable_of_iff (name ≠ "" ∧ name.toList.all isNameChar = true)
    (and_congr_right fun _ => List.all_eq_true)

/-- A character of the words for leaves, which one dialect writes as a question mark. -/
def isLeafChar (c : Char) : Bool := isNameChar c || c == '?'

/-- The word is not empty and made of characters for leaves. -/
def IsLeaf (word : String) : Prop := word ≠ "" ∧ ∀ c ∈ word.toList, isLeafChar c = true

instance (word : String) : Decidable (IsLeaf word) :=
  decidable_of_iff (word ≠ "" ∧ word.toList.all isLeafChar = true)
    (and_congr_right fun _ => List.all_eq_true)

theorem IsPlain.isLeaf {name : String} (h : IsPlain name) : IsLeaf name :=
  ⟨h.1, fun c hc => by rw [isLeafChar, h.2 c hc, Bool.true_or]⟩

theorem exists_cons_of_all {p : Char → Bool} {name : String}
    (h : name ≠ "" ∧ ∀ c ∈ name.toList, p c = true) :
    ∃ c cs, name.toList = c :: cs ∧ p c = true := by
  obtain ⟨c, cs, hcs⟩ := List.exists_cons_of_ne_nil (mt String.toList_eq_nil_iff.mp h.1)
  exact ⟨c, cs, hcs, h.2 c (hcs ▸ List.mem_cons_self)⟩

namespace TypeExpr

mutual

/-- The names in a type: of primitives, references, members and fields. -/
def names : TypeExpr → List String
  | .primitive name | .reference name => [name]
  | .array element => element.names
  | .alternatives members => members
  | .record fields => fieldNames fields
  | .foreign _ => []

/-- The names in the fields of a record. -/
def fieldNames : List (String × TypeExpr) → List String
  | [] => []
  | (name, type) :: fields => name :: (type.names ++ fieldNames fields)

end

end TypeExpr

/-- The declaration holds types alone, and every name in it is plain. -/
structure Declaration.Plain (d : Declaration) : Prop where
  foreigns : d.body.foreigns = []
  names : ∀ name ∈ d.name :: d.body.names, IsPlain name

instance (d : Declaration) : Decidable d.Plain :=
  decidable_of_iff
    (d.body.foreigns.isEmpty = true ∧ ∀ name ∈ d.name :: d.body.names, IsPlain name)
    ⟨fun h => ⟨List.isEmpty_iff.mp h.1, h.2⟩, fun h => ⟨List.isEmpty_iff.mpr h.1, h.2⟩⟩

/-! ## Leaves by their words -/

namespace Style

mutual

/-- The type in which every primitive and every reference is the word it is written as. -/
def spelt (s : Style) : TypeExpr → TypeExpr
  | .primitive name => .reference (s.token name)
  | .array element => .array (s.spelt element)
  | .reference name => .reference name
  | .alternatives members => .alternatives members
  | .record fields => .record (s.speltFields fields)
  | .foreign value => .foreign value

/-- The fields in which every primitive and every reference is the word it is written as. -/
def speltFields (s : Style) : List (String × TypeExpr) → List (String × TypeExpr)
  | [] => []
  | (name, t) :: fields => (name, s.spelt t) :: s.speltFields fields

end

/-- The declaration in which every primitive and every reference is the word it is written as. -/
def speltDeclaration (s : Style) (d : Declaration) : Declaration := ⟨d.name, s.spelt d.body⟩

end Style

/-- The leaves of the type are words for leaves, and all other names in it are plain. -/
inductive WellSpelt : TypeExpr → Prop
  | leaf {word : String} : IsLeaf word → WellSpelt (.reference word)
  | array {element : TypeExpr} : WellSpelt element → WellSpelt (.array element)
  | union {members : List String} : (∀ m ∈ members, IsPlain m) → WellSpelt (.alternatives members)
  | record {fields : List (String × TypeExpr)} : (∀ p ∈ fields, IsPlain p.1) →
      (∀ p ∈ fields, WellSpelt p.2) → WellSpelt (.record fields)

namespace Style

variable {s : Style}

theorem isLeaf_token (words : ∀ p ∈ s.words, IsLeaf p.2) {name : String} (h : IsPlain name) :
    IsLeaf (s.token name) := by
  unfold token
  cases hfind : s.words.find? (·.1 == name) with
  | none => exact h.isLeaf
  | some p => exact words p (List.mem_of_find?_eq_some hfind)

mutual

/-- A type with plain names is well spelt, if the words for primitives are words for leaves. -/
theorem wellSpelt_spelt (words : ∀ p ∈ s.words, IsLeaf p.2) : ∀ {t : TypeExpr},
    t.foreigns = [] → (∀ name ∈ t.names, IsPlain name) → WellSpelt (s.spelt t)
  | .primitive name, _, plain => by
      rw [TypeExpr.names] at plain
      rw [spelt]
      exact .leaf (isLeaf_token words (plain name List.mem_cons_self))
  | .reference name, _, plain => by
      rw [TypeExpr.names] at plain
      rw [spelt]
      exact .leaf (plain name List.mem_cons_self).isLeaf
  | .array element, foreigns, plain => by
      rw [TypeExpr.foreigns] at foreigns
      rw [TypeExpr.names] at plain
      rw [spelt]
      exact .array (wellSpelt_spelt words foreigns plain)
  | .alternatives members, _, plain => by
      rw [TypeExpr.names] at plain
      rw [spelt]
      exact .union plain
  | .record fields, foreigns, plain => by
      rw [TypeExpr.foreigns] at foreigns
      rw [TypeExpr.names] at plain
      have fieldwise := wellSpelt_speltFields words foreigns plain
      rw [spelt]
      exact .record (fun p hp => (fieldwise p hp).1) fun p hp => (fieldwise p hp).2
  | .foreign value, foreigns, _ => by
      rw [TypeExpr.foreigns] at foreigns
      exact absurd foreigns (List.cons_ne_nil _ _)

theorem wellSpelt_speltFields (words : ∀ p ∈ s.words, IsLeaf p.2) :
    ∀ {fields : List (String × TypeExpr)}, TypeExpr.fieldForeigns fields = [] →
      (∀ name ∈ TypeExpr.fieldNames fields, IsPlain name) →
      ∀ p ∈ s.speltFields fields, IsPlain p.1 ∧ WellSpelt p.2
  | [], _, _, p, hp => by
      rw [speltFields] at hp
      exact absurd hp List.not_mem_nil
  | (name, t) :: fields, foreigns, plain, p, hp => by
      rw [TypeExpr.fieldForeigns, List.append_eq_nil_iff] at foreigns
      rw [TypeExpr.fieldNames, List.forall_mem_cons, List.forall_mem_append] at plain
      rw [speltFields, List.mem_cons] at hp
      rcases hp with rfl | hp
      · exact ⟨plain.1, wellSpelt_spelt words foreigns.1 plain.2.1⟩
      · exact wellSpelt_speltFields words foreigns.2 plain.2.2 p hp

end

end Style

end SchemaTypes
