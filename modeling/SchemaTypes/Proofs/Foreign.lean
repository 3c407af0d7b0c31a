import SchemaTypes.Proofs.Rendering

/-!
# Proofs/Foreign — where a rendering fails

A type has an address inside another: which of the types directly inside it to enter, then which of
those inside that one, and so on.  The types directly inside an array or a record are its element
and the types of its fields; nothing is inside a value that is no type.  Depth first and from left
to right is the lexicographic order of addresses.

`foreigns` lists the foreign values at all addresses (`mem_foreigns_iff`), and begins with the one
at the least of them (`head?_foreigns_eq_some_iff`).  Every style fails by the head of that list, so
what a rendering fails by is settled before a dialect is chosen: `render_fails_at_first_foreign`.

The refusal shows the value.  A value that cannot be shown is not refused in words of its own: the
rendering fails there all the same, but with what went wrong in the showing (`longTag_untold`).
-/

namespace SchemaTypes

namespace TypeExpr

/-! ## Addresses -/

/-- The types directly inside a type. -/
def inside : TypeExpr → List TypeExpr
  | .array element => [element]
  | .record fields => fields.map Prod.snd
  | .primitive _ | .reference _ | .alternatives _ | .foreign _ => []

/-- The type at an address inside a type.  The empty address is that of the type itself. -/
def at? : TypeExpr → List ℕ → Option TypeExpr
  | t, [] => some t
  | t, i :: a => t.inside[i]?.bind fun u => u.at? a

/-- The type at an address among several types: which of them, then where inside it. -/
def among? (ts : List TypeExpr) : List ℕ → Option TypeExpr
  | [] => none
  | i :: a => ts[i]?.bind fun t => t.at? a

theorem at?_cons (t : TypeExpr) (i : ℕ) (a : List ℕ) :
    t.at? (i :: a) = among? t.inside (i :: a) := by
  rw [at?, among?]

mutual

/-- What holds of a type whenever it holds of those directly inside it, holds of every type. -/
theorem inside_induction {motive : TypeExpr → Prop}
    (step : ∀ t : TypeExpr, (∀ u ∈ t.inside, motive u) → motive t) : ∀ t : TypeExpr, motive t
  | .primitive _ | .reference _ | .alternatives _ | .foreign _ => step _ (by simp [inside])
  | .array element => step _ (by simpa [inside] using inside_induction step element)
  | .record fields => step _ (field_induction step fields)

theorem field_induction {motive : TypeExpr → Prop}
    (step : ∀ t : TypeExpr, (∀ u ∈ t.inside, motive u) → motive t) :
    ∀ fields : List (String × TypeExpr), ∀ u ∈ fields.map Prod.snd, motive u
  | [] => nofun
  | (_, type) :: fields =>
      List.forall_mem_cons.mpr ⟨inside_induction step type, field_induction step fields⟩

end

/-! ## Foreign values and their addresses -/

theorem fieldForeigns_eq_flatMap : ∀ fields : List (String × TypeExpr),
    fieldForeigns fields = (fields.map Prod.snd).flatMap foreigns
  | [] => by simp [fieldForeigns]
  | (label, type) :: fields => by
      rw [fieldForeigns, fieldForeigns_eq_flatMap fields, List.map_cons, List.flatMap_cons]

/-- A type is foreign itself, or holds the foreign values of the types directly inside it. -/
theorem foreigns_cases (t : TypeExpr) :
    (∃ v, t = .foreign v) ∨ (∀ v, t ≠ .foreign v) ∧ t.foreigns = t.inside.flatMap foreigns := by
  cases t with
  | foreign value => exact .inl ⟨value, rfl⟩
  | array element => exact .inr ⟨nofun, by simp [foreigns, inside]⟩
  | record fields => exact .inr ⟨nofun, by rw [foreigns, inside, fieldForeigns_eq_flatMap]⟩
  | primitive name => exact .inr ⟨nofun, by simp [foreigns, inside]⟩
  | reference name => exact .inr ⟨nofun, by simp [foreigns, inside]⟩
  | alternatives members => exact .inr ⟨nofun, by simp [foreigns, inside]⟩

theorem at?_foreign_eq_some_iff {v w : Value} {a : List ℕ} :
    (foreign w).at? a = some (.foreign v) ↔ a = [] ∧ w = v := by
  cases a <;> simp [at?, inside]

/-- A type that is not foreign itself shows the foreign values that those inside it show. -/
theorem at?_eq_foreign_iff {t : TypeExpr} (plain : ∀ v, t ≠ .foreign v) {a : List ℕ} {v : Value} :
    t.at? a = some (.foreign v) ↔ among? t.inside a = some (.foreign v) := by
  cases a with
  | nil => simpa [at?, among?] using plain v
  | cons i a => rw [at?_cons]

theorem exists_among?_iff {ts : List TypeExpr} {v : Value} :
    (∃ a, among? ts a = some (.foreign v)) ↔ ∃ t ∈ ts, ∃ a, t.at? a = some (.foreign v) := by
  constructor
  · rintro ⟨_ | ⟨i, a⟩, h⟩
    · exact nomatch h
    · obtain ⟨t, ht, hv⟩ := Option.bind_eq_some_iff.mp h
      exact ⟨t, List.mem_of_getElem? ht, a, hv⟩
  · rintro ⟨t, ht, a, hv⟩
    obtain ⟨i, hi⟩ := List.mem_iff_getElem?.mp ht
    exact ⟨i :: a, Option.bind_eq_some_iff.mpr ⟨t, hi, hv⟩⟩

/-- The foreign values of a type are those at its addresses. -/
theorem mem_foreigns_iff {v : Value} (t : TypeExpr) :
    v ∈ t.foreigns ↔ ∃ a, t.at? a = some (.foreign v) := by
  induction t using inside_induction with
  | step t ih =>
    obtain ⟨w, rfl⟩ | ⟨plain, holds⟩ := t.foreigns_cases
    · simp only [foreigns, List.mem_singleton, at?_foreign_eq_some_iff, exists_eq_left]
      exact eq_comm
    · simp only [holds, List.mem_flatMap, at?_eq_foreign_iff plain, exists_among?_iff]
      exact exists_congr fun u => and_congr_right fun hu => ih u hu

theorem foreigns_eq_nil_iff {t : TypeExpr} :
    t.foreigns = [] ↔ ∀ a v, t.at? a ≠ some (.foreign v) := by
  simp only [List.eq_nil_iff_forall_not_mem, mem_foreigns_iff, not_exists]
  exact forall_comm

theorem flatMap_foreigns_eq_nil_iff {ts : List TypeExpr} :
    ts.flatMap foreigns = [] ↔ ∀ a v, among? ts a ≠ some (.foreign v) := by
  simp only [List.eq_nil_iff_forall_not_mem, List.mem_flatMap, mem_foreigns_iff,
    ← exists_among?_iff, not_exists]
  exact forall_comm

/-! ## The first of them -/

/-- A foreign value stands at an address, and at none before it does any. -/
def IsFirstForeign (look : List ℕ → Option TypeExpr) (a : List ℕ) (v : Value) : Prop :=
  look a = some (.foreign v) ∧ ∀ b < a, ∀ w, look b ≠ some (.foreign w)

theorem isFirstForeign_congr {look look' : List ℕ → Option TypeExpr} {a : List ℕ} {v : Value}
    (h : ∀ b w, look b = some (.foreign w) ↔ look' b = some (.foreign w)) :
    IsFirstForeign look a v ↔ IsFirstForeign look' a v := by
  simp only [IsFirstForeign, ne_eq, h]

/-- The first foreign value among types is the first in the head, or the first in the tail if there
is none in the head. -/
theorem exists_isFirstForeign_cons {t : TypeExpr} {ts : List TypeExpr} {v : Value} :
    (∃ a, IsFirstForeign (among? (t :: ts)) a v) ↔
      (∃ a, IsFirstForeign t.at? a v) ∨
        (∀ a w, t.at? a ≠ some (.foreign w)) ∧ ∃ a, IsFirstForeign (among? ts) a v := by
  constructor
  · rintro ⟨_ | ⟨_ | i, a⟩, here, before⟩
    · exact nomatch here
    · exact .inl ⟨a, here, fun b hb => before (0 :: b) (List.cons_lt_cons_iff.mpr (.inr ⟨rfl, hb⟩))⟩
    · refine .inr ⟨fun b => before (0 :: b) (List.cons_lt_cons_iff.mpr (.inl i.succ_pos)), i :: a,
        here, ?_⟩
      rintro (_ | ⟨j, b⟩) hb
      · exact fun w => nofun
      · refine before ((j + 1) :: b) (List.cons_lt_cons_iff.mpr ?_)
        simpa using List.cons_lt_cons_iff.mp hb
  · rintro (⟨a, here, before⟩ | ⟨none, _ | ⟨i, a⟩, here, before⟩)
    · refine ⟨0 :: a, here, ?_⟩
      rintro (_ | ⟨j, b⟩) hb
      · exact fun w => nofun
      · obtain hj | ⟨rfl, hba⟩ := List.cons_lt_cons_iff.mp hb
        · exact absurd hj (Nat.not_lt_zero j)
        · exact before b hba
    · exact nomatch here
    · refine ⟨(i + 1) :: a, here, ?_⟩
      rintro (_ | ⟨_ | j, b⟩) hb
      · exact fun w => nofun
      · exact none b
      · refine before (j :: b) (List.cons_lt_cons_iff.mpr ?_)
        simpa using List.cons_lt_cons_iff.mp hb

/-- If the list of each type begins with its first foreign value, so does that of all together. -/
theorem head?_flatMap_foreigns_iff {v : Value} : ∀ {ts : List TypeExpr},
    (∀ t ∈ ts, (t.foreigns.head? = some v ↔ ∃ a, IsFirstForeign t.at? a v)) →
      ((ts.flatMap foreigns).head? = some v ↔ ∃ a, IsFirstForeign (among? ts) a v)
  | [], _ => by
      refine ⟨nofun, ?_⟩
      rintro ⟨_ | ⟨i, a⟩, here, -⟩ <;> exact nomatch here
  | t :: ts, each => by
      obtain ⟨first, later⟩ := List.forall_mem_cons.mp each
      rw [List.flatMap_cons, List.head?_append, Option.or_eq_some_iff, first,
        exists_isFirstForeign_cons, List.head?_eq_none_iff, foreigns_eq_nil_iff,
        head?_flatMap_foreigns_iff later]

/-- The foreign values of a type begin with the first of them. -/
theorem head?_foreigns_eq_some_iff {v : Value} (t : TypeExpr) :
    t.foreigns.head? = some v ↔ ∃ a, IsFirstForeign t.at? a v := by
  induction t using inside_induction with
  | step t ih =>
    obtain ⟨w, rfl⟩ | ⟨plain, holds⟩ := t.foreigns_cases
    · rw [foreigns, List.head?_cons, Option.some.injEq]
      constructor
      · rintro rfl
        exact ⟨[], rfl, fun b hb => absurd hb (List.not_lt_nil b)⟩
      · rintro ⟨a, here, -⟩
        exact (at?_foreign_eq_some_iff.mp here).2
    · rw [holds, head?_flatMap_foreigns_iff ih]
      exact exists_congr fun a => isFirstForeign_congr fun b w => (at?_eq_foreign_iff plain).symm

end TypeExpr

/-! ## Refusals -/

namespace Value

variable {v : Value}

theorem refusal_eq_unsupported_iff {shown : String} :
    v.refusal = .unsupported shown ↔ v.shown = .ok shown := by
  unfold refusal
  cases v.shown <;> simp

theorem refusal_eq_unshown_iff {e : ShowError} :
    v.refusal = .unshown e ↔ v.shown = .error e := by
  unfold refusal
  cases v.shown <;> simp

end Value

/-! ## Renderings -/

namespace Declaration

open TypeExpr

/-- The type at an address in a list of declarations: which of them, then where in its body. -/
def at? (ds : List Declaration) : List ℕ → Option TypeExpr := among? (ds.map (·.body))

theorem flatMap_foreigns (ds : List Declaration) :
    ds.flatMap (·.body.foreigns) = (ds.map (·.body)).flatMap foreigns :=
  (List.flatMap_map ..).symm

end Declaration

namespace Style

variable {s : Style} {ds : List Declaration} {v : Value}

/-- A rendering succeeds exactly when no address of the declarations holds a foreign value. -/
theorem exists_render_iff : (∃ text, s.render ds = .ok text) ↔
    ∀ a v, Declaration.at? ds a ≠ some (.foreign v) := by
  rw [← failure?_eq_none_iff, failure?_render, List.head?_eq_none_iff, Declaration.flatMap_foreigns]
  exact TypeExpr.flatMap_foreigns_eq_nil_iff

/-- A rendering fails by the first foreign value. -/
theorem render_eq_error_iff : s.render ds = .error v ↔
    ∃ a, TypeExpr.IsFirstForeign (Declaration.at? ds) a v := by
  rw [← failure?_eq_some_iff, failure?_render, Declaration.flatMap_foreigns]
  exact TypeExpr.head?_flatMap_foreigns_iff fun t _ => t.head?_foreigns_eq_some_iff

/-- How a rendering is refused is how the first foreign value is. -/
theorem render_refused_iff {r : Refusal} : (s.render ds).mapError Value.refusal = .error r ↔
    ∃ a v, TypeExpr.IsFirstForeign (Declaration.at? ds) a v ∧ v.refusal = r := by
  simp only [mapError_eq_error_iff, render_eq_error_iff]
  constructor
  · rintro ⟨v, ⟨a, first⟩, refused⟩
    exact ⟨a, v, first, refused⟩
  · rintro ⟨a, v, first, refused⟩
    exact ⟨v, ⟨a, first⟩, refused⟩

end Style

/-- A rendering in either dialect succeeds exactly when no address of the declarations holds a
foreign value, and else it fails by the one at the least address.  It refuses that value as
unsupported, in a message that shows it, exactly when the value can be shown; else it fails as the
showing does.  The declarations of a schema file hold none, so they are always written. -/
theorem render_fails_at_first_foreign (ds : List Declaration) :
    (∀ d : Dialect, (∃ text, d.style.render ds = .ok text) ↔
        ∀ a v, Declaration.at? ds a ≠ some (.foreign v)) ∧
      (∀ (d : Dialect) (v : Value), d.style.render ds = .error v ↔
        ∃ a, TypeExpr.IsFirstForeign (Declaration.at? ds) a v) ∧
      (∀ (d : Dialect) (shown : String),
        (d.style.render ds).mapError Value.refusal = .error (.unsupported shown) ↔
          ∃ a v, TypeExpr.IsFirstForeign (Declaration.at? ds) a v ∧ v.shown = .ok shown) ∧
      (∀ shown, (Refusal.unsupported shown).message = "Unsupported type node: " ++ shown) ∧
      (∀ (d : Dialect) (e : ShowError),
        (d.style.render ds).mapError Value.refusal = .error (.unshown e) ↔
          ∃ a v, TypeExpr.IsFirstForeign (Declaration.at? ds) a v ∧ v.shown = .error e) ∧
      ∀ options registry f, Declaration.build options registry f = .ok ds →
        ∀ d : Dialect, ∃ text, d.style.render ds = .ok text := by
  refine ⟨fun d => Style.exists_render_iff, fun d v => Style.render_eq_error_iff, ?_,
    fun shown => rfl, ?_, fun options registry f built d => ?_⟩
  · intro d shown
    simp only [Style.render_refused_iff, Value.refusal_eq_unsupported_iff]
  · intro d e
    simp only [Style.render_refused_iff, Value.refusal_eq_unshown_iff]
  · exact Declaration.exists_render_of_build built d.style

/-- Declarations with two values that are no types: one deep inside a record, which shows itself,
and one that is a body. -/
def strayParts : List Declaration :=
  [⟨"Box", .record [("size", .integer),
      ("parts", .array (.foreign (.other (.ok "<object object at 0x7f10>"))))]⟩,
    ⟨"Lid", .foreign .none⟩]

/-- A file with one enum. -/
def lidFile : Schema.File where
  name := "lid.proto"
  enums := [{ name := "Lid", fullName := ".Lid", values := ["ROUND", "FLAT"] }]

/-- The deep value comes first, so both dialects tell it; the declarations of a file are written. -/
theorem render_fails_at_first_foreign_stray :
    ((∃ a, TypeExpr.IsFirstForeign (Declaration.at? strayParts) a
          (.other (.ok "<object object at 0x7f10>"))) ∧
        ∀ d : Dialect, (d.style.render strayParts).mapError Value.refusal =
          .error (.unsupported "<object object at 0x7f10>")) ∧
      Declaration.build {} {} lidFile = .ok [⟨"Lid", .alternatives ["ROUND", "FLAT"]⟩] ∧
      ∃ text, Style.elm.render [⟨"Lid", .alternatives ["ROUND", "FLAT"]⟩] = .ok text := by
  obtain ⟨-, fails, refuses, -⟩ := render_fails_at_first_foreign strayParts
  obtain ⟨a, first⟩ := (fails .elm (.other (.ok "<object object at 0x7f10>"))).mp rfl
  refine ⟨⟨⟨a, first⟩, fun d => (refuses d _).mpr ⟨a, _, first, rfl⟩⟩, rfl, ?_⟩
  obtain ⟨-, -, -, -, -, written⟩ :=
    render_fails_at_first_foreign [⟨"Lid", .alternatives ["ROUND", "FLAT"]⟩]
  exact written {} {} lidFile rfl .elm

/-! ## A value that cannot be shown -/

/-- The least number with more digits than are shown. -/
def longNumber : Value := .int (Nat.pow 10 Value.digitLimit)

theorem shown_longNumber : longNumber.shown = .error .tooManyDigits := by
  rw [longNumber, Value.shown, Value.shownInt, Int.natAbs_natCast, if_neg (Nat.lt_irrefl _)]

/-- One declaration whose body is that number. -/
def longTag : List Declaration := [⟨"Tag", .foreign longNumber⟩]

/-- The number is the first foreign value, and neither dialect refuses it as unsupported: both fail
in showing it. -/
theorem longTag_untold :
    (∃ a, TypeExpr.IsFirstForeign (Declaration.at? longTag) a longNumber) ∧
      ∀ d : Dialect,
        (d.style.render longTag).mapError Value.refusal = .error (.unshown .tooManyDigits) ∧
          ∀ shown, (d.style.render longTag).mapError Value.refusal ≠
            .error (.unsupported shown) := by
  obtain ⟨a, first⟩ : ∃ a, TypeExpr.IsFirstForeign (Declaration.at? longTag) a longNumber :=
    Style.render_eq_error_iff (s := .elm).mp rfl
  refine ⟨⟨a, first⟩, fun d => ?_⟩
  have refused := Style.render_refused_iff (s := d.style).mpr
    ⟨a, longNumber, first, Value.refusal_eq_unshown_iff.mpr shown_longNumber⟩
  refine ⟨refused, fun shown => ?_⟩
  rw [refused]
  simp

end SchemaTypes
