import SchemaTypes.Proofs.Readable
import SchemaTypes.Proofs.Spelling

/-!
# Proofs/Layout — the text of a type, piece by piece

Inside another type, both dialects write a type in the same way and differ in a few fixed texts
only: what stands around an array's element, a union and its members, and between a field's name and
its type.  A `Layout` holds these texts, and `Layout.text` is the text they make of a type.

`Layout.Describes` ties a layout to a style, and `Describes.exists_type` says that the style writes
every type by it, once each leaf is replaced by the word it is written as (`Style.spelt`).
-/

namespace SchemaTypes

/-- A name between two fixed texts. -/
def labelled (before after : List Char) (name : String) : List Char :=
  before ++ (name.toList ++ after)

theorem toList_around (before after name : String) :
    (before ++ name ++ after).toList = labelled before.toList after.toList name := by
  rw [String.toList_append, String.toList_append, List.append_assoc, labelled]

theorem toList_behind (before after name text : String) :
    (before ++ name ++ after ++ text).toList
      = labelled before.toList after.toList name ++ text.toList := by
  rw [String.toList_append, toList_around]

/-! ## Layouts -/

/-- The fixed texts by which a dialect writes a type inside another. -/
structure Layout where
  /-- What stands before and behind the element of an array. -/
  array : List Char × List Char
  /-- What stands before and behind the members of a union. -/
  union : List Char × List Char
  /-- What stands on both sides of a member. -/
  quote : List Char
  /-- What stands between the name of a field and its type. -/
  mark : List Char

namespace Layout

/-- A member of a union. -/
def member (l : Layout) : String → List Char := labelled l.quote l.quote

/-- The members of a union. -/
def members (l : Layout) (names : List String) : List Char :=
  separated " | ".toList l.member names

/-- The name of a field, up to its type. -/
def label (l : Layout) : String → List Char := labelled "  ".toList l.mark

mutual

/-- A type inside another. -/
def text (l : Layout) : TypeExpr → List Char
  | .primitive name | .reference name => name.toList
  | .array element => l.array.1 ++ (l.text element ++ l.array.2)
  | .alternatives names => l.union.1 ++ (l.members names ++ l.union.2)
  | .record fields =>
    "\x7b\n".toList ++ (",\n".toList.intercalate (l.lines fields) ++ "\n\x7d".toList)
  | .foreign _ => []

/-- The lines of a record, one to a field. -/
def lines (l : Layout) : List (String × TypeExpr) → List (List Char)
  | [] => []
  | (name, t) :: fields => (l.label name ++ l.text t) :: l.lines fields

end

/-- A field of a record. -/
def line (l : Layout) (p : String × TypeExpr) : List Char := l.label p.1 ++ l.text p.2

theorem lines_eq_map (l : Layout) (fields : List (String × TypeExpr)) :
    l.lines fields = fields.map l.line := by
  induction fields with
  | nil => rw [lines, List.map_nil]
  | cons p fields ih =>
    obtain ⟨name, t⟩ := p
    rw [lines, List.map_cons, ih, line]

theorem text_record (l : Layout) (fields : List (String × TypeExpr)) :
    l.text (.record fields)
      = "\x7b\n".toList ++ (separated ",\n".toList l.line fields ++ "\n\x7d".toList) := by
  rw [text, lines_eq_map, separated]

/-! ## Styles that write by a layout -/

/-- A style writes by a layout: `inside t text` is what it makes of the text of a type inside
another type. -/
structure Describes (l : Layout) (s : Style) (inside : TypeExpr → String → String) : Prop where
  primitive (name text : String) : inside (.primitive name) text = text
  reference (name text : String) : inside (.reference name) text = text
  array (element : TypeExpr) (text : String) :
    (inside (.array element) (s.array element text)).toList
      = l.array.1 ++ ((inside element text).toList ++ l.array.2)
  union (names : List String) (text : String) :
    (inside (.alternatives names) text).toList = l.union.1 ++ (text.toList ++ l.union.2)
  record (fields : List (String × TypeExpr)) (text : String) : inside (.record fields) text = text
  literal (name : String) : (s.literal name).toList = l.member name
  field (name : String) (t : TypeExpr) (text : String) :
    (s.field name t text).toList = l.label name ++ (inside t text).toList

namespace Describes

variable {l : Layout} {s : Style} {inside : TypeExpr → String → String}

/-- The members of a union are written by the layout. -/
theorem toList_members (h : l.Describes s inside) (names : List String) :
    (" | ".intercalate (names.map s.literal)).toList = l.members names := by
  rw [String.toList_intercalate, List.map_map, members, separated]
  exact congrArg _ (List.map_congr_left fun name _ => h.literal name)

mutual

/-- A type without foreign values is written, and by the layout. -/
theorem exists_type (h : l.Describes s inside) : ∀ {t : TypeExpr}, t.foreigns = [] →
    ∃ text, s.type t = .ok text ∧ (inside t text).toList = l.text (s.spelt t)
  | .primitive name, _ => by
      refine ⟨s.token name, by rw [Style.type], ?_⟩
      rw [h.primitive, Style.spelt, text]
  | .reference name, _ => by
      refine ⟨name, by rw [Style.type], ?_⟩
      rw [h.reference, Style.spelt, text]
  | .array element, plain => by
      rw [TypeExpr.foreigns] at plain
      obtain ⟨body, hbody, hchars⟩ := exists_type h plain
      refine ⟨s.array element body, by rw [Style.type, hbody], ?_⟩
      rw [h.array, hchars, Style.spelt, text]
  | .alternatives names, _ => by
      refine ⟨" | ".intercalate (names.map s.literal), by rw [Style.type], ?_⟩
      rw [h.union, h.toList_members, Style.spelt, text]
  | .record fields, plain => by
      rw [TypeExpr.foreigns] at plain
      obtain ⟨ls, hls, hchars⟩ := exists_lines h plain
      refine ⟨"\x7b\n" ++ ",\n".intercalate ls ++ "\n\x7d", by rw [Style.type, hls], ?_⟩
      rw [h.record, String.toList_append, String.toList_append, String.toList_intercalate, hchars,
        Style.spelt, text, List.append_assoc]
  | .foreign value, plain => by
      rw [TypeExpr.foreigns] at plain
      exact absurd plain (List.cons_ne_nil _ _)

/-- The lines of a record without foreign values are written, and by the layout. -/
theorem exists_lines (h : l.Describes s inside) : ∀ {fields : List (String × TypeExpr)},
    TypeExpr.fieldForeigns fields = [] →
      ∃ ls, s.lines fields = .ok ls ∧ ls.map String.toList = l.lines (s.speltFields fields)
  | [], _ => ⟨[], by rw [Style.lines], by rw [Style.speltFields, lines, List.map_nil]⟩
  | (name, t) :: fields, plain => by
      rw [TypeExpr.fieldForeigns, List.append_eq_nil_iff] at plain
      obtain ⟨body, hbody, hchars⟩ := exists_type h plain.1
      obtain ⟨ls, hls, hlines⟩ := exists_lines h plain.2
      refine ⟨s.field name t body :: ls, by rw [Style.lines, hbody, hls], ?_⟩
      rw [List.map_cons, h.field, hchars, hlines, Style.speltFields, lines]

end

end Describes

/-! ## The two dialects -/

/-- How Flow writes a type, wherever it stands. -/
def flow : Layout where
  array := ("Array<".toList, ">".toList)
  union := ([], [])
  quote := "\"".toList
  mark := "?: ".toList

/-- How Elm writes the argument of a type. -/
def elm : Layout where
  array := ("(List ".toList, ")".toList)
  union := ("(".toList, ")".toList)
  quote := []
  mark := ": Maybe ".toList

theorem describes_flow : flow.Describes .flow fun _ text => text where
  primitive _ _ := rfl
  reference _ _ := rfl
  array _ text := toList_around "Array<" ">" text
  union _ text := (List.append_nil text.toList).symm
  record _ _ := rfl
  literal name := toList_around "\"" "\"" name
  field name _ text := toList_behind "  " "?: " name text

theorem describes_elm : elm.Describes .elm Elm.argument where
  primitive _ _ := rfl
  reference _ _ := rfl
  array element text := by
    have opened : "(" ++ ("List " ++ Elm.argument element text)
        = "(List " ++ Elm.argument element text := String.append_assoc.symm
    have parentheses : Elm.argument (.array element) (Style.elm.array element text)
        = "(List " ++ Elm.argument element text ++ ")" := congrArg (· ++ ")") opened
    rw [parentheses]
    exact toList_around "(List " ")" (Elm.argument element text)
  union _ text := toList_around "(" ")" text
  record _ _ := rfl
  literal name := (List.append_nil name.toList).symm
  field name t text := toList_behind "  " ": Maybe " name (Elm.argument t text)

end Layout

end SchemaTypes
