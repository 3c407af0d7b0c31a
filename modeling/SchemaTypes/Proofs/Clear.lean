import SchemaTypes.Proofs.Layout

/-!
# Proofs/Clear — layouts by which a type can be told from its text

A type is told from its text in two steps: how the text starts gives the outermost form of the type
(`Layout.Clear.kind`), and then its parts are read one after the other, each up to what may follow a
type.  `Layout.Clear` is what a layout needs for that, and `Clear.readable_text` is the induction.

Flow has a bracket behind the word that starts an array, quotes its members and writes leaves bare.
Elm writes members bare as well; there the parentheses around an argument tell a list from a union,
together with the bar between members.
-/

namespace SchemaTypes

/-! ## What may follow a type -/

/-- The characters that may come behind a type. -/
def enders : List Char := [',', '\n', '>', ')', ';']

/-- The text may come behind a type. -/
def Ends (r : List Char) : Prop := ∃ c ∈ enders, r.head? = some c

/-- What holds of each of these characters holds of all. -/
theorem forall_enders {p : Char → Prop} :
    (∀ c ∈ enders, p c) ↔ p ',' ∧ p '\n' ∧ p '>' ∧ p ')' ∧ p ';' := by
  simp [enders]

theorem isNameChar_ender : ∀ c ∈ enders, isNameChar c = false := forall_enders.mpr (by decide)

theorem isLeafChar_ender : ∀ c ∈ enders, isLeafChar c = false := forall_enders.mpr (by decide)

theorem ends_cons {c : Char} (h : c ∈ enders) (r : List Char) : Ends (c :: r) := ⟨c, h, rfl⟩

theorem not_ends_cons {c : Char} (h : c ∉ enders) (r : List Char) : ¬Ends (c :: r) := by
  rintro ⟨d, hd, hc⟩
  exact h (Option.some.inj hc ▸ hd)

theorem Ends.stops {r : List Char} (h : Ends r) {p : Char → Bool}
    (hp : ∀ c ∈ enders, p c = false) : Stops p r := by
  obtain ⟨c, hc, hr⟩ := h
  intro d hd
  obtain rfl : c = d := Option.some.inj (hr.symm.trans hd)
  exact hp c hc

/-! ## Clear layouts -/

/-- The outermost form of a type. -/
inductive Kind where
  | leaf
  | array
  | union
  | record

/-- The outermost form of a type; a value that is no type counts as a leaf. -/
def TypeExpr.kind : TypeExpr → Kind
  | .array _ => .array
  | .alternatives _ => .union
  | .record _ => .record
  | .primitive _ | .reference _ | .foreign _ => .leaf

/-- A plain name is readable between texts of which the second does not go on with it. -/
theorem readable_labelled {name : String} (h : IsPlain name) (before after : List Char)
    {follows : List Char → Prop} (seam : ∀ r, follows r → Stops isNameChar (after ++ r)) :
    Readable (labelled before after) IsPlain follows name :=
  ((readable_toList h.2).mono (fun _ hy => hy.2) fun _ hr => hr).between before after seam

namespace Layout

/-- The layout keeps apart what stands side by side: a name and what comes behind it, the parts of a
type and what may follow it, and types of different forms. -/
structure Clear (l : Layout) : Prop where
  mark (r : List Char) : Stops isNameChar (l.mark ++ r)
  quote {r : List Char} : Stops isNameChar r → Stops isNameChar (l.quote ++ r)
  member {name : String} (r : List Char) : IsPlain name → ¬Ends (l.member name ++ r)
  array (r : List Char) : Ends (l.array.2 ++ r)
  union {r : List Char} : Ends r → Ends (l.union.2 ++ r)
  kind {t u : TypeExpr} {r q : List Char} : WellSpelt t → WellSpelt u → Ends r → Ends q →
    l.text t ++ r = l.text u ++ q → t.kind = u.kind

namespace Clear

variable {l : Layout}

theorem readable_members (clear : l.Clear) {names : List String} (h : ∀ m ∈ names, IsPlain m) :
    Readable l.members (fun ms => ∀ m ∈ ms, IsPlain m) Ends names :=
  .separated h (fun m hm => readable_labelled (h m hm) _ _ fun _ => clear.quote)
    (fun _ hr => hr.stops isNameChar_ender) (fun _ => stops_cons (by decide) _)
    (fun _ r hm => clear.member r hm) fun _ => not_ends_cons (by decide) _

theorem readable_lines (clear : l.Clear) {fields : List (String × TypeExpr)}
    (hnames : ∀ p ∈ fields, IsPlain p.1) (htypes : ∀ p ∈ fields, WellSpelt p.2)
    (h : ∀ p ∈ fields, Readable l.text WellSpelt Ends p.2) :
    Readable (separated ",\n".toList l.line) (fun ps => ∀ p ∈ ps, IsPlain p.1 ∧ WellSpelt p.2)
      (fun r => ∃ q, r = '\n' :: q) fields := by
  have line : ∀ p ∈ fields,
      Readable l.line (fun p => IsPlain p.1 ∧ WellSpelt p.2) Ends p := by
    intro p hp
    have label : Readable l.label IsPlain (fun _ => True) p.1 :=
      readable_labelled (hnames p hp) _ _ fun r _ => clear.mark r
    exact label.pair (h p hp) (htypes p hp) fun _ _ _ _ => trivial
  refine .separated (fun p hp => ⟨hnames p hp, htypes p hp⟩) line ?_
    (fun _ => ends_cons (by decide) _) ?_ ?_
  · rintro r ⟨q, rfl⟩
    exact ends_cons (by decide) q
  · rintro p r - ⟨q, hq⟩
    exact absurd (List.cons.inj hq).1 (by decide)
  · rintro r ⟨q, hq⟩
    exact absurd (List.cons.inj hq).1 (by decide)

/-- A well spelt type can be read off the front of a text. -/
theorem readable_text (clear : l.Clear) {t : TypeExpr} (ht : WellSpelt t) :
    Readable l.text WellSpelt Ends t := by
  -- In each case the start of the text leaves one form for the other type, and the parts agree.
  induction ht with
  | leaf hword =>
    intro u r q hu hr hq same
    have form := clear.kind (.leaf hword) hu hr hq same
    cases hu with
    | leaf hword' =>
      rw [text, text] at same
      obtain ⟨rfl, rfl⟩ := readable_toList hword.2 hword'.2 (hr.stops isLeafChar_ender)
        (hq.stops isLeafChar_ender) same
      exact ⟨rfl, rfl⟩
    | _ => nomatch form
  | array helement ih =>
    intro u r q hu hr hq same
    have form := clear.kind (.array helement) hu hr hq same
    cases hu with
    | array helement' =>
      rw [text, text] at same
      have read := ih.between l.array.1 l.array.2 fun r (_ : Ends r) => clear.array r
      obtain ⟨rfl, rfl⟩ := read helement' hr hq same
      exact ⟨rfl, rfl⟩
    | _ => nomatch form
  | union hnames =>
    intro u r q hu hr hq same
    have form := clear.kind (.union hnames) hu hr hq same
    cases hu with
    | union hnames' =>
      rw [text, text] at same
      have read := (clear.readable_members hnames).between l.union.1 l.union.2 fun _ => clear.union
      obtain ⟨rfl, rfl⟩ := read hnames' hr hq same
      exact ⟨rfl, rfl⟩
    | _ => nomatch form
  | record hnames htypes ih =>
    intro u r q hu hr hq same
    have form := clear.kind (.record hnames htypes) hu hr hq same
    cases hu with
    | record hnames' htypes' =>
      rw [text_record, text_record] at same
      have read := (clear.readable_lines hnames htypes ih).between "\x7b\n".toList "\n\x7d".toList
        fun r (_ : Ends r) => ⟨_, rfl⟩
      obtain ⟨rfl, rfl⟩ := read (fun p hp => ⟨hnames' p hp, htypes' p hp⟩) hr hq same
      exact ⟨rfl, rfl⟩
    | _ => nomatch form

end Clear

/-! ## Flow is clear -/

/-- The form of a type in Flow, by the bracket behind its leading word. -/
def flowKind (cs : List Char) : Kind :=
  let next := (cs.dropWhile isLeafChar).head?
  if next = some '<' then .array
  else if next = some '\x7b' then .record
  else if cs.head?.any isLeafChar then .leaf
  else .union

theorem not_bracket_ender : ∀ c ∈ enders, c ≠ '<' ∧ c ≠ '\x7b' := forall_enders.mpr (by decide)

theorem flowKind_text {t : TypeExpr} (ht : WellSpelt t) {r : List Char} (hr : Ends r) :
    flowKind (flow.text t ++ r) = t.kind := by
  have stops := hr.stops isLeafChar_ender
  obtain ⟨c, hc, hhead⟩ := hr
  obtain ⟨hangle, hbrace⟩ := not_bracket_ender c hc
  cases ht with
  | leaf hword =>
    obtain ⟨d, ds, hds, hd⟩ := exists_cons_of_all hword
    rw [text, flowKind, dropWhile_append_of_stops hword.2 stops, hhead, hds]
    simp [hangle, hbrace, hd, TypeExpr.kind]
  | array => rfl
  | @union names =>
    cases names with
    | nil =>
      have next : ([] ++ r).dropWhile isLeafChar = r := dropWhile_append_of_stops nofun stops
      rw [List.nil_append] at next
      change flowKind r = .union
      rw [flowKind, next, hhead]
      simp [hangle, hbrace, isLeafChar_ender c hc]
    | cons name names =>
      rw [text, members, separated_cons]
      rfl
  | record =>
    rw [text_record]
    rfl

theorem clear_flow : flow.Clear where
  mark _ := stops_cons (by decide) _
  quote _ := stops_cons (by decide) _
  member _ _ := not_ends_cons (by decide) _
  array _ := ends_cons (by decide) _
  union hr := hr
  kind ht hu hr hq same := by rw [← flowKind_text ht hr, same, flowKind_text hu hq]

/-! ## Elm is clear -/

/-- In parentheses, a list is a word with something other than a bar behind it. -/
def elmCompound (cs : List Char) : Kind :=
  let rest := cs.dropWhile isNameChar
  if rest.head? = some ' ' ∧ rest.tail.head? ≠ some '|' then .array else .union

/-- The form of a type in Elm, as an argument. -/
def elmKind : List Char → Kind
  | '\x7b' :: _ => .record
  | '(' :: cs => elmCompound cs
  | _ => .leaf

theorem ne_of_isLeafChar {c d : Char} (h : isLeafChar c = true) (hd : isLeafChar d = false) :
    c ≠ d := by
  rintro rfl
  exact Bool.false_ne_true (hd.symm.trans h)

/-- No argument starts with a bar. -/
theorem head?_elm_text {t : TypeExpr} (ht : WellSpelt t) (r : List Char) :
    (elm.text t ++ r).head? ≠ some '|' := by
  cases ht with
  | leaf hword =>
    obtain ⟨c, cs, hcs, hc⟩ := exists_cons_of_all hword
    rw [text, hcs]
    exact fun h => ne_of_isLeafChar hc (by decide) (Option.some.inj h)
  | array =>
    rw [text]
    exact (by decide : some '(' ≠ some '|')
  | union =>
    rw [text]
    exact (by decide : some '(' ≠ some '|')
  | record =>
    rw [text_record]
    exact (by decide : some '\x7b' ≠ some '|')

theorem elmCompound_array {element : TypeExpr} (h : WellSpelt element) (r : List Char) :
    elmCompound ("List ".toList ++ (elm.text element ++ r)) = .array :=
  if_pos (c := some ' ' = some ' ' ∧ _) ⟨rfl, head?_elm_text h r⟩

theorem elmCompound_union {names : List String} (h : ∀ m ∈ names, IsPlain m) (r : List Char) :
    elmCompound (elm.members names ++ ')' :: r) = .union := by
  cases names with
  | nil => rfl
  | cons name names =>
    let others := names.flatMap fun m => " | ".toList ++ elm.member m
    have split : elm.members (name :: names) ++ ')' :: r = name.toList ++ (others ++ ')' :: r) := by
      rw [members, separated_cons, List.append_assoc]
      exact congrArg (· ++ _) (List.append_nil _)
    have stops : Stops isNameChar (others ++ ')' :: r) := by
      cases names <;> exact stops_cons (by decide) _
    rw [split, elmCompound, dropWhile_append_of_stops (h name List.mem_cons_self).2 stops]
    cases names <;> rfl

theorem elmKind_text {t : TypeExpr} (ht : WellSpelt t) (r : List Char) :
    elmKind (elm.text t ++ r) = t.kind := by
  cases ht with
  | leaf hword =>
    obtain ⟨c, cs, hcs, hc⟩ := exists_cons_of_all hword
    have hbrace : c ≠ '\x7b' := ne_of_isLeafChar hc (by decide)
    have hparen : c ≠ '(' := ne_of_isLeafChar hc (by decide)
    rw [text, hcs]
    simp [elmKind, hbrace, hparen, TypeExpr.kind]
  | array helement =>
    rw [text, List.append_assoc, List.append_assoc]
    exact elmCompound_array helement _
  | union hnames =>
    rw [text, List.append_assoc, List.append_assoc]
    exact elmCompound_union hnames r
  | record =>
    rw [text_record]
    rfl

theorem clear_elm : elm.Clear where
  mark _ := stops_cons (by decide) _
  quote hr := hr
  member r h := by
    obtain ⟨c, cs, hcs, hc⟩ := exists_cons_of_all h
    have bare : c ∉ enders := fun hender => by simp [isNameChar_ender c hender] at hc
    rw [member, labelled, hcs]
    exact not_ends_cons bare _
  array _ := ends_cons (by decide) _
  union _ := ends_cons (by decide) _
  kind ht hu _ _ same := by rw [← elmKind_text ht, same, elmKind_text hu]

end Layout

end SchemaTypes
