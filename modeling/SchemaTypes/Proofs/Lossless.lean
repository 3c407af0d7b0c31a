import SchemaTypes.Proofs.Clear

/-!
# Proofs/Lossless — a file can be read back

Both dialects write types so that they can be told from their texts (`Layout.clear_flow`,
`Layout.clear_elm`).  What is left is around the types: the name of each declaration, the keyword
before it, and the end of its body.

    clear_flow ──▸ readable_flowText ──▸ flow_render_eq_iff
    clear_elm  ──▸ readable_elmText  ──▸ elm_render_eq_iff

So two files have the same text exactly when they have the same declarations, up to leaves that are
written as the same word.  For Elm this is about records and unions, the forms that are declared: a
list of `X` and a union of `List` and `X` are told apart by what stands around them.  The
declarations of a schema file are all of these forms (`Declaration.isDeclared_of_build`), so for
those only the names matter (`elm_render_of_build`).
-/

namespace SchemaTypes

/-- Whether the type is of the forms that are declared: a record or a union. -/
def TypeExpr.isDeclared : TypeExpr → Bool
  | .record _ | .alternatives _ => true
  | _ => false

/-- The declarations of a schema file are records and unions. -/
theorem Declaration.isDeclared_of_build {options : Options} {registry : Schema.Registry}
    {f : Schema.File} {ds : List Declaration} (h : build options registry f = .ok ds)
    {d : Declaration} (hd : d ∈ ds) : d.body.isDeclared = true := by
  obtain ⟨i, hi⟩ := List.mem_iff_getElem?.mp hd
  obtain ⟨e, -, rfl⟩ | ⟨k, m, -, -, hm⟩ := build_cases h hi
  · rfl
  · obtain ⟨fields, -, rfl⟩ := ofMessage_eq_ok_iff.mp hm
    rfl

/-! ## Files -/

namespace Style

section Files

variable {s : Style} {write : Declaration → List Char}

/-- The declaration is written, as the text of its spelt form. -/
def WritesAs (s : Style) (write : Declaration → List Char) (d : Declaration) : Prop :=
  ∃ text, s.declare d = .ok text ∧ text.toList = write (s.speltDeclaration d)

theorem declare_eq_ok {d : Declaration} {text : String} (h : s.type d.body = .ok text) :
    s.declare d = .ok (s.declaration d text) := by
  rw [declare, h]
  rfl

theorem exists_texts : ∀ {ds : List Declaration}, (∀ d ∈ ds, s.WritesAs write d) →
    ∃ texts, ds.mapM s.declare = .ok texts ∧
      texts.flatMap String.toList = (ds.map s.speltDeclaration).flatMap write
  | [], _ => ⟨[], rfl, rfl⟩
  | d :: ds, h => by
      obtain ⟨⟨text, htext, hchars⟩, hds⟩ := List.forall_mem_cons.mp h
      obtain ⟨texts, htexts, hrest⟩ := exists_texts hds
      refine ⟨text :: texts, by rw [mapM_cons_of_ok htext, htexts]; rfl, ?_⟩
      rw [List.flatMap_cons, List.map_cons, List.flatMap_cons, hchars, hrest]

/-- A file is its header and then its declarations, one after the other. -/
theorem exists_render {ds : List Declaration} (h : ∀ d ∈ ds, s.WritesAs write d) :
    ∃ text, s.render ds = .ok text ∧
      text.toList = s.header.toList ++ (ds.map s.speltDeclaration).flatMap write := by
  obtain ⟨texts, htexts, hchars⟩ := exists_texts h
  refine ⟨s.header ++ String.join texts, map_eq_ok_iff.mpr ⟨texts, htexts, rfl⟩, ?_⟩
  rw [String.toList_append, String.toList_join, hchars]

/-- Where declarations are readable, so are files of them. -/
theorem render_eq_iff {admitted : Declaration → Prop} {ds es : List Declaration}
    (written : ∀ d ∈ ds ++ es, s.WritesAs write d ∧ admitted (s.speltDeclaration d))
    (readable : ∀ d, admitted d → Readable write admitted (fun _ => True) d)
    (nonempty : ∀ d, write d ≠ []) :
    (∃ text, s.render ds = .ok text) ∧ (s.render ds = s.render es ↔
      ds.map s.speltDeclaration = es.map s.speltDeclaration) := by
  rw [List.forall_mem_append] at written
  obtain ⟨text, htext, hchars⟩ := exists_render fun d hd => (written.1 d hd).1
  obtain ⟨text', htext', hchars'⟩ := exists_render fun e he => (written.2 e he).1
  have hds : ∀ d ∈ ds.map s.speltDeclaration, admitted d :=
    List.forall_mem_map.mpr fun d hd => (written.1 d hd).2
  have hes : ∀ e ∈ es.map s.speltDeclaration, admitted e :=
    List.forall_mem_map.mpr fun e he => (written.2 e he).2
  -- Nothing follows a file and no declaration is empty: neither file goes on where the other ends.
  have read : Readable (List.flatMap write) (fun ds => ∀ d ∈ ds, admitted d) (· = [])
      (ds.map s.speltDeclaration) :=
    .flatMap hds (fun d hd => readable d (hds d hd)) (fun _ _ => trivial) (fun _ _ _ => trivial)
      fun d _ _ hnil => nonempty d (List.append_eq_nil_iff.mp hnil).1
  refine ⟨⟨text, htext⟩, ?_⟩
  rw [htext, htext', Except.ok.injEq, ← String.toList_inj, hchars, hchars', List.append_right_inj]
  constructor
  · intro same
    exact (read hes rfl rfl (by rw [List.append_nil, List.append_nil, same])).1
  · intro same
    rw [same]

end Files

/-- A declaration is readable: its name up to what stands behind it, and then its body. -/
theorem readable_declared {α : Type} {write : α → List Char} {admitted : α → Prop} {name : String}
    {x : α} (hname : IsPlain name) (hx : admitted x) (h : Readable write admitted Ends x)
    (before after behind : List Char) (name_ends : ∀ r, Stops isNameChar (after ++ r))
    (body_ends : ∀ r, Ends (behind ++ r)) :
    Readable (fun p : String × α => labelled before after p.1 ++ (write p.2 ++ behind))
      (fun p => IsPlain p.1 ∧ admitted p.2) (fun _ => True) (name, x) := by
  have label : Readable (labelled before after) IsPlain (fun _ => True) name :=
    readable_labelled hname before after fun r _ => name_ends r
  have body := h.between [] behind fun r (_ : True) => body_ends r
  exact label.pair body hx fun _ _ _ _ => trivial

/-! ## Files in Flow -/

/-- A declaration in Flow. -/
def flowText (d : Declaration) : List Char :=
  labelled "export type ".toList " = ".toList d.name
    ++ (Layout.flow.text d.body ++ ";\n\n".toList)

theorem toList_flow_declaration (d : Declaration) (text : String) :
    (Style.flow.declaration d text).toList
      = labelled "export type ".toList " = ".toList d.name ++ (text.toList ++ ";\n\n".toList) := by
  simp only [flow, labelled, String.toList_append, List.append_assoc]

theorem writesAs_flowText {d : Declaration} (h : d.body.foreigns = []) :
    Style.flow.WritesAs flowText d := by
  obtain ⟨text, htext, hchars⟩ := Layout.describes_flow.exists_type h
  refine ⟨Style.flow.declaration d text, declare_eq_ok htext, ?_⟩
  rw [toList_flow_declaration, hchars]
  rfl

theorem readable_flowText {d : Declaration} (h : IsPlain d.name ∧ WellSpelt d.body) :
    Readable flowText (fun d => IsPlain d.name ∧ WellSpelt d.body) (fun _ => True) d := by
  obtain ⟨name, body⟩ := d
  rintro ⟨name', body'⟩ r q h' hr hq same
  have read := readable_declared h.1 h.2 (Layout.clear_flow.readable_text h.2)
    "export type ".toList " = ".toList ";\n\n".toList
    (fun _ => stops_cons (by decide) _) fun _ => ends_cons (by decide) _
  obtain ⟨hpair, rfl⟩ := read (y := (name', body')) h' hr hq same
  obtain ⟨rfl, rfl⟩ := Prod.mk.inj hpair
  exact ⟨rfl, rfl⟩

/-- Flow loses nothing: declarations with plain names are written, and two files have the same text
exactly when their declarations are the same, leaf by leaf as they are written. -/
theorem flow_render_eq_iff (ds es : List Declaration) (hds : ∀ d ∈ ds, d.Plain)
    (hes : ∀ e ∈ es, e.Plain) :
    (∃ text, Style.flow.render ds = .ok text) ∧ (Style.flow.render ds = Style.flow.render es ↔
      ds.map Style.flow.speltDeclaration = es.map Style.flow.speltDeclaration) := by
  refine render_eq_iff (fun d hd => ?_) (fun d => readable_flowText) fun d => nofun
  have plain : d.Plain := (List.mem_append.mp hd).elim (hds d) (hes d)
  obtain ⟨hname, hnames⟩ := List.forall_mem_cons.mp plain.names
  exact ⟨writesAs_flowText plain.foreigns, hname, wellSpelt_spelt (by decide) plain.foreigns hnames⟩

/-- A box of some content, and a kind that has no member. -/
def box (content : TypeExpr) : List Declaration :=
  [⟨"Kind", .alternatives []⟩,
   ⟨"Box", .record [("content", .array content), ("kind", .alternatives ["Big", "Flat"])]⟩]

/-- Floats and integers are written as one word, and so are the files; strings are not. -/
theorem flow_render_eq_iff_box :
    (∀ d ∈ box .float ++ box .integer ++ box .string, d.Plain)
      ∧ Style.flow.render (box .float) = Style.flow.render (box .integer)
      ∧ Style.flow.render (box .float) ≠ Style.flow.render (box .string) := by
  have plain : ∀ d ∈ box .float ++ box .integer ++ box .string, d.Plain := by decide
  obtain ⟨⟨float, integer⟩, string⟩ :=
    List.forall_mem_append.mp plain |>.imp_left List.forall_mem_append.mp
  refine ⟨plain, (flow_render_eq_iff _ _ float integer).2.mpr rfl, fun same => ?_⟩
  have spelt := (flow_render_eq_iff _ _ float string).2.mp same
  exact absurd (congrArg (List.flatMap (·.body.names)) spelt) (by decide)

/-! ## Files in Elm -/

/-- A type that Elm declares: a union is a type of its own, a record an alias. -/
inductive Declarable : TypeExpr → Prop
  | union {names : List String} : (∀ m ∈ names, IsPlain m) → Declarable (.alternatives names)
  | record {fields : List (String × TypeExpr)} : WellSpelt (.record fields) →
      Declarable (.record fields)

/-- A declaration in Elm. -/
def elmText (d : Declaration) : List Char :=
  match d.body with
  | .alternatives names =>
    labelled "type ".toList " = ".toList d.name ++ (Layout.elm.members names ++ "\n\n".toList)
  | body =>
    labelled "type alias ".toList " =\n".toList d.name
      ++ (Layout.elm.text body ++ "\n\n".toList)

theorem toList_elm_alias {d : Declaration} (h : d.isAlias = true) (text : String) :
    (Style.elm.declaration d text).toList
      = labelled "type alias ".toList " =\n".toList d.name ++ (text.toList ++ "\n\n".toList) := by
  simp only [elm, h, if_true, labelled, String.toList_append, List.append_assoc]

theorem toList_elm_type {d : Declaration} (h : d.isAlias = false) (text : String) :
    (Style.elm.declaration d text).toList
      = labelled "type ".toList " = ".toList d.name ++ (text.toList ++ "\n\n".toList) := by
  simp only [elm, h, Bool.false_eq_true, if_false, labelled, String.toList_append,
    List.append_assoc]

theorem writesAs_elmText {d : Declaration} (hforeigns : d.body.foreigns = [])
    (hdeclared : d.body.isDeclared = true) : Style.elm.WritesAs elmText d := by
  obtain ⟨name, body⟩ := d
  cases body with
  | alternatives names =>
    refine ⟨_, declare_eq_ok (by rw [type]), ?_⟩
    rw [toList_elm_type rfl, Layout.describes_elm.toList_members, speltDeclaration, spelt]
    rfl
  | record fields =>
    obtain ⟨text, htext, hchars⟩ := Layout.describes_elm.exists_type hforeigns
    refine ⟨_, declare_eq_ok htext, ?_⟩
    rw [Layout.describes_elm.record, spelt] at hchars
    rw [toList_elm_alias rfl, hchars, speltDeclaration, spelt]
    rfl
  | _ => nomatch hdeclared

/-- A type of its own is told from an alias, even if its name is `alias`. -/
theorem type_ne_alias {name name' : String} (h : IsPlain name) (h' : IsPlain name')
    (r q : List Char) : labelled "type ".toList " = ".toList name ++ r
      ≠ labelled "type alias ".toList " =\n".toList name' ++ q := by
  intro same
  -- Only the name `alias` gets this far; then an equals sign stands where the alias has its name.
  have same' : name.toList ++ (' ' :: '=' :: ' ' :: r)
      = "alias".toList ++ (' ' :: (name'.toList ++ " =\n".toList ++ q)) := by
    simpa [labelled] using same
  have keyword : IsPlain "alias" := by decide
  obtain ⟨-, rest⟩ := readable_toList h.2 keyword.2 (stops_cons (by decide) _)
    (stops_cons (by decide) _) same'
  obtain ⟨c, cs, hcs, hc⟩ := exists_cons_of_all h'
  rw [hcs] at rest
  obtain rfl : '=' = c := by simpa using congrArg (fun l => l.tail.head?) rest
  exact absurd hc (by decide)

theorem readable_elmText {d : Declaration} (h : IsPlain d.name ∧ Declarable d.body) :
    Readable elmText (fun d => IsPlain d.name ∧ Declarable d.body) (fun _ => True) d := by
  obtain ⟨name, body⟩ := d
  rintro ⟨name', body'⟩ r q ⟨hname', hbody'⟩ hr hq same
  obtain ⟨hname, hbody⟩ := h
  cases hbody with
  | union hnames =>
    cases hbody' with
    | @union names' hnames' =>
      have read := readable_declared hname hnames (Layout.clear_elm.readable_members hnames)
        "type ".toList " = ".toList "\n\n".toList
        (fun _ => stops_cons (by decide) _) fun _ => ends_cons (by decide) _
      obtain ⟨hpair, rfl⟩ := read (y := (name', names')) ⟨hname', hnames'⟩ hr hq same
      obtain ⟨rfl, rfl⟩ := Prod.mk.inj hpair
      exact ⟨rfl, rfl⟩
    | record =>
      simp only [elmText, List.append_assoc] at same
      exact absurd same (type_ne_alias hname hname' _ _)
  | record hrecord =>
    cases hbody' with
    | union =>
      simp only [elmText, List.append_assoc] at same
      exact absurd same.symm (type_ne_alias hname' hname _ _)
    | @record fields' hrecord' =>
      have read := readable_declared hname hrecord (Layout.clear_elm.readable_text hrecord)
        "type alias ".toList " =\n".toList "\n\n".toList
        (fun _ => stops_cons (by decide) _) fun _ => ends_cons (by decide) _
      obtain ⟨hpair, rfl⟩ := read (y := (name', .record fields')) ⟨hname', hrecord'⟩ hr hq same
      obtain ⟨rfl, hfields⟩ := Prod.mk.inj hpair
      obtain rfl := TypeExpr.record.inj hfields
      exact ⟨rfl, rfl⟩

theorem declarable_spelt {t : TypeExpr} (hdeclared : t.isDeclared = true)
    (h : WellSpelt (Style.elm.spelt t)) : Declarable (Style.elm.spelt t) := by
  cases t with
  | alternatives names =>
    rw [spelt] at h ⊢
    cases h with
    | union hnames => exact .union hnames
  | record fields =>
    rw [spelt] at h ⊢
    exact .record h
  | _ => nomatch hdeclared

theorem elmText_ne_nil (d : Declaration) : elmText d ≠ [] := by
  unfold elmText
  split <;> exact nofun

/-- A record or a union with plain names is written in Elm, and spelt as one that is declared. -/
theorem written_elm {d : Declaration} (plain : d.Plain) (declared : d.body.isDeclared = true) :
    Style.elm.WritesAs elmText d ∧ IsPlain (Style.elm.speltDeclaration d).name ∧
      Declarable (Style.elm.speltDeclaration d).body := by
  obtain ⟨hname, hnames⟩ := List.forall_mem_cons.mp plain.names
  have spelt : WellSpelt (Style.elm.spelt d.body) :=
    wellSpelt_spelt (by decide) plain.foreigns hnames
  exact ⟨writesAs_elmText plain.foreigns declared, hname, declarable_spelt declared spelt⟩

/-- Two schema files with plain names have the same text in Elm exactly when their declarations are
the same, leaf by leaf as they are written. -/
theorem elm_render_of_build {options options' : Options} {registry registry' : Schema.Registry}
    {f f' : Schema.File} {ds es : List Declaration}
    (hds : Declaration.build options registry f = .ok ds)
    (hes : Declaration.build options' registry' f' = .ok es)
    (plain : ∀ d ∈ ds ++ es, ∀ name ∈ d.name :: d.body.names, IsPlain name) :
    Style.elm.render ds = Style.elm.render es ↔
      ds.map Style.elm.speltDeclaration = es.map Style.elm.speltDeclaration := by
  refine (render_eq_iff (fun d hd => ?_) (fun d => readable_elmText) elmText_ne_nil).2
  have built : d.body.foreigns = [] ∧ d.body.isDeclared = true := by
    obtain hd | hd := List.mem_append.mp hd
    · exact ⟨Declaration.foreigns_of_build hds hd, Declaration.isDeclared_of_build hds hd⟩
    · exact ⟨Declaration.foreigns_of_build hes hd, Declaration.isDeclared_of_build hes hd⟩
  exact written_elm ⟨built.1, plain d hd⟩ built.2

/-- Elm loses nothing: declarations of records and unions with plain names are written, and two
files have the same text exactly when their declarations are the same, leaf by leaf as they are
written. -/
theorem elm_render_eq_iff (ds es : List Declaration)
    (hds : ∀ d ∈ ds, d.Plain ∧ d.body.isDeclared = true)
    (hes : ∀ e ∈ es, e.Plain ∧ e.body.isDeclared = true) :
    (∃ text, Style.elm.render ds = .ok text) ∧ (Style.elm.render ds = Style.elm.render es ↔
      ds.map Style.elm.speltDeclaration = es.map Style.elm.speltDeclaration) := by
  refine render_eq_iff (fun d hd => ?_) (fun d => readable_elmText) elmText_ne_nil
  obtain ⟨plain, declared⟩ := (List.mem_append.mp hd).elim (hds d) (hes d)
  exact written_elm plain declared

/-- A type with the name `alias` and a member `List`, and a box of some content. -/
def lists (content : TypeExpr) : List Declaration :=
  [⟨"alias", .alternatives ["List", "X"]⟩, ⟨"Box", .record [("content", content)]⟩]

/-- A list of `X` is told from a choice between `List` and `X`, while a float is written as a
reference to `Float` is. -/
theorem elm_render_eq_iff_lists :
    (∀ d ∈ lists (.array (.reference "X")) ++ lists (.alternatives ["List", "X"])
        ++ (lists .float ++ lists (.reference "Float")), d.Plain ∧ d.body.isDeclared = true)
      ∧ Style.elm.render (lists (.array (.reference "X")))
          ≠ Style.elm.render (lists (.alternatives ["List", "X"]))
      ∧ Style.elm.render (lists .float) = Style.elm.render (lists (.reference "Float")) := by
  have plain : ∀ d ∈ lists (.array (.reference "X")) ++ lists (.alternatives ["List", "X"])
      ++ (lists .float ++ lists (.reference "Float")), d.Plain ∧ d.body.isDeclared = true := by
    decide
  obtain ⟨hlists, hfloats⟩ := List.forall_mem_append.mp plain
  obtain ⟨array, union⟩ := List.forall_mem_append.mp hlists
  obtain ⟨float, reference⟩ := List.forall_mem_append.mp hfloats
  refine ⟨plain, fun same => ?_, (elm_render_eq_iff _ _ float reference).2.mpr rfl⟩
  have spelt := (elm_render_eq_iff _ _ array union).2.mp same
  exact absurd (congrArg (List.flatMap (·.body.names)) spelt) (by decide)

end Style

end SchemaTypes
