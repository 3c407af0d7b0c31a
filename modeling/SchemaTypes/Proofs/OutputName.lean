import SchemaTypes.Proofs.Readable
import SchemaTypes.Proofs.Target

/-!
# Proofs/OutputName — one name for an output, wherever it is written

Reading the text of a path gives the path back (`parse_text`), so a path can be followed through its
text: the output of a schema file lies beside it, and its last part is the stem of the file with the
suffix of the dialect (`parse_of_outputName`).  A run that writes the file elsewhere gives it the
same last part.

Nothing is lost on the way but the suffix: `stemOf` gives back whatever stands before the last dot
of a name (`stemOf_append`), so schema files with the usual suffix have outputs of their own.
-/

namespace SchemaTypes

namespace Path

/-! ## Paths and their texts -/

/-- All parts of a path lead somewhere and hold no slash. -/
def Proper (p : Path) : Prop := ∀ part ∈ p.parts, isPart part = true ∧ '/' ∉ part.toList

theorem proper_parse (s : String) : (parse s).Proper := by
  intro part h
  obtain ⟨piece, kept⟩ := List.mem_filter.mp h
  exact ⟨kept, slash_not_mem piece⟩

theorem Proper.child_parent {p : Path} (proper : p.Proper) {name : String} (hname : IsName name) :
    (p.parent.child name).Proper := by
  intro part h
  rw [parts_child, List.mem_append, List.mem_singleton] at h
  obtain h | rfl := h
  · exact proper part (List.dropLast_subset _ h)
  · exact ⟨hname.part, hname.slashless⟩

/-- A root is read off the front of a text, if no further slash follows. -/
theorem Root.ofChars_append (root : Root) {cs : List Char} (h : cs.head? ≠ some '/') :
    ofChars (root.text.toList ++ cs) = root := by
  cases root with
  | relative => exact ofChars_eq_relative_iff.mpr h
  | single =>
    cases cs with
    | nil => rfl
    | cons c cs =>
      have hc : c ≠ '/' := by simpa using h
      simp [Root.text, ofChars, hc]
  | double =>
    cases cs with
    | nil => rfl
    | cons c cs =>
      have hc : c ≠ '/' := by simpa using h
      simp [Root.text, ofChars, hc]

/-- **The text of a path, read again, is the path.** -/
theorem parse_text {p : Path} (proper : p.Proper) : parse p.text = p := by
  obtain ⟨root, parts⟩ := p
  by_cases hne : parts = []
  · subst hne
    cases root <;> rfl
  have slashless : ∀ part ∈ parts, '/' ∉ part.toList := fun part h => (proper part h).2
  -- The parts are joined behind the root, and the first of them does not begin with a slash.
  have joined : ("/".intercalate parts).toList.head? ≠ some '/' := by
    intro slash
    have first := (head?_pieces _).mpr (.inr slash)
    rw [pieces_intercalate hne slashless] at first
    simpa using (proper "" (List.mem_of_head? first)).1
  have root_eq : Root.ofChars (text ⟨root, parts⟩).toList = root := by
    rw [text, if_neg fun h => hne h.2, String.toList_append]
    exact root.ofChars_append joined
  have parts_eq : (pieces (text ⟨root, parts⟩)).filter isPart = parts := by
    rw [pieces_text hne slashless, List.filter_append, List.filter_replicate_of_neg (by decide),
      List.nil_append]
    exact List.filter_eq_self.mpr fun part h => (proper part h).1
  rw [parse, root_eq]
  exact congrArg (mk root) parts_eq

/-! ## Stems -/

theorem cutSuffix_append_dot {stem ending : List Char} (hstem : stem ≠ []) (hending : ending ≠ [])
    (dotless : '.' ∉ ending) : cutSuffix (stem ++ '.' :: ending) = (stem, '.' :: ending) := by
  have inside : ∀ c ∈ ending.reverse, (c != '.') = true := by
    intro c hc
    simpa using ne_of_mem_of_not_mem (List.mem_reverse.mp hc) dotless
  have stops : Stops (· != '.') ('.' :: stem.reverse) := stops_cons rfl _
  have back : (stem ++ '.' :: ending).reverse = ending.reverse ++ '.' :: stem.reverse := by simp
  obtain ⟨e, es, he⟩ := List.exists_cons_of_ne_nil (mt List.reverse_eq_nil_iff.mp hending)
  obtain ⟨b, bs, hb⟩ := List.exists_cons_of_ne_nil (mt List.reverse_eq_nil_iff.mp hstem)
  unfold cutSuffix
  rw [back, takeWhile_append_of_stops inside stops, dropWhile_append_of_stops inside stops, he, hb]
  simp [← he, ← hb]

/-- What stands before the last dot of a name is its stem. -/
theorem stemOf_append {stem ending : String} (hstem : stem ≠ "") (hending : ending ≠ "")
    (dotless : '.' ∉ ending.toList) : stemOf (stem ++ "." ++ ending) = stem := by
  have chars : (stem ++ "." ++ ending).toList = stem.toList ++ '.' :: ending.toList := by simp
  rw [stemOf, chars, cutSuffix_append_dot (mt String.toList_eq_nil_iff.mp hstem)
    (mt String.toList_eq_nil_iff.mp hending) dotless, String.ofList_toList]

theorem stem_of_name? {p : Path} {name : String} (h : p.name? = some name) :
    p.stem = stemOf name := by
  rw [stem, h]
  rfl

theorem child_parent {p : Path} {name : String} (h : p.name? = some name) :
    p.parent.child name = p := by
  obtain ⟨root, parts⟩ := p
  obtain ⟨above, rfl⟩ : ∃ above, parts = above ++ [name] := List.getLast?_eq_some_iff.mp h
  simp [parent, child]

end Path

/-! ## Outputs -/

open Command (outputFile outputPath isName_outputFile namesIn_outputPath)

namespace Dialect

variable {d d' : Dialect} {name out : String}

/-- A schema file has an output exactly when its path has a last part: beside it, under its stem. -/
theorem outputName?_eq_some_iff : d.outputName? name = some out ↔
    (Path.parse name).name? ≠ none ∧
      out = ((Path.parse name).parent.child (outputFile d name)).text := by
  rw [outputName?, Path.withSuffix?]
  cases hlast : (Path.parse name).name? with
  | none => simp
  | some last => simp [outputFile, Path.stem_of_name? hlast, eq_comm]

theorem outputName?_eq_none_iff : d.outputName? name = none ↔ (Path.parse name).name? = none := by
  simp [outputName?, Path.withSuffix?]

theorem outputName_eq_ok_iff :
    outputName name d.name = .ok out ↔ d.outputName? name = some out := by
  simp only [outputName, ofName?_name]
  cases d.outputName? name <;> simp

theorem outputName_eq_error_iff {e : NamingError} : outputName name d.name = .error e ↔
    (Path.parse name).name? = none ∧ e = .noName (Path.parse name) := by
  simp only [outputName, ofName?_name, ← outputName?_eq_none_iff (d := d)]
  cases d.outputName? name <;> simp [eq_comm]

/-- The output of a schema file, as a path: its directory is that of the file. -/
theorem parse_of_outputName (h : outputName name d.name = .ok out) :
    Path.parse out = (Path.parse name).parent.child (outputFile d name) := by
  obtain ⟨-, rfl⟩ := outputName?_eq_some_iff.mp (outputName_eq_ok_iff.mp h)
  exact Path.parse_text ((Path.proper_parse name).child_parent (isName_outputFile d name))

/-- Names of output files tell the dialect and the stem. -/
theorem outputFile_inj {other : String} (h : outputFile d name = outputFile d' other) :
    d = d' ∧ (Path.parse name).stem = (Path.parse other).stem := by
  have ending := congrArg (·.toList.getLast?) h
  cases d <;> cases d'
  · exact ⟨rfl, Command.outputFile_eq_iff.mp h⟩
  · simp [outputFile, suffix] at ending
  · simp [outputFile, suffix] at ending
  · exact ⟨rfl, Command.outputFile_eq_iff.mp h⟩

/-- An output is named after its schema file: it lies beside it, under its stem, and any file that a
run writes for the same schema file, into whatever directory, has the same last part. -/
structure NamedAfter (d : Dialect) (name out : String) : Prop where
  normal : (Path.parse out).text = out
  parent : (Path.parse out).parent = (Path.parse name).parent
  last : (Path.parse out).name? = some ((Path.parse name).stem ++ d.suffix)
  written {p q : Command.Progress} {directory text : String} :
    p.write directory d name text = (q, none) →
      ∃ path, q.generated = p.generated ++ [path] ∧ q.disk.get? path = some (.file text) ∧
        (Path.parse path).name? = (Path.parse out).name?

theorem namedAfter (h : outputName name d.name = .ok out) : d.NamedAfter name out := by
  have path := parse_of_outputName h
  have last : (Path.parse out).name? = some (outputFile d name) := by rw [path, Path.name?_child]
  refine ⟨?_, by rw [path, Path.parent_child], last, fun {p q directory text} done => ?_⟩
  · obtain ⟨-, rfl⟩ := outputName?_eq_some_iff.mp (outputName_eq_ok_iff.mp h)
    rw [path]
  · have names := namesIn_outputPath directory d name
    have isName := isName_outputFile d name
    obtain ⟨-, reported, landed⟩ | ⟨e, he⟩ := Command.Progress.write_cases done
    · refine ⟨_, reported, Command.Disk.get?_of_writeIn names isName landed, ?_⟩
      rw [last, Path.name?, names.parts_eq isName, List.getLast?_concat]
    · simp at he

end Dialect

/-- A name in normal form, whose last part is a stem with the suffix of schema files. -/
structure IsSchemaName (name : String) : Prop where
  normal : (Path.parse name).text = name
  last : ∃ stem, stem ≠ "" ∧ (Path.parse name).name? = some (stem ++ ".proto")

/-- The name of a schema file is told by its directory and its stem. -/
theorem IsSchemaName.eq_of_stem_eq {a b : String} (ha : IsSchemaName a) (hb : IsSchemaName b)
    (parents : (Path.parse a).parent = (Path.parse b).parent)
    (stems : (Path.parse a).stem = (Path.parse b).stem) : a = b := by
  obtain ⟨s, hs, alast⟩ := ha.last
  obtain ⟨t, ht, blast⟩ := hb.last
  have stem_eq {stem : String} (hstem : stem ≠ "") : Path.stemOf (stem ++ ".proto") = stem := by
    have cut := Path.stemOf_append hstem (show "proto" ≠ "" by decide) (by decide)
    rwa [String.append_assoc] at cut
  rw [Path.stem_of_name? alast, Path.stem_of_name? blast, stem_eq hs, stem_eq ht] at stems
  rw [← ha.normal, ← hb.normal, ← Path.child_parent alast, ← Path.child_parent blast, parents,
    stems]

/-- An output can be named exactly when the path of the schema file has a last part; it is then
named after the file, as in any run that writes it.  Schema files in normal form with the usual
suffix have different outputs, in one dialect as over both. -/
theorem outputs_named_alike_and_apart (d : Dialect) :
    (∀ name e, outputName name d.name = .error e ↔
        (Path.parse name).name? = none ∧ e = .noName (Path.parse name)) ∧
      (∀ name, (Path.parse name).name? ≠ none →
        ∃ out, outputName name d.name = .ok out ∧ d.NamedAfter name out) ∧
      ∀ d' a b, IsSchemaName a → IsSchemaName b →
        outputName a d.name = outputName b (Dialect.name d') → a = b ∧ d = d' := by
  refine ⟨fun name e => Dialect.outputName_eq_error_iff, fun name hname => ?_, ?_⟩
  · obtain ⟨out, named⟩ := d.exists_outputName hname
    exact ⟨out, named, Dialect.namedAfter named⟩
  · intro d' a b ha hb same
    obtain ⟨stem, -, last⟩ := ha.last
    obtain ⟨out, named⟩ := d.exists_outputName (Option.ne_none_iff_exists'.mpr ⟨_, last⟩)
    have asA := Dialect.parse_of_outputName named
    have asB := Dialect.parse_of_outputName (same.symm.trans named)
    have parents := congrArg Path.parent (asA.symm.trans asB)
    have files := congrArg Path.name? (asA.symm.trans asB)
    rw [Path.parent_child, Path.parent_child] at parents
    rw [Path.name?_child, Path.name?_child, Option.some.injEq] at files
    obtain ⟨dialects, stems⟩ := Dialect.outputFile_inj files
    exact ⟨ha.eq_of_stem_eq hb parents stems, dialects⟩

/-- A hidden file, whose name is all suffix but for a dot, is named like any other, and files of one
stem in two directories have two outputs. -/
theorem outputs_named_alike_and_apart_hidden :
    (outputName "./a//../..proto" "elm" = .ok "a/../..elm" ∧
        Dialect.elm.NamedAfter "./a//../..proto" "a/../..elm") ∧
      IsSchemaName "a/..proto" ∧ IsSchemaName "//a/..proto" ∧
      outputName "a/..proto" "elm" ≠ outputName "//a/..proto" "elm" := by
  obtain ⟨-, alike, apart⟩ := outputs_named_alike_and_apart .elm
  obtain ⟨out, named, after⟩ := alike "./a//../..proto" (by decide)
  obtain rfl : out = "a/../..elm" := Except.ok.inj (named.symm.trans rfl)
  have relative : IsSchemaName "a/..proto" := ⟨by decide, ".", by decide, by decide⟩
  have absolute : IsSchemaName "//a/..proto" := ⟨by decide, ".", by decide, by decide⟩
  refine ⟨⟨named, after⟩, relative, absolute, fun same => ?_⟩
  exact absurd (apart .elm _ _ relative absolute same).1 (by decide)

end SchemaTypes
