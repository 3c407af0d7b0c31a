import SchemaTypes.Proofs.Built
import SchemaTypes.Proofs.Resolution

/-!
# Proofs/Warnings — dialects fail alike, and Elm answers the wish for embedded enums by a warning

By what a file fails is a matter of its fields alone: neither the dialect nor the options have a
part in it (`Dialect.generate_eq_error_congr`).  Nor does the wish to embed enums have a part in
what Elm writes, so all that is left of it is what is said on the way.

That is one warning for each wanted name whose generation was started.  `Started` singles these
names out by how the request ends, and `said_of_started` counts the warnings, for every dialect.
-/

namespace SchemaTypes

open Schema

/-! ## Failures -/

/-- A file fails alike in every dialect and under all options. -/
theorem Dialect.generate_eq_error_congr (d d' : Dialect) (options options' : Options)
    {registry : Registry} {name : String} {e : Failure} :
    d.generate options registry name = .error e ↔
      d'.generate options' registry name = .error e := by
  simp only [generate_eq_error_iff, Declaration.build_eq_error_iff]

/-- Elm writes the same whether or not enums are to be embedded. -/
theorem Dialect.generate_elm_congr {options options' : Options}
    (same : options.alwaysQualify = options'.alwaysQualify) (registry : Registry) (name : String) :
    Dialect.elm.generate options registry name = Dialect.elm.generate options' registry name := by
  have heeded : Dialect.elm.heeded options = Dialect.elm.heeded options' := by
    rw [Dialect.heeded, Dialect.heeded, same]
  rw [generate, generate, heeded]

/-- Every setting of the switches can be asked for. -/
theorem Options.exists_parse : ∀ options : Options, ∃ parameter, parse parameter = .ok options
  | ⟨false, false⟩ => ⟨"", rfl⟩
  | ⟨false, true⟩ => ⟨"embed_enums", rfl⟩
  | ⟨true, false⟩ => ⟨"always_qualify_type_names", rfl⟩
  | ⟨true, true⟩ => ⟨"always_qualify_type_names,embed_enums", rfl⟩

namespace Exchange

variable {dialectName name : String} {options : Options} {registry : Registry}
  {names before started : List String}

/-! ## What is said -/

theorem said_outputOf_of_ok {outName : String} (named : outputName name dialectName = .ok outName) :
    (outputOf dialectName options registry name).said = warning dialectName options := by
  rw [outputOf, named]

theorem said_outputOf_of_error {e : NamingError}
    (unnamed : outputName name dialectName = .error e) :
    (outputOf dialectName options registry name).said = "" := by
  rw [outputOf, unnamed]

/-- Past a name that is done, the run goes on. -/
theorem said_outputsOf_cons_of_done {output : Output}
    (done : Done dialectName options registry name output) (names : List String) :
    (outputsOf dialectName options registry (name :: names)).said
      = warning dialectName options ++ (outputsOf dialectName options registry names).said := by
  have hresult := outputOf_eq_ok_iff.mpr done
  have hsaid : (outputOf dialectName options registry name).said = warning dialectName options :=
    said_outputOf_of_ok done.1
  rw [← hsaid, outputsOf]
  rcases hfirst : outputOf dialectName options registry name with ⟨said, e | output⟩
  · simp [hfirst] at hresult
  · rcases outputsOf dialectName options registry names with ⟨more, e | outputs⟩ <;> rfl

/-- At a name that fails, the run ends. -/
theorem said_outputsOf_cons_of_fails {e : Failure}
    (fails : Fails dialectName options registry name e) (names : List String) :
    (outputsOf dialectName options registry (name :: names)).said
      = (outputOf dialectName options registry name).said := by
  have hresult := outputOf_eq_error_iff.mpr fails
  rw [outputsOf]
  rcases hfirst : outputOf dialectName options registry name with ⟨said, e | output⟩
  · rfl
  · simp [hfirst] at hresult

theorem said_outputsOf_append
    (done : ∀ b ∈ before, ∃ output, Done dialectName options registry b output)
    (rest : List String) :
    (outputsOf dialectName options registry (before ++ rest)).said
      = String.join (before.map fun _ => warning dialectName options)
        ++ (outputsOf dialectName options registry rest).said := by
  induction before with
  | nil => simp
  | cons b before ih =>
    obtain ⟨⟨output, first⟩, later⟩ := List.forall_mem_cons.mp done
    rw [List.cons_append, said_outputsOf_cons_of_done first, ih later]
    simp [String.append_assoc]

/-- The wanted names whose generation is started: all of them if all are done, and else those up to
the first that fails — itself included if its output could be named. -/
inductive Started (dialectName : String) (options : Options) (registry : Registry) :
    List String → List String → Prop
  | all {names : List String} :
      (∀ name ∈ names, ∃ output, Done dialectName options registry name output) →
      Started dialectName options registry names names
  | unnamed {before after : List String} {name : String} {e : NamingError} :
      (∀ b ∈ before, ∃ output, Done dialectName options registry b output) →
      outputName name dialectName = .error e →
      Started dialectName options registry (before ++ name :: after) before
  | failed {before after : List String} {name outName : String} {e : Failure} :
      (∀ b ∈ before, ∃ output, Done dialectName options registry b output) →
      outputName name dialectName = .ok outName →
      generate dialectName options registry name = .error e →
      Started dialectName options registry (before ++ name :: after) (before ++ [name])

theorem exists_started (dialectName : String) (options : Options) (registry : Registry)
    (names : List String) : ∃ started, Started dialectName options registry names started := by
  cases hresult : (outputsOf dialectName options registry names).result with
  | ok outputs =>
    simp only [result_outputsOf, mapM_eq_ok_iff, Function.comp_apply, outputOf_eq_ok_iff] at hresult
    refine ⟨names, .all fun name hname => ?_⟩
    obtain ⟨i, hi⟩ := List.mem_iff_getElem?.mp hname
    obtain ⟨output, -, done⟩ := getElem?_of_forall₂_left hresult hi
    exact ⟨output, done⟩
  | error e =>
    simp only [result_outputsOf, mapM_eq_error_iff, Function.comp_apply, outputOf_eq_ok_iff,
      outputOf_eq_error_iff] at hresult
    obtain ⟨before, name, after, rfl, done, unnamed | ⟨named, failed⟩⟩ := hresult
    · exact ⟨before, .unnamed done unnamed⟩
    · exact ⟨before ++ [name], .failed done named failed⟩

/-- One warning is said for each name that is started, and nothing else. -/
theorem said_of_started (h : Started dialectName options registry names started) :
    (outputsOf dialectName options registry names).said
      = String.join (started.map fun _ => warning dialectName options) := by
  cases h with
  | all done =>
    have said := said_outputsOf_append done []
    rwa [List.append_nil, outputsOf, String.append_empty] at said
  | unnamed done unnamed =>
    rw [said_outputsOf_append done, said_outputsOf_cons_of_fails (.naming unnamed),
      said_outputOf_of_error unnamed, String.append_empty]
  | failed done named failed =>
    rw [said_outputsOf_append done, said_outputsOf_cons_of_fails (.text named failed),
      said_outputOf_of_ok named]
    simp

/-! ## Elm and embedded enums -/

/-- The response to a request with a valid parameter is that of all wanted names. -/
theorem answer_of_parse {r : Request} (valid : Options.parse r.parameter = .ok options) :
    (answer dialectName r).said
        = (outputsOf dialectName options (Descriptor.registry r.files) r.wanted).said ∧
      (answer dialectName r).result
        = .ofResult (outputsOf dialectName options (Descriptor.registry r.files)
            r.wanted).result := by
  simp only [answer, outputs, valid, and_self]

theorem result_outputsOf_elm_congr {options' : Options}
    (same : options.alwaysQualify = options'.alwaysQualify) (registry : Registry)
    (names : List String) : (outputsOf "elm" options registry names).result
      = (outputsOf "elm" options' registry names).result := by
  have text (name : String) : generate "elm" options registry name
      = generate "elm" options' registry name := Dialect.generate_elm_congr same registry name
  rw [result_outputsOf, result_outputsOf]
  refine mapM_congr fun name _ => ?_
  simp only [Function.comp_apply, outputOf, text]
  cases outputName name "elm" <;> rfl

theorem join_map_empty (names : List String) : String.join (names.map fun _ => "") = "" := by
  induction names with
  | nil => rfl
  | cons _ names ih => rw [List.map_cons, String.join_cons, ih, String.append_empty]

/-- The warning of Elm about embedded enums. -/
def embeddingWarning : String :=
  "Warning: embed_enums is not supported by the elm dialect; ignoring\n"

/-- Both dialects fail on the same files with the same unresolved name, under whatever options.  In
Elm, a parameter that asks for embedded enums and one that does not, but is otherwise read alike,
get the same response.  They differ in what is said: one warning for each wanted name whose
generation is started against nothing at all. -/
theorem failures_alike_and_embedding_told :
    (∀ (registry : Registry) (name : String) (options options' : Options) (e : Failure),
      (generate "elm" options registry name = .error e ↔
        generate "flow" options' registry name = .error e) ∧
      (generate "elm" options registry name = .error e → ∃ u, e = .unresolved u)) ∧
    ∀ (r : Request) (options : Options),
      (∃ on, Options.parse on = .ok { options with embedEnums := true }) ∧
      (∃ off, Options.parse off = .ok { options with embedEnums := false }) ∧
      ∀ on off, Options.parse on = .ok { options with embedEnums := true } →
        Options.parse off = .ok { options with embedEnums := false } →
        (answer "elm" { r with parameter := on }).result
            = (answer "elm" { r with parameter := off }).result ∧
          (answer "elm" { r with parameter := off }).said = "" ∧
          (∃ started, Started "elm" { options with embedEnums := true }
            (Descriptor.registry r.files) r.wanted started) ∧
          ∀ started, Started "elm" { options with embedEnums := true }
              (Descriptor.registry r.files) r.wanted started →
            (answer "elm" { r with parameter := on }).said
              = String.join (started.map fun _ => embeddingWarning) := by
  constructor
  · intro registry name options options' e
    refine ⟨Dialect.generate_eq_error_congr .elm .flow options options', fun fails => ?_⟩
    obtain ⟨u, hu, -⟩ := (Dialect.generate_eq_error_iff (d := .elm)).mp fails
    exact ⟨u, hu⟩
  · intro r options
    refine ⟨Options.exists_parse _, Options.exists_parse _, fun on off hon hoff => ?_⟩
    obtain ⟨saidOn, resultOn⟩ := answer_of_parse (r := { r with parameter := on }) hon
    obtain ⟨saidOff, resultOff⟩ := answer_of_parse (r := { r with parameter := off }) hoff
    refine ⟨?_, ?_, exists_started .., fun started h => saidOn.trans (said_of_started h)⟩
    · rw [resultOn, resultOff]
      refine congrArg Response.ofResult (result_outputsOf_elm_congr ?_ _ _)
      rfl
    · obtain ⟨started, h⟩ := exists_started "elm" { options with embedEnums := false }
        (Descriptor.registry r.files) r.wanted
      exact (saidOff.trans (said_of_started h)).trans (join_map_empty started)

/-- A request with two files: a letter, and one whose seal is of an enum that is nowhere. -/
def letterRequest (wanted : List String) (parameter : String) : Request where
  wanted := wanted
  parameter := parameter
  files := [{ name := "letter.proto", messages := [{ name := "Letter" }] },
    { name := "torn.proto",
      messages := [{ name := "Torn", fields := [{ name := "seal", type := .enum,
                                                  typeName := ".Seal" }] }] }]

/-- The file that fails is still warned about, those behind it are not — and neither is a path
without a name. -/
theorem failures_alike_and_embedding_told_letter :
    ((answer "elm" (letterRequest ["letter.proto", "torn.proto", "letter.proto"] "")).result.error
        = some "Unresolved enum '.Seal' referenced by field 'seal' of message 'Torn'" ∧
      (answer "elm" (letterRequest ["letter.proto", "torn.proto", "letter.proto"]
          "embed_enums")).result
        = (answer "elm" (letterRequest ["letter.proto", "torn.proto", "letter.proto"] "")).result ∧
      (answer "elm" (letterRequest ["letter.proto", "torn.proto", "letter.proto"]
          "embed_enums")).said = String.join [embeddingWarning, embeddingWarning]) ∧
    (answer "elm" (letterRequest ["letter.proto", "/", "letter.proto"] "embed_enums")).said
      = String.join [embeddingWarning] := by
  have done (wanted : List String) : ∀ b ∈ ["letter.proto"], ∃ output, Done "elm"
      { embedEnums := true } (Descriptor.registry (letterRequest wanted "").files) b output :=
    List.forall_mem_singleton.mpr ⟨⟨_, _⟩, rfl, rfl⟩
  have torn := (failures_alike_and_embedding_told.2
    (letterRequest ["letter.proto", "torn.proto", "letter.proto"] "") {}).2.2
      "embed_enums" "" rfl rfl
  have unnamed := (failures_alike_and_embedding_told.2
    (letterRequest ["letter.proto", "/", "letter.proto"] "") {}).2.2 "embed_enums" "" rfl rfl
  refine ⟨⟨rfl, torn.1, torn.2.2.2 ["letter.proto", "torn.proto"] ?_⟩,
    unnamed.2.2.2 ["letter.proto"] ?_⟩
  · change Started _ _ _ (["letter.proto"] ++ "torn.proto" :: ["letter.proto"])
      (["letter.proto"] ++ ["torn.proto"])
    exact .failed (done _) rfl rfl
  · change Started _ _ _ (["letter.proto"] ++ "/" :: ["letter.proto"]) ["letter.proto"]
    exact .unnamed (done _) rfl

end Exchange

end SchemaTypes
