import Mathlib.Logic.Basic
import SchemaTypes.Exchange.Answer
import SchemaTypes.Proofs.Rendering

/-!
# Proofs/Answer — a request is answered whole or refused

For one wanted name, its output is named and then its text is generated; `Done` and `Fails` are the
two ways this can end.  A request goes through its parameter and then its names in order, and
`FirstFailure` is the first of these steps to fail.  `outputs_eq_ok_iff` and `outputs_eq_error_iff`
say that the outcome of a request is exactly that.

`answer_all_or_nothing` puts it together: a response holds one output per wanted name and no error,
or the text of the first failure and no output.
-/

namespace SchemaTypes

/-! ## Every failure says something -/

theorem append_ne_empty_of_right (s : String) {t : String} (h : t ≠ "") : s ++ t ≠ "" :=
  fun h' => h (String.append_eq_empty_iff.mp h').2

theorem Schema.Unresolved.message_ne_empty (u : Unresolved) : u.message ≠ "" := by
  unfold message
  split
  · exact append_ne_empty_of_right _ (by decide)
  · split
    · exact append_ne_empty_of_right _ (by decide)
    · exact append_ne_empty_of_right _ (by decide)

/-- No failure has an empty wording, unless a foreign value gave it one. -/
theorem Failure.message_ne_empty : ∀ e : Failure, (∀ v, e ≠ .unsupported v) → e.message ≠ ""
  | .options (.unknownKey _), _ => append_ne_empty_of_right _ (by decide)
  | .options (.invalidValue _ _), _ => append_ne_empty_of_right _ (by decide)
  | .naming (.unknownDialect _), _ => append_ne_empty_of_right _ (by decide)
  | .naming (.noName _), _ => append_ne_empty_of_right _ (by decide)
  | .unresolved u, _ => u.message_ne_empty
  | .unsupported v, known => absurd rfl (known v)

namespace Exchange

variable {dialectName name : String} {options : Options} {registry : Schema.Registry} {r : Request}

/-! ## One wanted name -/

/-- A wanted name got its output. -/
def Done (dialectName : String) (options : Options) (registry : Schema.Registry) (name : String)
    (output : Output) : Prop :=
  outputName name dialectName = .ok output.name ∧
    generate dialectName options registry name = .ok output.content

/-- A wanted name failed: its output could not be named, or it was and no text was generated. -/
inductive Fails (dialectName : String) (options : Options) (registry : Schema.Registry)
    (name : String) : Failure → Prop
  | naming {e : NamingError} : outputName name dialectName = .error e →
      Fails dialectName options registry name (.naming e)
  | text {outName : String} {e : Failure} : outputName name dialectName = .ok outName →
      generate dialectName options registry name = .error e →
      Fails dialectName options registry name e

theorem outputOf_eq_ok_iff {output : Output} :
    (outputOf dialectName options registry name).result = .ok output ↔
      Done dialectName options registry name output := by
  unfold outputOf Done
  cases outputName name dialectName with
  | error e => simp
  | ok outName =>
    cases generate dialectName options registry name with
    | error e => simp
    | ok content =>
      cases output
      simp

theorem outputOf_eq_error_iff {e : Failure} :
    (outputOf dialectName options registry name).result = .error e ↔
      Fails dialectName options registry name e := by
  unfold outputOf
  constructor
  · intro h
    cases hname : outputName name dialectName with
    | error e' =>
      rw [hname] at h
      obtain rfl := Except.error.inj h
      exact .naming hname
    | ok outName =>
      rw [hname] at h
      cases htext : generate dialectName options registry name with
      | error e' =>
        simp only [htext] at h
        obtain rfl := Except.error.inj h
        exact .text hname htext
      | ok content => simp only [htext, reduceCtorEq] at h
  · rintro (hname | ⟨hname, htext⟩)
    · simp only [hname]
    · simp only [hname, htext]

/-! ## All wanted names -/

/-- The outcome of all wanted names is a pass over them. -/
theorem result_outputsOf (dialectName : String) (options : Options) (registry : Schema.Registry) :
    ∀ names : List String, (outputsOf dialectName options registry names).result
      = names.mapM (Spoken.result ∘ outputOf dialectName options registry)
  | [] => rfl
  | name :: names => by
      have rest := result_outputsOf dialectName options registry names
      let step := Spoken.result ∘ outputOf dialectName options registry
      rw [outputsOf]
      rcases hname : outputOf dialectName options registry name with ⟨said, e | output⟩
      · rw [mapM_cons_of_error (f := step) (congrArg Spoken.result hname)]
      · rw [mapM_cons_of_ok (f := step) (congrArg Spoken.result hname), ← rest]
        rcases outputsOf dialectName options registry names with ⟨more, e | outputs⟩ <;> rfl

/-- The first step of a request to fail: its parameter, else the first wanted name that does. -/
inductive FirstFailure (dialectName : String) (r : Request) : Failure → Prop
  | parameter {e : Options.Error} : Options.parse r.parameter = .error e →
      FirstFailure dialectName r (.options e)
  | wanted {options : Options} {before after : List String} {name : String} {e : Failure} :
      Options.parse r.parameter = .ok options → r.wanted = before ++ name :: after →
      (∀ b ∈ before, ∃ output, Done dialectName options (Descriptor.registry r.files) b output) →
      Fails dialectName options (Descriptor.registry r.files) name e →
      FirstFailure dialectName r e

theorem outputs_eq_ok_iff {os : List Output} : (outputs dialectName r).result = .ok os ↔
    ∃ options, Options.parse r.parameter = .ok options ∧
      List.Forall₂ (Done dialectName options (Descriptor.registry r.files)) r.wanted os := by
  unfold outputs
  cases Options.parse r.parameter with
  | error e => simp
  | ok options =>
    simp only [result_outputsOf, mapM_eq_ok_iff, Function.comp_apply, outputOf_eq_ok_iff,
      Except.ok.injEq, exists_eq_left']

theorem outputs_eq_error_iff {e : Failure} :
    (outputs dialectName r).result = .error e ↔ FirstFailure dialectName r e := by
  unfold outputs
  constructor
  · intro h
    cases hparse : Options.parse r.parameter with
    | error e' =>
      rw [hparse] at h
      obtain rfl := Except.error.inj h
      exact .parameter hparse
    | ok options =>
      simp only [hparse, result_outputsOf, mapM_eq_error_iff, Function.comp_apply,
        outputOf_eq_ok_iff, outputOf_eq_error_iff] at h
      obtain ⟨before, name, after, hwanted, done, fails⟩ := h
      exact .wanted hparse hwanted done fails
  · rintro (hparse | ⟨hparse, hwanted, done, fails⟩)
    · simp only [hparse]
    · simp only [hparse, result_outputsOf, mapM_eq_error_iff, Function.comp_apply,
        outputOf_eq_ok_iff, outputOf_eq_error_iff]
      exact ⟨_, _, _, hwanted, done, fails⟩

/-- A first failure is there exactly when something fails, whichever comes first. -/
theorem exists_firstFailure_iff : (∃ e, FirstFailure dialectName r e) ↔
    (∃ e, Options.parse r.parameter = .error e) ∨
      ∃ options, Options.parse r.parameter = .ok options ∧ ∃ name ∈ r.wanted,
        (∃ e, outputName name dialectName = .error e) ∨
          ∃ e, generate dialectName options (Descriptor.registry r.files) name = .error e := by
  constructor
  · rintro ⟨e, hparse | ⟨hparse, hwanted, -, fails⟩⟩
    · exact .inl ⟨_, hparse⟩
    · refine .inr ⟨_, hparse, _, hwanted ▸ List.mem_append_right _ List.mem_cons_self, ?_⟩
      rcases fails with hname | ⟨-, htext⟩
      · exact .inl ⟨_, hname⟩
      · exact .inr ⟨_, htext⟩
  · rintro (⟨e, hparse⟩ | ⟨options, hparse, name, hname, fails⟩)
    · exact ⟨_, .parameter hparse⟩
    · cases houtputs : (outputs dialectName r).result with
      | error e => exact ⟨e, outputs_eq_error_iff.mp houtputs⟩
      | ok os =>
        -- Had every wanted name been done, this one would have been, too.
        obtain ⟨options', hparse', done⟩ := outputs_eq_ok_iff.mp houtputs
        obtain rfl := Except.ok.inj (hparse.symm.trans hparse')
        obtain ⟨i, hi⟩ := List.mem_iff_getElem?.mp hname
        obtain ⟨output, -, hout, htext⟩ := getElem?_of_forall₂_left done hi
        rcases fails with ⟨e, he⟩ | ⟨e, he⟩
        · exact absurd hout (ne_ok_of_eq_error he _)
        · exact absurd htext (ne_ok_of_eq_error he _)

/-- A failure by a foreign value, the only one that a response could not tell, never comes. -/
theorem not_firstFailure_unsupported (v : Value) :
    ¬FirstFailure dialectName r (.unsupported v) := by
  rintro (- | ⟨-, -, -, - | ⟨-, htext⟩⟩)
  exact generate_ne_unsupported _ _ _ _ v htext

/-! ## The response -/

/-- The response has no error and one output per wanted name: in their order, repetitions kept. -/
def Complete (dialectName : String) (r : Request) (response : Response) : Prop :=
  response.error = none ∧ ∃ options, Options.parse r.parameter = .ok options ∧
    List.Forall₂ (Done dialectName options (Descriptor.registry r.files)) r.wanted response.outputs

/-- The response has no output and tells the first failure, in words. -/
def Refused (dialectName : String) (r : Request) (response : Response) : Prop :=
  response.outputs = [] ∧ ∃ e, FirstFailure dialectName r e ∧ response.error = some e.message ∧
    e.message ≠ ""

theorem complete_of_outputs {os : List Output} (h : (outputs dialectName r).result = .ok os) :
    Complete dialectName r (answer dialectName r).result := by
  rw [answer, h]
  exact ⟨rfl, outputs_eq_ok_iff.mp h⟩

theorem refused_of_outputs {e : Failure} (h : (outputs dialectName r).result = .error e) :
    Refused dialectName r (answer dialectName r).result := by
  have first := outputs_eq_error_iff.mp h
  have known : ∀ v, e ≠ .unsupported v := by
    rintro v rfl
    exact not_firstFailure_unsupported v first
  rw [answer, h]
  exact ⟨rfl, e, first, rfl, e.message_ne_empty known⟩

theorem not_refused_of_complete {response : Response} (h : Complete dialectName r response) :
    ¬Refused dialectName r response := by
  rintro ⟨-, e, -, herror, -⟩
  exact Option.some_ne_none _ (herror.symm.trans h.1)

theorem refused_iff : Refused dialectName r (answer dialectName r).result ↔
    ∃ e, FirstFailure dialectName r e := by
  constructor
  · rintro ⟨-, e, he, -⟩
    exact ⟨e, he⟩
  · rintro ⟨e, he⟩
    exact refused_of_outputs (outputs_eq_error_iff.mpr he)

/-- Every request, in whatever dialect, is answered whole or refused — and refused exactly when its
parameter, or the output name or the text of a wanted name, fails.  The features told are the same
either way, and no failure is left that a response could not tell. -/
theorem answer_all_or_nothing (dialectName : String) (r : Request) :
    Xor (Complete dialectName r (answer dialectName r).result)
        (Refused dialectName r (answer dialectName r).result) ∧
      (Refused dialectName r (answer dialectName r).result ↔
        (∃ e, Options.parse r.parameter = .error e) ∨
          ∃ options, Options.parse r.parameter = .ok options ∧ ∃ name ∈ r.wanted,
            (∃ e, outputName name dialectName = .error e) ∨
              ∃ e, generate dialectName options (Descriptor.registry r.files) name = .error e) ∧
      (answer dialectName r).result.features = 1 ∧
      ∀ v, ¬FirstFailure dialectName r (.unsupported v) := by
  refine ⟨?_, refused_iff.trans exists_firstFailure_iff, ?_, not_firstFailure_unsupported⟩
  · cases h : (outputs dialectName r).result with
    | ok os =>
      have complete := complete_of_outputs h
      exact .inl ⟨complete, not_refused_of_complete complete⟩
    | error e =>
      have refused := refused_of_outputs h
      exact .inr ⟨refused, fun complete => not_refused_of_complete complete refused⟩
  · rw [answer]
    cases (outputs dialectName r).result <;> rfl

end Exchange

end SchemaTypes
