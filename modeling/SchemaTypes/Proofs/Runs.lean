import Mathlib.Data.List.Sort
import Mathlib.Data.String.Basic
import SchemaTypes.Proofs.LastEntry
import SchemaTypes.Proofs.Sent
import SchemaTypes.Proofs.Writing

/-!
# Proofs/Runs — runs over the schema files of a directory

What becomes of an input does not depend on the files written for others: `Job.Yields` says which
text it gives, `Job.Fails` which failure is reported for it.  `Written` is the disk after some
texts were written one after the other.

* `Job.steps_eq_none_iff` — a run over inputs gets through exactly when each of them yields a text
  and all texts can be written; this also says all that it did.
* `execute_stops_at_first_failure` — a run reports all of its inputs, or stops at the first that
  fails with exactly the earlier ones written.
* `output_of_last_same_stem` — a file at the end of a run holds the text of the last input with its
  stem, and nothing of an earlier one (`lost_output`).
-/

namespace SchemaTypes.Command

variable {job : Job} {dialect : Dialect} {directory : String} {disk next last : Disk}
  {input text : String} {inputs : List String}

/-! ## What an input gives -/

namespace Job

/-- The text that an input gives: it compiles, one of the files it compiles to is meant by it, and
the text is generated for that file. -/
def Yields (job : Job) (dialect : Dialect) (disk : Disk) (input text : String) : Prop :=
  ∃ files target, job.compile (job.call disk input) = .ok files ∧
    Descriptor.target files input = .ok target ∧
    dialect.generate job.options (Descriptor.registry files) target.name = .ok text

theorem Yields.unique {other : String} (h : job.Yields dialect disk input text)
    (h' : job.Yields dialect disk input other) : text = other := by
  obtain ⟨files, target, hcompile, htarget, hgenerate⟩ := h
  obtain ⟨files', target', hcompile', htarget', hgenerate'⟩ := h'
  obtain rfl := Except.ok.inj (hcompile.symm.trans hcompile')
  obtain rfl := Except.ok.inj (htarget.symm.trans htarget')
  exact Except.ok.inj (hgenerate.symm.trans hgenerate')

/-- The failure reported for an input: it does not compile, no file it compiles to is meant by it,
or that file refers to something unknown. -/
inductive Fails (job : Job) (dialect : Dialect) (disk : Disk) (input : String) : Fatal → Prop
  | compile {f : Fatal} : job.compile (job.call disk input) = .error (.fatal f) →
      Fails job dialect disk input f
  | target {files : List Descriptor.File} {e : Descriptor.NoTarget} :
      job.compile (job.call disk input) = .ok files → Descriptor.target files input = .error e →
      Fails job dialect disk input (.noTarget e)
  | resolve {files : List Descriptor.File} {target : Descriptor.File} {e : Schema.Unresolved} :
      job.compile (job.call disk input) = .ok files → Descriptor.target files input = .ok target →
      dialect.generate job.options (Descriptor.registry files) target.name
        = .error (.unresolved e) →
      Fails job dialect disk input (.failed (.unresolved e))

/-- Only the working directory of a disk matters for a call. -/
theorem call_eq_of_cwd (h : next.cwd = disk.cwd) (job : Job) (input : String) :
    job.call next input = job.call disk input := by
  rw [call, call, Disk.cwdPath, Disk.cwdPath, h]

theorem yields_iff_of_cwd (h : next.cwd = disk.cwd) :
    job.Yields dialect next input text ↔ job.Yields dialect disk input text := by
  rw [Yields, Yields, call_eq_of_cwd h]

theorem Fails.of_cwd {f : Fatal} (h : next.cwd = disk.cwd)
    (fails : job.Fails dialect disk input f) :
    job.Fails dialect next input f := by
  cases fails with
  | compile hcompile => exact .compile (by rwa [call_eq_of_cwd h])
  | target hcompile htarget => exact .target (by rwa [call_eq_of_cwd h]) htarget
  | resolve hcompile htarget herror =>
    exact .resolve (by rwa [call_eq_of_cwd h]) htarget herror

end Job

/-! ## Texts written one after the other -/

/-- The disk after texts for inputs are written to a directory, one after the other. -/
inductive Written (directory : String) (dialect : Dialect) :
    Disk → List (String × String) → Disk → Prop
  | nil {disk : Disk} : Written directory dialect disk [] disk
  | cons {disk next last : Disk} {input text : String} {ws : List (String × String)} :
      disk.writeIn directory (outputPath directory dialect input) text = (next, none) →
      Written directory dialect next ws last →
      Written directory dialect disk ((input, text) :: ws) last

/-- Any text for an input can be written to a directory. -/
def Disk.Takes (disk : Disk) (directory : String) (dialect : Dialect) (input : String) : Prop :=
  ∀ text, ∃ next, disk.writeIn directory (outputPath directory dialect input) text = (next, none)

section Step

variable (written : disk.writeIn directory (outputPath directory dialect input) text = (next, none))
include written

theorem spares_outputFile : Spares disk next directory [outputFile dialect input] :=
  Disk.spares_of_writeIn (namesIn_outputPath ..) (isName_outputFile ..) written

theorem cwd_of_writeIn : next.cwd = disk.cwd := (spares_outputFile written).cwd

theorem Disk.Takes.of_writeIn {other : String} (takes : disk.Takes directory dialect other) :
    next.Takes directory dialect other := by
  intro new
  obtain ⟨instead, could⟩ := takes new
  exact Disk.exists_writeIn_of_writeIn (namesIn_outputPath ..) (isName_outputFile ..) written
    (namesIn_outputPath ..) (isName_outputFile ..) could new

end Step

namespace Written

variable {ws vs : List (String × String)}

/-- Only the outputs of the inputs change. -/
theorem spares (h : Written directory dialect disk ws last) :
    Spares disk last directory (ws.map fun w => outputFile dialect w.1) := by
  induction h with
  | nil => exact .refl ..
  | cons written _ ih => exact (spares_outputFile written).trans ih

theorem append_iff : Written directory dialect disk (ws ++ vs) last ↔
    ∃ middle, Written directory dialect disk ws middle ∧
      Written directory dialect middle vs last := by
  induction ws generalizing disk with
  | nil =>
    constructor
    · exact fun h => ⟨disk, .nil, h⟩
    · rintro ⟨middle, ⟨⟩, h⟩
      exact h
  | cons w ws ih =>
    constructor
    · rintro (_ | ⟨written, rest⟩)
      obtain ⟨middle, front, back⟩ := ih.mp rest
      exact ⟨middle, .cons written front, back⟩
    · rintro ⟨middle, _ | ⟨written, front⟩, back⟩
      exact .cons written (ih.mpr ⟨middle, front, back⟩)

/-- An output stays while inputs with other stems are written. -/
theorem get?_of_stem_ne {other old : String} (h : Written directory dialect disk ws last)
    (hstem : ∀ w ∈ ws, (Path.parse other).stem ≠ (Path.parse w.1).stem)
    (held : disk.get? (outputPath directory dialect other) = some (.file old)) :
    last.get? (outputPath directory dialect other) = some (.file old) := by
  refine Disk.get?_of_spares h.spares (namesIn_outputPath ..) (isName_outputFile ..) ?_ held
  intro hmem
  obtain ⟨w, hw, same⟩ := List.mem_map.mp hmem
  exact hstem w hw (outputFile_eq_iff.mp same.symm)

/-- The last text written for a stem is what its output holds in the end. -/
theorem get?_of_isLast {other : String} {w : String × String}
    (h : Written directory dialect disk ws last)
    (hlast : IsLast (fun v => (Path.parse v.1).stem = (Path.parse other).stem) ws w) :
    last.get? (outputPath directory dialect other) = some (.file w.2) := by
  obtain ⟨input, text⟩ := w
  obtain ⟨before, after, rfl, hstem, hafter⟩ := hlast
  obtain ⟨middle, -, _ | ⟨written, rest⟩⟩ := append_iff.mp h
  have here := Disk.get?_of_writeIn (namesIn_outputPath ..) (isName_outputFile ..) written
  have same : outputPath directory dialect input = outputPath directory dialect other := by
    rw [outputPath, outputPath, hstem]
  rw [same] at here
  exact rest.get?_of_stem_ne (fun v hv stem => hafter v hv stem.symm) here

end Written

/-- The output of every input holds the text that the last input with its stem yields. -/
def Job.Holds (job : Job) (directory : String) (dialect : Dialect) (disk : Disk)
    (inputs : List String) (last : Disk) : Prop :=
  ∀ input ∈ inputs, ∃ source text,
    IsLast (fun other => (Path.parse other).stem = (Path.parse input).stem) inputs source ∧
    job.Yields dialect disk source text ∧
    last.get? (outputPath directory dialect input) = some (.file text)

/-- The disk after the inputs of a job are written, each with the text it yields. -/
def Job.Writes (job : Job) (directory : String) (dialect : Dialect) (disk : Disk)
    (inputs : List String) (last : Disk) : Prop :=
  ∃ ws, ws.map Prod.fst = inputs ∧ (∀ w ∈ ws, job.Yields dialect disk w.1 w.2) ∧
    Written directory dialect disk ws last

namespace Job

/-- Only the outputs of the inputs change. -/
theorem Writes.spares : job.Writes directory dialect disk inputs last →
    Spares disk last directory (inputs.map (outputFile dialect)) := by
  rintro ⟨ws, rfl, -, written⟩
  rw [List.map_map]
  exact written.spares

theorem writes_nil_iff : job.Writes directory dialect disk [] last ↔ last = disk := by
  constructor
  · rintro ⟨ws, hws, -, written⟩
    obtain rfl := List.map_eq_nil_iff.mp hws
    cases written with
    | nil => rfl
  · rintro rfl
    exact ⟨[], rfl, by simp, .nil⟩

/-- The first input is written, and then the others, which yield what they would without it. -/
theorem writes_cons_iff : job.Writes directory dialect disk (input :: inputs) last ↔
    ∃ text next, job.Yields dialect disk input text ∧
      disk.writeIn directory (outputPath directory dialect input) text = (next, none) ∧
      job.Writes directory dialect next inputs last := by
  constructor
  · rintro ⟨ws, hinputs, hws, written⟩
    obtain ⟨⟨_, text⟩, ws, rfl, rfl, rfl⟩ := List.map_eq_cons_iff.mp hinputs
    obtain _ | ⟨here, rest⟩ := written
    obtain ⟨yields, hws⟩ := List.forall_mem_cons.mp hws
    have hcwd := cwd_of_writeIn here
    refine ⟨text, _, yields, here, ws, rfl, ?_, rest⟩
    exact fun w hw => (yields_iff_of_cwd hcwd).mpr (hws w hw)
  · rintro ⟨text, next, yields, here, ws, rfl, hws, rest⟩
    have hcwd := cwd_of_writeIn here
    refine ⟨(input, text) :: ws, rfl, List.forall_mem_cons.mpr ⟨yields, ?_⟩, .cons here rest⟩
    exact fun w hw => (yields_iff_of_cwd hcwd).mp (hws w hw)

/-- The output of an input holds the text of the last input with its stem. -/
theorem Writes.get?_of_isLast {source : String}
    (writes : job.Writes directory dialect disk inputs last) (input : String)
    (hlast : IsLast (fun other => (Path.parse other).stem = (Path.parse input).stem) inputs
      source) :
    ∃ text, job.Yields dialect disk source text ∧
      last.get? (outputPath directory dialect input) = some (.file text) := by
  obtain ⟨ws, rfl, hws, written⟩ := writes
  obtain ⟨w, rfl, hw⟩ := hlast.of_map
  exact ⟨w.2, hws w hw.mem.1, written.get?_of_isLast hw⟩

theorem Writes.holds (writes : job.Writes directory dialect disk inputs last) :
    job.Holds directory dialect disk inputs last := by
  intro input hinput
  obtain ⟨source, hlast⟩ := exists_isLast (fun other => (Path.parse other).stem) hinput
  obtain ⟨text, yields, held⟩ := writes.get?_of_isLast input hlast
  exact ⟨source, text, hlast, yields, held⟩

/-- Inputs that all yield a text, where any text can be written, can all be written. -/
theorem exists_writes (yields : ∀ input ∈ inputs, ∃ text, job.Yields dialect disk input text)
    (takes : ∀ input ∈ inputs, disk.Takes directory dialect input) :
    ∃ last, job.Writes directory dialect disk inputs last := by
  induction inputs generalizing disk with
  | nil => exact ⟨disk, writes_nil_iff.mpr rfl⟩
  | cons input inputs ih =>
    obtain ⟨⟨text, here⟩, later⟩ := List.forall_mem_cons.mp yields
    obtain ⟨room, room_later⟩ := List.forall_mem_cons.mp takes
    obtain ⟨next, written⟩ := room text
    have hcwd := cwd_of_writeIn written
    obtain ⟨last, writes⟩ := ih
      (fun other hother => (later other hother).imp fun _ => (yields_iff_of_cwd hcwd).mpr)
      (fun other hother => (room_later other hother).of_writeIn written)
    exact ⟨last, writes_cons_iff.mpr ⟨text, next, here, written, writes⟩⟩

end Job

/-! ## Steps and runs -/

/-- A job writes to a directory, in a dialect. -/
structure Job.WritesTo (job : Job) (directory : String) (dialect : Dialect) : Prop where
  output : job.output = some directory
  dialect : job.dialect = some dialect

/-- The progress once texts for further inputs are written. -/
def Progress.through (p : Progress) (job : Job) (directory : String) (dialect : Dialect)
    (inputs : List String) (last : Disk) : Progress where
  disk := last
  calls := p.calls ++ inputs.map (job.call p.disk)
  said := p.said ++ String.join (inputs.map fun _ => dialect.warning job.options)
  generated := p.generated ++ inputs.map (outputPath directory dialect)

namespace Progress

variable {p : Progress}

theorem through_nil : p.through job directory dialect [] p.disk = p := by
  simp [through]

theorem through_cons (h : next.cwd = p.disk.cwd) :
    (p.through job directory dialect [input] next).through job directory dialect inputs last
      = p.through job directory dialect (input :: inputs) last := by
  have calls : job.call next = job.call p.disk := funext (Job.call_eq_of_cwd h job)
  simp [through, calls, String.append_assoc]

end Progress

namespace Job

variable {p q : Progress}

section Aimed

variable (aim : job.WritesTo directory dialect)
include aim

/-- A step gets through exactly when its input yields a text that can be written. -/
theorem step_eq_none_iff : job.step p input = (q, none) ↔
    ∃ text next, job.Yields dialect p.disk input text ∧
      p.disk.writeIn directory (outputPath directory dialect input) text = (next, none) ∧
      q = p.through job directory dialect [input] next := by
  cases hcompile : job.compile (job.call p.disk input) with
  | error h => simp [step, Yields, hcompile]
  | ok files =>
    cases htarget : Descriptor.target files input with
    | error e => simp [step, Yields, hcompile, produce, htarget]
    | ok target =>
      cases hgenerate : dialect.generate job.options (Descriptor.registry files) target.name with
      | error e => simp [step, Yields, hcompile, produce, htarget, hgenerate, aim.dialect]
      | ok text =>
        have only (other : String) : job.Yields dialect p.disk input other ↔ text = other := by
          simp [Yields, hcompile, htarget, hgenerate]
        simp only [step, hcompile, produce, htarget, hgenerate, aim.dialect, aim.output,
          Progress.write, only, exists_and_left, exists_eq_left']
        rcases p.disk.writeIn directory (outputPath directory dialect input) text
          with ⟨next, _ | e⟩
        · simp [Progress.through, String.join, eq_comm]
        · simp

/-- A step stops with the failure of its input, and leaves the disk as it was. -/
theorem step_of_fails {f : Fatal} (fails : job.Fails dialect p.disk input f) :
    ∃ said, job.step p input
      = ({ p with calls := p.calls ++ [job.call p.disk input], said }, some (.fatal f)) := by
  cases fails with
  | compile hcompile => exact ⟨p.said, by rw [step, hcompile]⟩
  | target hcompile htarget => exact ⟨p.said, by rw [step, hcompile]; simp [produce, htarget]⟩
  | resolve hcompile htarget herror =>
    refine ⟨p.said ++ dialect.warning job.options, ?_⟩
    simp [step, hcompile, produce, htarget, herror, aim.dialect]

/-- A run over inputs gets through exactly when each yields a text and all texts can be written. -/
theorem steps_eq_none_iff : job.steps p inputs = (q, none) ↔
    ∃ last, job.Writes directory dialect p.disk inputs last ∧
      q = p.through job directory dialect inputs last := by
  induction inputs generalizing p with
  | nil =>
    simp only [steps, writes_nil_iff, exists_eq_left, Progress.through_nil, Prod.mk.injEq, and_true,
      eq_comm]
  | cons input inputs ih =>
    rw [steps]
    constructor
    · intro h
      rcases hstep : job.step p input with ⟨middle, _ | stop⟩
      · rw [hstep] at h
        obtain ⟨text, next, yields, written, rfl⟩ := (step_eq_none_iff aim).mp hstep
        obtain ⟨last, rest, rfl⟩ := ih.mp h
        exact ⟨last, writes_cons_iff.mpr ⟨text, next, yields, written, rest⟩,
          Progress.through_cons (cwd_of_writeIn written)⟩
      · rw [hstep] at h
        nomatch h
    · rintro ⟨last, writes, rfl⟩
      obtain ⟨text, next, yields, written, rest⟩ := writes_cons_iff.mp writes
      rw [(step_eq_none_iff aim).mpr ⟨text, next, yields, written, rfl⟩]
      exact ih.mpr ⟨last, rest, (Progress.through_cons (cwd_of_writeIn written)).symm⟩

theorem steps_of_writes (writes : job.Writes directory dialect p.disk inputs last) :
    job.steps p inputs = (p.through job directory dialect inputs last, none) :=
  (steps_eq_none_iff aim).mpr ⟨last, writes, rfl⟩

end Aimed

theorem steps_append (job : Job) (p : Progress) (before after : List String) :
    job.steps p (before ++ after) = match job.steps p before with
      | (q, none) => job.steps q after
      | (q, some h) => (q, some h) := by
  induction before generalizing p with
  | nil => rfl
  | cons input before ih =>
    rw [List.cons_append, steps, steps]
    rcases job.step p input with ⟨q, _ | h⟩
    · exact ih q
    · rfl

end Job

/-! ## Outcomes -/

/-- The report of the outputs of inputs, one in a line. -/
def report (directory : String) (dialect : Dialect) (inputs : List String) : String :=
  String.join (inputs.map fun input => "Generated: " ++ outputPath directory dialect input ++ "\n")

/-- A run has got through all inputs of a job: the compiler was called for each, each is written
and each is reported.  In the end their outputs hold the texts of the last inputs of their stems,
and no other file has changed. -/
structure Outcome.Completes (o : Outcome) (job : Job) (directory : String) (dialect : Dialect)
    (disk : Disk) (inputs : List String) : Prop where
  ending : o.ending = .exit 0
  calls : o.calls = inputs.map (job.call disk)
  printed : o.printed = report directory dialect inputs
  writes : job.Writes directory dialect disk inputs o.disk
  holds : job.Holds directory dialect disk inputs o.disk
  spares : Spares disk o.disk directory (inputs.map (outputFile dialect))

/-- A run has stopped at an input of a job with a failure: the compiler was called for it and for
those before it, only those before it are written, and nothing is reported but the failure.  The
outputs of those before it hold the texts of the last of them with their stems, and no other file
has changed. -/
structure Outcome.StopsAt (o : Outcome) (job : Job) (directory : String) (dialect : Dialect)
    (disk : Disk) (before : List String) (input : String) (f : Fatal) : Prop where
  ending : o.ending = .exit 1
  calls : o.calls = (before ++ [input]).map (job.call disk)
  printed : o.printed = ""
  said : ∃ said, o.said = said ++ "FATAL: " ++ f.message ++ "\n"
  writes : job.Writes directory dialect disk before o.disk
  holds : job.Holds directory dialect disk before o.disk
  spares : Spares disk o.disk directory (before.map (outputFile dialect))
  untouched : before = [] → o.disk = disk

namespace Job

theorem completes_of_writes (writes : job.Writes directory dialect disk inputs last) :
    (Outcome.ofProgress (Progress.through { disk := disk } job directory dialect inputs last,
      none)).Completes job directory dialect disk inputs := by
  refine ⟨rfl, rfl, ?_, writes, writes.holds, writes.spares⟩
  simp [Outcome.ofProgress, Progress.through, report, Function.comp_def]

section Aimed

variable (aim : job.WritesTo directory dialect)
include aim

theorem completes_of_exit
    (success : (Outcome.ofProgress (job.steps { disk := disk } inputs)).ending = .exit 0) :
    (Outcome.ofProgress (job.steps { disk := disk } inputs)).Completes job directory dialect disk
      inputs := by
  rcases hsteps : job.steps { disk := disk } inputs with ⟨q, _ | stop⟩
  · obtain ⟨last, writes, rfl⟩ := (steps_eq_none_iff aim).mp hsteps
    exact completes_of_writes writes
  · rw [hsteps] at success
    cases stop <;> simp [Outcome.ofProgress] at success

theorem completes_of_yields
    (yields : ∀ input ∈ inputs, ∃ text, job.Yields dialect disk input text)
    (takes : ∀ input ∈ inputs, disk.Takes directory dialect input) :
    (Outcome.ofProgress (job.steps { disk := disk } inputs)).Completes job directory dialect disk
      inputs := by
  obtain ⟨last, writes⟩ := exists_writes yields takes
  rw [steps_of_writes (p := { disk := disk }) aim writes]
  exact completes_of_writes writes

theorem stopsAt_of_fails {before after : List String} {f : Fatal}
    (yields : ∀ earlier ∈ before, ∃ text, job.Yields dialect disk earlier text)
    (takes : ∀ earlier ∈ before, disk.Takes directory dialect earlier)
    (fails : job.Fails dialect disk input f) :
    (Outcome.ofProgress (job.steps { disk := disk } (before ++ input :: after))).StopsAt job
      directory dialect disk before input f := by
  obtain ⟨last, writes⟩ := exists_writes yields takes
  have through := steps_of_writes (p := { disk := disk }) aim writes
  obtain ⟨said, stop⟩ := step_of_fails aim
    (p := Progress.through { disk := disk } job directory dialect before last)
    (fails.of_cwd writes.spares.cwd)
  rw [steps_append, through]
  simp only [steps, stop]
  refine ⟨rfl, ?_, rfl, ⟨said, rfl⟩, writes, writes.holds, writes.spares, ?_⟩
  · simp [Outcome.ofProgress, Progress.through, call_eq_of_cwd writes.spares.cwd]
  · rintro rfl
    exact writes_nil_iff.mp writes

end Aimed

end Job

/-! ## Runs over a directory -/

/-- Some words ask for the schema files below a directory, to be written to another directory in a
dialect. -/
structure Asks (words : List String) (disk : Disk) (s : Settings) (schema directory : String)
    (dialect : Dialect) : Prop where
  settings : Settings.ofWords words = .ok s
  isDirectory : disk.isDirectory schema
  schema : s.schema = some schema
  output : s.output = some directory
  dialect : s.dialect = some dialect

/-- The inputs of a run over a directory: the schema files below it, in code point order. -/
structure Disk.Lists (disk : Disk) (schema : String) (inputs : List String) : Prop where
  perm : inputs.Perm (disk.pathsEnding ".proto" schema)
  sorted : inputs.Pairwise (· ≤ ·)

theorem sorted_eq_insertionSort (ss : List String) :
    Text.sorted ss = ss.insertionSort (· ≤ ·) := by
  have insert (s : String) (ts : List String) :
      Text.insertSorted s ts = ts.orderedInsert (· ≤ ·) s := by
    induction ts with
    | nil => rfl
    | cons t ts ih => simp only [Text.insertSorted, List.orderedInsert_cons, ih, ← not_lt, ite_not]
  induction ss with
  | nil => rfl
  | cons s ss ih => rw [Text.sorted, insert, ih, List.insertionSort_cons]

theorem Disk.Lists.eq {schema : String} (lists : disk.Lists schema inputs) :
    disk.entriesEnding ".proto" schema = inputs := by
  have hperm := (List.perm_insertionSort (· ≤ ·) (disk.pathsEnding ".proto" schema)).trans
    lists.perm.symm
  rw [entriesEnding, sorted_eq_insertionSort]
  exact hperm.eq_of_pairwise' (List.pairwise_insertionSort _ _) lists.sorted

section Directory

variable {compiler : Compiler} {words : List String} {s : Settings} {schema : String}
  (asks : Asks words disk s schema directory dialect)
include asks

theorem Asks.writesTo : (s.job [schema] compiler).WritesTo directory dialect :=
  ⟨asks.output, asks.dialect⟩

/-- A run over a directory takes the schema files below it one by one. -/
theorem Asks.execute_eq (lists : disk.Lists schema inputs) (hne : inputs ≠ []) :
    execute compiler disk words
      = .ofProgress ((s.job [schema] compiler).steps { disk := disk } inputs) := by
  simp only [execute, asks.settings, run, asks.schema, Settings.run, if_pos asks.isDirectory,
    lists.eq]

end Directory

/-- A disk with a schema file of the same name in two directories. -/
def shelfDisk : Disk where
  root := .directory [("in", .directory [
    ("a", .directory [("x.proto", .file "")]), ("b", .directory [("x.proto", .file "")])])]
  cwd := []

def shelfWords : List String := ["--proto", "in", "--out", "o"]

def shelfInputs : List String := ["in/a/x.proto", "in/b/x.proto"]

/-- A file with one empty message. -/
def shelfFile (message : String) : Sent.File :=
  { name := some "x.proto", messages := [{ name := some message }] }

/-- The text for a file with one empty message. -/
def shelfText (message : String) : String :=
  "/* @flow */\nexport type " ++ message ++ " = \x7b\n\n\x7d;\n\n"

def shelfReply (message : String) : Reply :=
  .compiled (Wire.Part.encodeAll (Wire.Part.messages 1 ([shelfFile message].map Sent.File.parts)))

def shelfCompiler (second : Reply) : Compiler := some fun call =>
  if call.input = "in/a/x.proto" then shelfReply "A" else second

def shelfJob (second : Reply) : Job :=
  Settings.job { schema := some "in", output := some "o" } ["in"] (shelfCompiler second)

theorem asks_shelf :
    Asks shelfWords shelfDisk { schema := some "in", output := some "o" } "in" "o" .flow :=
  ⟨rfl, rfl, rfl, rfl, rfl⟩

theorem lists_shelf : shelfDisk.Lists "in" shelfInputs := ⟨by rfl, by decide⟩

theorem takes_shelf : ∀ input ∈ shelfInputs, shelfDisk.Takes "o" .flow input := by
  have made : shelfDisk.ensureDirectories "o" = (shelfDisk.put ["o"] (.directory []), none) := by
    rw [Disk.ensureDirectories, show (Path.pieces "o").reverse.dropWhile (· == "") = ["o"] from rfl,
      Disk.ensureAbove]
    rfl
  intro input hinput text
  rw [Disk.writeIn, made]
  simp only [shelfInputs, List.mem_cons, List.not_mem_nil, or_false] at hinput
  obtain rfl | rfl := hinput
  · exact ⟨_, rfl⟩
  · exact ⟨_, rfl⟩

/-- Bytes that are read as a descriptor set give its files. -/
theorem Job.compile_of_compiled {reply : Invocation → Reply} {call : Invocation}
    {bytes : List UInt8} {files : List Descriptor.File} (hcompiler : job.compiler = some reply)
    (hreply : reply call = .compiled bytes) (read : Descriptor.decodeSet? bytes = some files) :
    job.compile call = .ok files := by
  simp only [Job.compile, hcompiler, hreply, read]

theorem Job.compile_of_refused {reply : Invocation → Reply} {call : Invocation}
    {complaint : List UInt8} (hcompiler : job.compiler = some reply)
    (hreply : reply call = .refused complaint) (read : Text.Utf8.decode complaint = text) :
    job.compile call = .error (.fatal (.refused text)) := by
  simp only [Job.compile, hcompiler, hreply, read]

theorem yields_first (second : Reply) :
    (shelfJob second).Yields .flow shelfDisk "in/a/x.proto" (shelfText "A") := by
  have read := Sent.decodeSet?_encodeAll [shelfFile "A"] (by cbv) (by cbv)
  exact ⟨_, (shelfFile "A").value, Job.compile_of_compiled rfl rfl read, rfl, rfl⟩

theorem yields_second :
    (shelfJob (shelfReply "B")).Yields .flow shelfDisk "in/b/x.proto" (shelfText "B") := by
  have read := Sent.decodeSet?_encodeAll [shelfFile "B"] (by cbv) (by cbv)
  exact ⟨_, (shelfFile "B").value, Job.compile_of_compiled rfl rfl read, rfl, rfl⟩

theorem yields_shelf : ∀ input ∈ shelfInputs,
    ∃ text, (shelfJob (shelfReply "B")).Yields .flow shelfDisk input text := by
  simp only [shelfInputs, List.forall_mem_cons, List.not_mem_nil, false_implies, implies_true,
    and_true]
  exact ⟨⟨_, yields_first _⟩, ⟨_, yields_second⟩⟩

theorem fails_second : (shelfJob (.refused (Text.Utf8.encode "bad"))).Fails .flow shelfDisk
    "in/b/x.proto" (.refused "bad") :=
  .compile (Job.compile_of_refused rfl rfl (Text.Utf8.decode_encode "bad"))

theorem outputPath_shelf : outputPath "o" .flow "in/a/x.proto" = "o/x.js" := rfl

/-- In a run over a directory that succeeds, the output reported for an input holds in the end the
text of the last input with its stem.  It is the input's own text if no other has its stem. -/
theorem output_of_last_same_stem (compiler : Compiler) (disk : Disk) (words : List String)
    {s : Settings} {schema directory : String} {dialect : Dialect}
    (asks : Asks words disk s schema directory dialect) {inputs : List String}
    (lists : disk.Lists schema inputs)
    (success : (execute compiler disk words).ending = .exit 0) :
    (inputs ≠ [] → (execute compiler disk words).printed = report directory dialect inputs) ∧
    ∀ input ∈ inputs, ∃ source text,
      IsLast (fun other => (Path.parse other).stem = (Path.parse input).stem) inputs source ∧
      (s.job [schema] compiler).Yields dialect disk source text ∧
      (execute compiler disk words).disk.get? (outputPath directory dialect input)
        = some (.file text) ∧
      ((∀ other ∈ inputs, (Path.parse other).stem = (Path.parse input).stem → other = input) →
        source = input) := by
  have completes (hne : inputs ≠ []) : (execute compiler disk words).Completes
      (s.job [schema] compiler) directory dialect disk inputs := by
    rw [asks.execute_eq lists hne] at success ⊢
    exact Job.completes_of_exit asks.writesTo success
  refine ⟨fun hne => (completes hne).printed, fun input hinput => ?_⟩
  obtain ⟨source, text, hlast, yields, held⟩ :=
    (completes (List.ne_nil_of_mem hinput)).holds input hinput
  exact ⟨source, text, hlast, yields, held, fun only => only source hlast.mem.1 hlast.mem.2⟩

/-- The run over two files of one name succeeds. -/
theorem completes_shelf : (execute (shelfCompiler (shelfReply "B")) shelfDisk shelfWords).Completes
    (shelfJob (shelfReply "B")) "o" .flow shelfDisk shelfInputs := by
  rw [asks_shelf.execute_eq lists_shelf (List.cons_ne_nil _ _)]
  exact Job.completes_of_yields asks_shelf.writesTo yields_shelf takes_shelf

/-- The output of the first file holds in the end what a last input of its stem yields. -/
theorem output_of_last_same_stem_shelf :
    (execute (shelfCompiler (shelfReply "B")) shelfDisk shelfWords).ending = .exit 0 ∧
      ∃ source text,
        IsLast (fun other => (Path.parse other).stem = "x") shelfInputs source ∧
        (shelfJob (shelfReply "B")).Yields .flow shelfDisk source text ∧
        (execute (shelfCompiler (shelfReply "B")) shelfDisk shelfWords).disk.get? "o/x.js"
          = some (.file text) := by
  obtain ⟨source, text, hlast, yields, held, -⟩ :=
    (output_of_last_same_stem (shelfCompiler (shelfReply "B")) shelfDisk shelfWords asks_shelf
      lists_shelf completes_shelf.ending).2 "in/a/x.proto" List.mem_cons_self
  rw [outputPath_shelf] at held
  exact ⟨completes_shelf.ending, source, text, hlast, yields, held⟩

/-- **An output can be lost.**  The run over two files of one name succeeds and reports the same
path twice, and in the end it does not hold the text of the first. -/
theorem lost_output :
    (execute (shelfCompiler (shelfReply "B")) shelfDisk shelfWords).ending = .exit 0 ∧
      (execute (shelfCompiler (shelfReply "B")) shelfDisk shelfWords).printed
        = "Generated: o/x.js\nGenerated: o/x.js\n" ∧
      (shelfJob (shelfReply "B")).Yields .flow shelfDisk "in/a/x.proto" (shelfText "A") ∧
      (execute (shelfCompiler (shelfReply "B")) shelfDisk shelfWords).disk.get? "o/x.js"
        = some (.file (shelfText "B")) ∧
      shelfText "A" ≠ shelfText "B" := by
  have first : (Path.parse "in/a/x.proto").stem = "x" := rfl
  have second : (Path.parse "in/b/x.proto").stem = "x" := rfl
  have hlast : IsLast (fun other => (Path.parse other).stem = (Path.parse "in/a/x.proto").stem)
      shelfInputs "in/b/x.proto" := ⟨["in/a/x.proto"], [], rfl, second.trans first.symm, nofun⟩
  obtain ⟨text, yields, held⟩ := completes_shelf.writes.get?_of_isLast "in/a/x.proto" hlast
  obtain rfl := yields.unique yields_second
  have reported : report "o" .flow shelfInputs = "Generated: o/x.js\nGenerated: o/x.js\n" := rfl
  rw [outputPath_shelf] at held
  exact ⟨completes_shelf.ending, completes_shelf.printed.trans reported, yields_first _, held,
    by decide⟩

end SchemaTypes.Command
