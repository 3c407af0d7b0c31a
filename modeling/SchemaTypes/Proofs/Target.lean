import SchemaTypes.Proofs.Built
import SchemaTypes.Proofs.Resolution
import SchemaTypes.Proofs.Runs

/-!
# Proofs/Target — the descriptor that is located is the one that is written

For an input, one descriptor is located by base name, searching from the end, and then its full name
is looked up in the registry of all descriptors, where the last file of a name counts.  Both choices
come to the same file (`file_target`): whatever has the full name of the target has its base name,
too, and behind the target nothing has.

So the text of an input is that of its target (`Job.get?_of_produce`), whatever other descriptors
share its name.
-/

namespace SchemaTypes

open Schema

/-! ## The text of a schema file -/

namespace Dialect

variable {d : Dialect} {options : Options} {registry : Registry} {f : File} {u : Unresolved}

/-- The text of a schema file, by whatever name it is registered. -/
def textOf (d : Dialect) (options : Options) (registry : Registry) (f : File) :
    Except Failure String :=
  match Declaration.build (d.heeded options) registry f with
  | .error u => .error (.unresolved u)
  | .ok ds => (d.style.render ds).mapError .unsupported

theorem generate_of_file {name : String} (found : registry.file name = .ok f) :
    d.generate options registry name = d.textOf options registry f := by
  rw [generate, found]
  rfl

/-- The text of a file that is there is never refused for want of a file. -/
theorem kind_ne_file_of_textOf (h : d.textOf options registry f = .error (.unresolved u)) :
    u.kind ≠ "file" := by
  unfold textOf at h
  cases hbuild : Declaration.build (d.heeded options) registry f with
  | error v =>
    rw [hbuild] at h
    obtain rfl : v = u := by simpa using h
    obtain ⟨m, fd, -, rfl⟩ := Declaration.build_eq_error_iff.mp hbuild
    simp only [Declaration.refusal]
    split <;> decide
  | ok ds =>
    rw [hbuild] at h
    cases hrender : d.style.render ds <;> simp [hrender, Except.mapError] at h

end Dialect

namespace Descriptor

variable {files : List File} {path : String} {t : File}

/-! ## The target -/

/-- The file that a path means: the last one with the path's base name or, if none has it, the only
file there is. -/
def Meant (files : List File) (path : String) (t : File) : Prop :=
  IsLast (fun f => Path.baseName f.name = Path.baseName path) files t ∨
    (∀ f ∈ files, Path.baseName f.name ≠ Path.baseName path) ∧ files = [t]

theorem target_eq_ok_iff : target files path = .ok t ↔ Meant files path t := by
  rw [Meant, ← @find?_reverse_eq_some_iff _ fun f : File => Path.baseName f.name,
    ← find?_reverse_eq_none_iff]
  simp only [target]
  cases files.reverse.find? (Path.baseName ·.name == Path.baseName path) with
  | some f => simp
  | none =>
    rcases files with _ | ⟨f, _ | ⟨g, rest⟩⟩
    · simp
    · simp
    · simp

/-- No file is meant exactly when none has the base name and there is not exactly one. -/
theorem target_eq_error_iff {e : NoTarget} : target files path = .error e ↔
    (¬∃ t, Meant files path t) ∧ e = ⟨Path.baseName path, files.map File.name⟩ := by
  simp only [← target_eq_ok_iff, target]
  cases files.reverse.find? (Path.baseName ·.name == Path.baseName path) with
  | some f => simp
  | none =>
    rcases files with _ | ⟨f, _ | ⟨g, rest⟩⟩
    · simp [eq_comm]
    · simp
    · simp [eq_comm]

/-- The target is the last file of its name. -/
theorem Meant.isLast (meant : Meant files path t) : IsLast (·.name = t.name) files t := by
  obtain last | ⟨-, rfl⟩ := meant
  · refine last.of_imp (fun f same => ?_) rfl
    rw [same]
    exact last.mem.2
  · exact ⟨[], [], rfl, rfl, nofun⟩

/-- The registry of all files holds the target under its name. -/
theorem file_target (found : target files path = .ok t) :
    (registry files).file t.name = .ok t.toSchema := by
  have last := find?_reverse_eq_some_iff.mpr (target_eq_ok_iff.mp found).isLast
  rw [Registry.file_eq_ok_iff, files_registry, last]
  rfl

theorem generate_target (found : target files path = .ok t) (d : Dialect) (options : Options) :
    d.generate options (registry files) t.name = d.textOf options (registry files) t.toSchema :=
  Dialect.generate_of_file (file_target found)

end Descriptor

/-! ## What is written for an input -/

namespace Command

variable {job : Job} {dialect : Dialect} {directory path : String} {p q : Progress}
  {files : List Descriptor.File} {t : Descriptor.File}

/-- Writing a text gets it onto the disk and reports it, or is stopped by the disk. -/
theorem Progress.write_cases {text : String} {stop : Option Halt}
    (h : p.write directory dialect path text = (q, stop)) :
    (stop = none ∧ q.generated = p.generated ++ [outputPath directory dialect path] ∧
        p.disk.writeIn directory (outputPath directory dialect path) text = (q.disk, none)) ∨
      ∃ e, stop = some (.disk e) := by
  unfold Progress.write at h
  rcases hwrite : p.disk.writeIn directory (outputPath directory dialect path) text
    with ⟨next, _ | e⟩
  · rw [hwrite] at h
    obtain ⟨rfl, rfl⟩ := Prod.mk.inj h
    exact .inl ⟨rfl, rfl, rfl⟩
  · rw [hwrite] at h
    exact .inr ⟨e, (congrArg Prod.snd h).symm⟩

namespace Job

section Aimed

variable (aim : job.WritesTo directory dialect) (found : Descriptor.target files path = .ok t)
include aim found

/-- Where the target has a text, producing the input writes it. -/
theorem produce_of_text {text : String}
    (htext : dialect.textOf job.options (Descriptor.registry files) t.toSchema = .ok text) :
    job.produce p path files
      = Progress.write { p with said := p.said ++ dialect.warning job.options } directory dialect
        path text := by
  rw [← Descriptor.generate_target found] at htext
  simp only [produce, found, aim.dialect, aim.output, htext]

/-- Where the target has none, producing the input stops as the target does. -/
theorem produce_of_failure {e : Failure}
    (hfail : dialect.textOf job.options (Descriptor.registry files) t.toSchema = .error e) :
    job.produce p path files
      = ({ p with said := p.said ++ dialect.warning job.options }, some (.fatal (.failed e))) := by
  rw [← Descriptor.generate_target found] at hfail
  simp only [produce, found, aim.dialect, hfail]

/-- The output of an input holds the text of its target. -/
theorem get?_of_produce (done : job.produce p path files = (q, none)) :
    ∃ text, dialect.textOf job.options (Descriptor.registry files) t.toSchema = .ok text ∧
      q.disk.get? (outputPath directory dialect path) = some (.file text) := by
  cases htext : dialect.textOf job.options (Descriptor.registry files) t.toSchema with
  | error e =>
    rw [produce_of_failure aim found htext] at done
    nomatch done
  | ok text =>
    rw [produce_of_text aim found htext] at done
    obtain ⟨-, -, written⟩ | ⟨e, he⟩ := Progress.write_cases done
    · exact ⟨text, rfl,
        Disk.get?_of_writeIn (namesIn_outputPath ..) (isName_outputFile ..) written⟩
    · nomatch he

/-- An input whose target was located is never refused for want of a file. -/
theorem kind_ne_file_of_produce {u : Unresolved}
    (stopped : job.produce p path files = (q, some (.fatal (.failed (.unresolved u))))) :
    u.kind ≠ "file" := by
  cases htext : dialect.textOf job.options (Descriptor.registry files) t.toSchema with
  | error e =>
    rw [produce_of_failure aim found htext] at stopped
    obtain rfl : e = .unresolved u := by simpa using congrArg Prod.snd stopped
    exact Dialect.kind_ne_file_of_textOf htext
  | ok text =>
    rw [produce_of_text aim found htext] at stopped
    obtain ⟨he, -⟩ | ⟨e, he⟩ := Progress.write_cases stopped
    · nomatch he
    · nomatch he

end Aimed

end Job

/-- An input is served from a descriptor, among all that it compiles to. -/
structure ServedFrom (files : List Descriptor.File) (path : String) (t : Descriptor.File) :
    Prop where
  /-- The registry of all files holds the descriptor under its name. -/
  registered : (Descriptor.registry files).file t.name = .ok t.toSchema
  /-- What is generated for that name is the text of the descriptor. -/
  generated (d : Dialect) (options : Options) :
    d.generate options (Descriptor.registry files) t.name
      = d.textOf options (Descriptor.registry files) t.toSchema
  /-- It is never refused for want of a file. -/
  known (d : Dialect) (options : Options) (u : Unresolved) :
    d.generate options (Descriptor.registry files) t.name = .error (.unresolved u) →
      u.kind ≠ "file"
  /-- Once the input is produced, its output holds the text of the descriptor. -/
  output (job : Job) (directory : String) (dialect : Dialect) (p q : Progress) :
    job.WritesTo directory dialect → job.produce p path files = (q, none) →
      ∃ text, dialect.textOf job.options (Descriptor.registry files) t.toSchema = .ok text ∧
        q.disk.get? (outputPath directory dialect path) = some (.file text)
  /-- Nor is the input ever refused for want of a file. -/
  stopped (job : Job) (directory : String) (dialect : Dialect) (p q : Progress) (u : Unresolved) :
    job.WritesTo directory dialect →
      job.produce p path files = (q, some (.fatal (.failed (.unresolved u)))) → u.kind ≠ "file"

theorem ServedFrom.of_target (found : Descriptor.target files path = .ok t) :
    ServedFrom files path t where
  registered := Descriptor.file_target found
  generated := Descriptor.generate_target found
  known d options _ refused :=
    Dialect.kind_ne_file_of_textOf ((Descriptor.generate_target found d options).symm.trans refused)
  output _ _ _ _ _ aim := Job.get?_of_produce aim found
  stopped _ _ _ _ _ _ aim := Job.kind_ne_file_of_produce aim found

/-- A path means the last file with its base name or, failing that, the only file, and in all other
cases no target is found.  An input is served from its target and from no other file. -/
theorem served_from_target (files : List Descriptor.File) (path : String) :
    (∀ t, Descriptor.target files path = .ok t ↔ Descriptor.Meant files path t) ∧
      (∀ e, Descriptor.target files path = .error e ↔
        (¬∃ t, Descriptor.Meant files path t) ∧
          e = ⟨Path.baseName path, files.map Descriptor.File.name⟩) ∧
      ∀ t, Descriptor.target files path = .ok t → ServedFrom files path t :=
  ⟨fun _ => Descriptor.target_eq_ok_iff, fun _ => Descriptor.target_eq_error_iff,
    fun _ => .of_target⟩

/-- Two descriptors of one name, and between them another one with its base name. -/
def twinFiles : List Descriptor.File :=
  [{ name := "x.proto", messages := [{ name := "A" }] },
    { name := "old/x.proto", messages := [{ name := "C" }] },
    { name := "x.proto", messages := [{ name := "B" }] }]

/-- The last of them is the target, and its text is what the output holds. -/
theorem served_from_target_twins :
    Descriptor.target twinFiles "in/a/x.proto"
        = .ok { name := "x.proto", messages := [{ name := "B" }] } ∧
      ∃ q, (shelfJob (shelfReply "B")).produce { disk := shelfDisk } "in/a/x.proto" twinFiles
          = (q, none) ∧
        q.disk.get? "o/x.js" = some (.file (shelfText "B")) := by
  have found : Descriptor.target twinFiles "in/a/x.proto"
      = .ok { name := "x.proto", messages := [{ name := "B" }] } := rfl
  have aim : (shelfJob (shelfReply "B")).WritesTo "o" .flow := ⟨rfl, rfl⟩
  have own : Dialect.flow.textOf {} (Descriptor.registry twinFiles)
      (Descriptor.File.toSchema { name := "x.proto", messages := [{ name := "B" }] })
        = .ok (shelfText "B") := rfl
  obtain ⟨next, written⟩ := takes_shelf "in/a/x.proto" List.mem_cons_self (shelfText "B")
  have done : ∃ q, (shelfJob (shelfReply "B")).produce { disk := shelfDisk } "in/a/x.proto"
      twinFiles = (q, none) := by
    rw [Job.produce_of_text aim found own, Progress.write, written]
    exact ⟨_, rfl⟩
  obtain ⟨q, done⟩ := done
  obtain ⟨text, htext, held⟩ :=
    ((served_from_target twinFiles "in/a/x.proto").2.2 _ found).output _ _ _ _ _ aim done
  obtain rfl := Except.ok.inj (htext.symm.trans own)
  rw [outputPath_shelf] at held
  exact ⟨found, q, done, held⟩

end Command

end SchemaTypes
