import Mathlib.Data.List.Induction
import SchemaTypes.Proofs.Pass
import SchemaTypes.Proofs.Runs

/-!
# Proofs/SearchPath — where an import is found

The compiler looks for an import in the directories of its call, one after the other, and takes it
from the first that has it.  The directories are offered as the command line brings them, with
repetitions and empty names; a call names each of them once, where it is offered first.

* `withoutRepeats_concat` — what one more directory on offer does to the directories of a call.
* `isFirst_withoutRepeats` — hence, whatever is sought, the first directory that has it is the same.
* `Job.calls_steps` — the calls of a run are those for its inputs up to where it stops, whatever was
  written meanwhile; so every call searches what its run brings (`exists_job_of_mem_calls`).
-/

namespace SchemaTypes.Command

/-! ## One directory after the other -/

/-- Directories without the empty ones, each where it comes first. -/
def withoutRepeats (offered : List String) : List String :=
  (offered.filter (· != "")).eraseDups

variable {offered : List String} {directory : String}

/-- A directory that is new comes last; an empty one, or one that was there, is passed over. -/
theorem withoutRepeats_concat (offered : List String) (directory : String) :
    withoutRepeats (offered ++ [directory])
      = if directory = "" ∨ directory ∈ offered then withoutRepeats offered
        else withoutRepeats offered ++ [directory] := by
  rw [withoutRepeats, withoutRepeats, List.filter_append, List.eraseDups_append]
  by_cases empty : directory = ""
  · simp [empty]
  · by_cases old : directory ∈ offered
    · simp [empty, old, List.removeAll]
    · simp [empty, old, List.removeAll, List.eraseDups_cons]

theorem mem_withoutRepeats :
    directory ∈ withoutRepeats offered ↔ directory ∈ offered ∧ directory ≠ "" := by
  simp [withoutRepeats]

theorem nodup_withoutRepeats (offered : List String) : (withoutRepeats offered).Nodup := by
  induction offered using List.reverseRecOn with
  | nil => exact List.nodup_nil
  | append_singleton offered directory ih =>
    rw [withoutRepeats_concat]
    split
    · exact ih
    · next new =>
      have fresh : directory ∉ withoutRepeats offered := fun old =>
        new (.inr (mem_withoutRepeats.mp old).1)
      exact List.nodup_append.mpr ⟨ih, List.nodup_singleton _, by grind⟩

section Sought

variable {sought : String → Prop}

/-- What is sought is nowhere in the one list exactly when it is nowhere in the other. -/
theorem forall_withoutRepeats :
    (∀ d ∈ withoutRepeats offered, ¬sought d) ↔ ∀ d ∈ offered, ¬(d ≠ "" ∧ sought d) := by
  simp only [mem_withoutRepeats, and_imp, not_and]

/-- The first directory that has what is sought is the same. -/
theorem isFirst_withoutRepeats :
    IsFirst sought (withoutRepeats offered) directory ↔
      IsFirst (fun d => d ≠ "" ∧ sought d) offered directory := by
  -- From the end, as the directories are taken: those before the last are settled already.
  induction offered using List.reverseRecOn with
  | nil => simp [withoutRepeats, IsFirst]
  | append_singleton offered last ih =>
    rw [withoutRepeats_concat]
    split
    · next passed =>
      rw [ih, isFirst_concat_of_old]
      rintro ⟨named, -⟩
      exact passed.resolve_left named
    · next new =>
      have named : last ≠ "" := fun empty => new (.inl empty)
      rw [isFirst_append, isFirst_append, ih, forall_withoutRepeats]
      refine or_congr_right (and_congr_right fun _ => isFirst_congr ?_)
      simp [named]

end Sought

/-! ## The words of a call -/

/-- The directories that words name for the search, each behind a flag of its own. -/
def directoriesIn : List String → List String
  | flag :: word :: words =>
    if flag = "-I" then word :: directoriesIn words else directoriesIn (word :: words)
  | _ => []

theorem directoriesIn_cons {flag : String} (other : flag ≠ "-I") :
    ∀ words, directoriesIn (flag :: words) = directoriesIn words
  | [] => rfl
  | word :: words => by rw [directoriesIn, if_neg other]

theorem directoriesIn_flags (searched : List String) (input : String) :
    directoriesIn (searched.flatMap (["-I", ·]) ++ [input]) = searched := by
  induction searched with
  | nil => rfl
  | cons directory searched ih => exact congrArg (directory :: ·) ih

/-- The words of a call name the directories that it searches, even if one of them, or the input,
is spelt like the flag. -/
theorem directoriesIn_words (call : Invocation) (descriptorPath : String) :
    directoriesIn (call.words descriptorPath) = call.searched := by
  have other : "--descriptor_set_out=" ++ descriptorPath ≠ "-I" := by
    intro same
    have := congrArg String.toList same
    simp at this
  have split : call.words descriptorPath = "protoc" :: "--include_imports" ::
      ("--descriptor_set_out=" ++ descriptorPath) ::
        (call.searched.flatMap (["-I", ·]) ++ [call.input]) := rfl
  rw [split, directoriesIn_cons (by decide), directoriesIn_cons (by decide),
    directoriesIn_cons other, directoriesIn_flags]

/-! ## The calls of a run -/

theorem calls_ofProgress : ∀ r : Progress × Option Halt, (Outcome.ofProgress r).calls = r.1.calls
  | (_, none) | (_, some (.fatal _)) | (_, some .malformed) | (_, some (.disk _))
  | (_, some (.valueless _)) => rfl

namespace Job

variable {job : Job} {p q : Progress} {input : String}

theorem calls_produce (job : Job) (p : Progress) (input : String) (files : List Descriptor.File) :
    (job.produce p input files).1.calls = p.calls := by
  unfold produce
  split
  · rfl
  · rfl
  · dsimp only
    split
    · rfl
    · rfl
    · unfold Progress.write
      split <;> rfl

/-- A step makes one call. -/
theorem calls_step (job : Job) (p : Progress) (input : String) :
    (job.step p input).1.calls = p.calls ++ [job.call p.disk input] := by
  unfold step
  dsimp only
  split
  · rfl
  · exact calls_produce ..

/-- A step that gets through has somewhere to write. -/
theorem exists_writesTo_of_step (h : job.step p input = (q, none)) :
    ∃ directory dialect, job.WritesTo directory dialect := by
  unfold step produce at h
  dsimp only at h
  split at h
  · simp at h
  · split at h
    · simp at h
    · simp at h
    · next hdialect =>
      split at h
      · simp at h
      · simp at h
      · next houtput => exact ⟨_, _, houtput, hdialect⟩

/-- The calls after a step that gets through are those that would have been made before it. -/
theorem call_of_step (h : job.step p input = (q, none)) : job.call q.disk = job.call p.disk := by
  obtain ⟨directory, dialect, aim⟩ := exists_writesTo_of_step h
  obtain ⟨text, next, -, written, rfl⟩ := (step_eq_none_iff aim).mp h
  exact funext (call_eq_of_cwd (cwd_of_writeIn written) job)

/-- The calls of a run are those for its inputs up to where it stops, all made from the working
directory where it began. -/
theorem calls_steps (job : Job) (p : Progress) (inputs : List String) :
    ∃ taken, taken <+: inputs ∧
      (job.steps p inputs).1.calls = p.calls ++ taken.map (job.call p.disk) := by
  induction inputs generalizing p with
  | nil => exact ⟨[], List.prefix_rfl, by simp [steps]⟩
  | cons input inputs ih =>
    have here := calls_step job p input
    rw [steps]
    rcases hstep : job.step p input with ⟨q, _ | stop⟩
    · obtain ⟨taken, hprefix, later⟩ := ih q
      refine ⟨input :: taken, (List.prefix_cons_inj input).mpr hprefix, ?_⟩
      rw [hstep] at here
      rw [later, here, call_of_step hstep]
      simp
    · rw [hstep] at here
      exact ⟨[input], by simp, here⟩

/-- A call of a job is made for one of its inputs. -/
theorem exists_input_of_mem_calls {disk : Disk} {inputs : List String} {call : Invocation}
    (made : call ∈ (Outcome.ofProgress (job.steps { disk := disk } inputs)).calls) :
    ∃ input ∈ inputs, job.call disk input = call := by
  obtain ⟨taken, hprefix, calls⟩ := calls_steps job { disk := disk } inputs
  rw [calls_ofProgress, calls, List.nil_append] at made
  obtain ⟨input, htaken, rfl⟩ := List.mem_map.mp made
  exact ⟨input, hprefix.subset htaken, rfl⟩

end Job

/-- The directories that a run brings to the search: the one it goes over, if it goes over one, and
those of its settings. -/
def Settings.brings (s : Settings) (disk : Disk) (schema : String) : List String :=
  if disk.isDirectory schema then schema :: s.searched else s.searched

/-- Every call of a run is that of a job with the directories which the run brings. -/
theorem exists_job_of_mem_calls {compiler : Compiler} {disk : Disk} {words : List String}
    {call : Invocation} (made : call ∈ (execute compiler disk words).calls) :
    ∃ (s : Settings) (schema : String) (job : Job), Settings.ofWords words = .ok s ∧
      s.schema = some schema ∧ job.searched = s.brings disk schema ∧
      job.call disk call.input = call := by
  unfold execute at made
  split at made
  · next s hs =>
    cases hschema : s.schema with
    | none => simp [run, hschema] at made
    | some schema =>
      simp only [run, hschema, Settings.run] at made
      split at made
      · next isDir =>
        split at made
        · simp at made
        · obtain ⟨input, -, rfl⟩ := Job.exists_input_of_mem_calls made
          exact ⟨s, schema, _, hs, hschema, (if_pos isDir).symm, rfl⟩
      · next notDir =>
        obtain ⟨input, -, rfl⟩ := Job.exists_input_of_mem_calls made
        exact ⟨s, schema, _, hs, hschema, (if_neg notDir).symm, rfl⟩
  · simp at made
  · simp at made

/-! ## The search -/

/-- The directories on offer for the imports of an input, as they come: its own, and then those to
be searched. -/
def Disk.offers (disk : Disk) (input : String) (searched : List String) : List String :=
  (Path.absolute disk.cwdPath (Path.parse input)).parent.text :: searched

/-- The words of a call have the directories on offer searched. -/
structure SearchesAs (words offered : List String) : Prop where
  nonempty : ∀ d ∈ directoriesIn words, d ≠ ""
  nodup : (directoriesIn words).Nodup
  /-- Whatever is sought is found first where the offer has it first, empty directories aside. -/
  first (sought : String → Prop) (d : String) :
    IsFirst sought (directoriesIn words) d ↔ IsFirst (fun d => d ≠ "" ∧ sought d) offered d
  /-- It is found nowhere exactly when the offer has it nowhere. -/
  nowhere (sought : String → Prop) :
    (∀ d ∈ directoriesIn words, ¬sought d) ↔ ∀ d ∈ offered, ¬(d ≠ "" ∧ sought d)

theorem Job.searched_call (job : Job) (disk : Disk) (input : String) :
    (job.call disk input).searched = withoutRepeats (disk.offers input job.searched) := by
  rw [call, searchPath, withoutRepeats, Disk.offers]

theorem Job.searchesAs_call (job : Job) (disk : Disk) (input descriptorPath : String) :
    SearchesAs ((job.call disk input).words descriptorPath) (disk.offers input job.searched) := by
  have named := directoriesIn_words (job.call disk input) descriptorPath
  rw [Job.searched_call] at named
  constructor
  · rw [named]
    exact fun d hd => (mem_withoutRepeats.mp hd).2
  · rw [named]
    exact nodup_withoutRepeats _
  · intro sought d
    rw [named, isFirst_withoutRepeats]
  · intro sought
    rw [named, forall_withoutRepeats]

/-- **Naming each directory once changes no search.**  Whatever a call is made with, it searches the
directories as they are on offer; and so does every call of every run. -/
theorem imports_found_as_offered :
    (∀ (job : Job) (disk : Disk) (input descriptorPath : String),
      SearchesAs ((job.call disk input).words descriptorPath)
        (disk.offers input job.searched)) ∧
    ∀ (compiler : Compiler) (disk : Disk) (words : List String) (call : Invocation),
      call ∈ (execute compiler disk words).calls →
        ∃ s schema, Settings.ofWords words = .ok s ∧ s.schema = some schema ∧
          ∀ descriptorPath, SearchesAs (call.words descriptorPath)
            (disk.offers call.input (s.brings disk schema)) := by
  refine ⟨Job.searchesAs_call, fun compiler disk words call made => ?_⟩
  obtain ⟨s, schema, job, hs, hschema, brought, hcall⟩ := exists_job_of_mem_calls made
  refine ⟨s, schema, hs, hschema, fun descriptorPath => ?_⟩
  have searches := job.searchesAs_call disk call.input descriptorPath
  rwa [hcall, brought] at searches

/-- A disk with an imported file in two directories. -/
def depotDisk : Disk where
  root := .directory [("work", .directory [("in", .directory [("a.proto", .file "")]),
    ("lib", .directory [("unit.proto", .file "")]),
    ("old", .directory [("unit.proto", .file "")])])]
  cwd := ["work"]

/-- A command line that names no directory, and two directories again. -/
def depotWords : List String :=
  ["--proto", "in", "--out", "o", "-I", "", "-I", "lib", "-I", "in", "-I", "old", "-I", "lib"]

def depotSettings : Settings where
  schema := some "in"
  output := some "o"
  searched := ["", "lib", "in", "old", "lib"]

def depotCompiler : Compiler := some fun _ => .refused []

def depotCall : Invocation := ⟨["/work/in", "in", "lib", "old"], "in/a.proto"⟩

/-- The import is found in the first of its two directories, as the command line has it. -/
theorem imports_found_as_offered_depot :
    depotCall ∈ (execute depotCompiler depotDisk depotWords).calls ∧
      directoriesIn (depotCall.words "d") = ["/work/in", "in", "lib", "old"] ∧
      IsFirst (fun d => d ≠ "" ∧ depotDisk.contains (Path.inDirectory d "unit.proto"))
        ["/work/in", "in", "", "lib", "in", "old", "lib"] "lib" := by
  have calls : (execute depotCompiler depotDisk depotWords).calls = [depotCall] := rfl
  have read : Settings.ofWords depotWords = .ok depotSettings := rfl
  have named : directoriesIn (depotCall.words "d") = ["/work/in", "in", "lib", "old"] := by decide
  have made : depotCall ∈ (execute depotCompiler depotDisk depotWords).calls := by
    rw [calls]
    exact List.mem_singleton_self _
  obtain ⟨s, schema, hs, hschema, searches⟩ := imports_found_as_offered.2 _ _ _ _ made
  obtain rfl := Except.ok.inj (hs.symm.trans read)
  obtain rfl := Option.some.inj hschema
  refine ⟨made, named, ((searches "d").first _ "lib").mp ?_⟩
  rw [named]
  exact ⟨["/work/in", "in"], ["old"], rfl, by decide, by decide⟩

end SchemaTypes.Command
