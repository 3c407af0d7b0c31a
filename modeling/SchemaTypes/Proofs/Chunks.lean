import Mathlib.Data.List.Forall2
import SchemaTypes.Options
import SchemaTypes.Proofs.Cut
import SchemaTypes.Proofs.Readable

/-!
# Proofs/Chunks — what a parameter spells

`Spells` is the grammar of a parameter, said without a reader: texts joined by commas, each a key
and perhaps a value around the first equals sign, with blanks around either.  Every step of it has
one outcome only: trimming (`trims_iff`), reading a text (`reads_iff`) and reading all of them.  So
every parameter spells exactly one list of entries, and `chunks` is that list (`spells_iff`).
-/

namespace SchemaTypes

/-! ## Trimming -/

namespace Text

/-- A text is another one with blanks at its ends, and has none of its own there. -/
structure Trims (s inner : String) : Prop where
  ends : ∃ before after, s = before ++ inner ++ after ∧
    (∀ c ∈ before.toList, isBlank c = true) ∧ ∀ c ∈ after.toList, isBlank c = true
  first : Stops isBlank inner.toList
  last : Stops isBlank inner.toList.reverse

theorem stops_dropWhile (p : Char → Bool) (cs : List Char) : Stops p (cs.dropWhile p) := by
  intro c hc
  have first := List.head?_dropWhile_not p cs
  rw [Option.mem_def.mp hc] at first
  exact first

theorem trimChars_append {before inner after : List Char}
    (hbefore : ∀ c ∈ before, isBlank c = true) (hafter : ∀ c ∈ after, isBlank c = true)
    (first : Stops isBlank inner) (last : Stops isBlank inner.reverse) :
    trimChars (before ++ inner ++ after) = inner := by
  have behind : ∀ c ∈ after.reverse, isBlank c = true := by simpa using hafter
  have cutEnd : ((inner ++ after).reverse.dropWhile isBlank).reverse = inner := by
    rw [List.reverse_append, dropWhile_append_of_stops behind last, List.reverse_reverse]
  cases inner with
  | nil =>
    -- Nothing but blanks: the first of the two passes takes them all.
    have none : (before ++ after).dropWhile isBlank = [] :=
      List.dropWhile_eq_nil_iff.mpr (List.forall_mem_append.mpr ⟨hbefore, hafter⟩)
    rw [trimChars, List.append_nil, none]
    rfl
  | cons c inner =>
    rw [trimChars, List.append_assoc, dropWhile_append_of_stops hbefore]
    · exact cutEnd
    · exact stops_cons (first c rfl) _

theorem trims_trim (s : String) : Trims s (trim s) := by
  have back := List.takeWhile_append_dropWhile
    (p := isBlank) (l := (s.toList.dropWhile isBlank).reverse)
  have whole : s.toList.takeWhile isBlank ++ trimChars s.toList
      ++ ((s.toList.dropWhile isBlank).reverse.takeWhile isBlank).reverse = s.toList := by
    rw [trimChars, List.append_assoc, ← List.reverse_append, back, List.reverse_reverse,
      List.takeWhile_append_dropWhile]
  refine ⟨⟨String.ofList (s.toList.takeWhile isBlank), String.ofList
    ((s.toList.dropWhile isBlank).reverse.takeWhile isBlank).reverse, ?_, ?_, ?_⟩, ?_, ?_⟩
  · rw [← String.toList_inj]
    simpa using whole.symm
  · intro c hc
    rw [String.toList_ofList] at hc
    exact List.mem_takeWhile_imp hc
  · intro c hc
    rw [String.toList_ofList, List.mem_reverse] at hc
    exact List.mem_takeWhile_imp hc
  · -- What the second pass leaves begins as what the first one left.
    intro c hc
    rw [toList_trim, trimChars, List.head?_reverse] at hc
    refine stops_dropWhile isBlank s.toList c ?_
    rw [← List.reverse_reverse (s.toList.dropWhile isBlank), List.head?_reverse, ← back,
      List.getLast?_append, Option.mem_def.mp hc]
    rfl
  · rw [toList_trim, trimChars, List.reverse_reverse]
    exact stops_dropWhile isBlank _

/-- A text is with blanks at its ends what trimming makes of it, and nothing else. -/
theorem trims_iff {s inner : String} : Trims s inner ↔ inner = trim s := by
  constructor
  · rintro ⟨⟨before, after, rfl, hbefore, hafter⟩, first, last⟩
    rw [← String.toList_inj, toList_trim, String.toList_append, String.toList_append,
      trimChars_append hbefore hafter first last]
  · rintro rfl
    exact trims_trim s

end Text

/-! ## The grammar -/

namespace Options

/-- What a text between commas says: a key and a value around the first equals sign, or a key alone,
whose value is then empty. -/
inductive Reads (text : String) : String × String → Prop
  | flag {key : String} : '=' ∉ text.toList → Text.Trims text key → Reads text (key, "")
  | setting {before after key value : String} : text = before ++ "=" ++ after →
      '=' ∉ before.toList → Text.Trims before key → Text.Trims after value →
      Reads text (key, value)

/-- A parameter spells its entries: they are what its texts between commas say, without those that
have no key. -/
def Spells (parameter : String) (entries : List (String × String)) : Prop :=
  ∃ texts all, texts ≠ [] ∧ (∀ text ∈ texts, ',' ∉ text.toList) ∧
    parameter = ",".intercalate texts ∧ List.Forall₂ Reads texts all ∧
    entries = all.filter (·.1 != "")

theorem chunk_append {before rest : List Char} (hbefore : '=' ∉ before)
    (hrest : Stops (· != '=') rest) :
    chunk (before ++ rest)
      = (Text.trim (String.ofList before), Text.trim (String.ofList (rest.drop 1))) := by
  have inside : ∀ c ∈ before, (c != '=') = true := by
    intro c hc
    simpa using ne_of_mem_of_not_mem hc hbefore
  rw [chunk, takeWhile_append_of_stops inside hrest, dropWhile_append_of_stops inside hrest,
    Text.trim, Text.trim, String.toList_ofList, String.toList_ofList]

theorem chunk_of_flag {text : String} (h : '=' ∉ text.toList) :
    chunk text.toList = (Text.trim text, "") := by
  have whole := chunk_append h (show Stops (· != '=') [] from nofun)
  rw [List.append_nil, String.ofList_toList] at whole
  exact whole

theorem chunk_of_setting {before : String} (h : '=' ∉ before.toList) (after : String) :
    chunk (before ++ "=" ++ after).toList = (Text.trim before, Text.trim after) := by
  have parted := chunk_append h (stops_cons (p := (· != '=')) (c := '=') rfl after.toList)
  rw [String.ofList_toList, List.drop_one, List.tail_cons, String.ofList_toList] at parted
  simpa using parted

/-- A text is read in exactly one way. -/
theorem reads_iff {text : String} {entry : String × String} :
    Reads text entry ↔ entry = chunk text.toList := by
  constructor
  · rintro (⟨none, key⟩ | ⟨rfl, none, key, value⟩)
    · rw [chunk_of_flag none, Text.trims_iff.mp key]
    · rw [chunk_of_setting none, Text.trims_iff.mp key, Text.trims_iff.mp value]
  · rintro rfl
    by_cases h : '=' ∈ text.toList
    · obtain ⟨before, after, hsplit, none⟩ := List.eq_append_cons_of_mem h
      have parted : text = String.ofList before ++ "=" ++ String.ofList after := by
        rw [← String.toList_inj, hsplit]
        simp
      rw [← String.toList_ofList (l := before)] at none
      rw [parted, chunk_of_setting none]
      exact .setting rfl none (Text.trims_trim _) (Text.trims_trim _)
    · rw [chunk_of_flag h]
      exact .flag h (Text.trims_trim text)

theorem chunks_eq (parameter : String) : chunks parameter
    = ((Text.cut ',' parameter).map fun text => chunk text.toList).filter (·.1 != "") := by
  simp [chunks, Text.cut, Function.comp_def]

/-- A parameter spells the chunks that have a key, and nothing else. -/
theorem spells_iff {parameter : String} {entries : List (String × String)} :
    Spells parameter entries ↔ entries = chunks parameter := by
  constructor
  · rintro ⟨texts, all, hne, commaless, rfl, reads, rfl⟩
    have joined : Text.cut ',' (",".intercalate texts) = texts := Text.cut_intercalate hne commaless
    have said : texts.map (fun text => chunk text.toList) = all := by
      rw [← List.forall₂_eq_eq_eq, List.forall₂_map_left_iff]
      exact reads.imp fun text entry h => (reads_iff.mp h).symm
    rw [chunks_eq, joined, said]
  · rintro rfl
    refine ⟨Text.cut ',' parameter, _, Text.cut_ne_nil parameter,
      fun text => Text.not_mem_of_mem_cut, (Text.intercalate_cut parameter).symm, ?_,
      chunks_eq parameter⟩
    rw [List.forall₂_map_right_iff, List.forall₂_same]
    exact fun text _ => reads_iff.mpr rfl

end Options

end SchemaTypes
