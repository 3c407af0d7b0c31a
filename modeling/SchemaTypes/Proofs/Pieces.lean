import Mathlib.Data.List.Basic
import SchemaTypes.Path
import SchemaTypes.Proofs.Cut

/-!
# Proofs/Pieces — path texts and their pieces

Cutting a text at its slashes and joining the pieces undo each other (`pieces_intercalate`), and a
slash between two texts keeps their pieces apart (`pieces_append_slash`).

A file in a directory can be written in many ways.  `NamesIn` is what they share: the last piece is
the file, and those before it are the parts of the directory, up to pieces that stay where they are.
Joining a directory and a file gives such a text, and so does its normal form.
-/

namespace SchemaTypes.Path

/-! ## Cutting and joining -/

/-- No piece has a slash in it. -/
theorem slash_not_mem {s p : String} (h : p ∈ pieces s) : '/' ∉ p.toList :=
  Text.not_mem_of_mem_cut h

/-- A slash keeps the pieces on its left and on its right apart. -/
theorem pieces_append_slash (s t : String) : pieces (s ++ "/" ++ t) = pieces s ++ pieces t :=
  Text.cut_append s t

/-- A slash in front is an empty piece in front. -/
theorem pieces_slash_append (s : String) : pieces ("/" ++ s) = "" :: pieces s :=
  pieces_append_slash "" s

/-- A text without a slash is one piece. -/
theorem pieces_eq_singleton {s : String} (h : '/' ∉ s.toList) : pieces s = [s] :=
  Text.cut_eq_singleton h

/-- Pieces that are joined and cut again are the same pieces. -/
theorem pieces_intercalate {ps : List String} (hne : ps ≠ []) (h : ∀ p ∈ ps, '/' ∉ p.toList) :
    pieces ("/".intercalate ps) = ps :=
  Text.cut_intercalate hne h

/-- The first piece is empty exactly when the text is empty or starts with a slash. -/
theorem head?_pieces (s : String) :
    (pieces s).head? = some "" ↔ s = "" ∨ s.toList.head? = some '/' := by
  rw [pieces, ← String.toList_eq_nil_iff]
  cases hs : s.toList with
  | nil => simp
  | cons c cs =>
    rw [List.splitOn_cons_eq_if_modifyHead]
    obtain ⟨first, rest, hsplit⟩ := List.exists_cons_of_ne_nil (List.splitOn_ne_nil '/' cs)
    by_cases hc : c = '/' <;> simp [hc, hsplit]

/-! ## Roots -/

/-- How many empty pieces a root is written as. -/
def Root.slashes : Root → Nat
  | .relative => 0
  | .single => 1
  | .double => 2

theorem Root.ofChars_eq_relative_iff {cs : List Char} :
    ofChars cs = .relative ↔ cs.head? ≠ some '/' := by
  unfold ofChars
  split
  · simp
  · simp
  · simp
  · rename_i h
    cases cs with
    | nil => simp
    | cons c cs => simpa using fun hc : c = '/' => h cs (hc ▸ rfl)

/-- The text of a path with parts is cut into the slashes of its root and its parts. -/
theorem pieces_text {p : Path} (hne : p.parts ≠ []) (h : ∀ part ∈ p.parts, '/' ∉ part.toList) :
    pieces p.text = List.replicate p.root.slashes "" ++ p.parts := by
  have joined := pieces_intercalate hne h
  rw [text, if_neg fun none => hne none.2]
  cases p.root with
  | relative => simpa [Root.text, Root.slashes] using joined
  | single => rw [Root.text, pieces_slash_append, joined]; rfl
  | double =>
    have twice : Root.double.text ++ "/".intercalate p.parts
        = "/" ++ ("/" ++ "/".intercalate p.parts) := by
      rw [← String.append_assoc]
      rfl
    rw [twice, pieces_slash_append, pieces_slash_append, joined]
    rfl

/-- The text of a path with parts starts with a slash exactly when the path has a root. -/
theorem head?_text {p : Path} (hne : p.parts ≠ [])
    (h : ∀ part ∈ p.parts, part ≠ "" ∧ '/' ∉ part.toList) :
    p.text.toList.head? = some '/' ↔ p.root ≠ .relative := by
  obtain ⟨root, parts⟩ := p
  cases root with
  | relative =>
    obtain ⟨first, rest, rfl⟩ := List.exists_cons_of_ne_nil hne
    have cut := pieces_text hne fun part hpart => (h part hpart).2
    have first_ne : (pieces (text ⟨.relative, first :: rest⟩)).head? ≠ some "" := by
      simpa [cut, Root.slashes] using (h first List.mem_cons_self).1
    exact ⟨fun slash => absurd ((head?_pieces _).mpr (.inr slash)) first_ne,
      fun no => (no rfl).elim⟩
  | single => simp [text, Root.text]
  | double => simp [text, Root.text]

/-! ## A file in a directory -/

/-- Whether a piece is more than a stay. -/
abbrev isPart (piece : String) : Bool := piece != "" && piece != "."

/-- A text that is one piece of a path and leads down. -/
structure IsName (file : String) : Prop where
  slashless : '/' ∉ file.toList
  part : isPart file
  not_up : file ≠ ".."

/-- A text names a file in a directory: its last piece is the file, those before it are the parts of
the directory among stays, and both start at the root or both do not. -/
structure NamesIn (path directory file : String) : Prop where
  pieces : ∃ front, pieces path = front ++ [file] ∧ front.filter isPart = (parse directory).parts
  start : path.toList.head? = some '/' ↔ directory.toList.head? = some '/'

variable {path directory file : String}

theorem IsName.head?_ne (name : IsName file) : file.toList.head? ≠ some '/' :=
  fun h => name.slashless (List.mem_of_head? h)

/-- A directory joined with a file names the file in the directory. -/
theorem namesIn_inDirectory (name : IsName file) (directory : String) :
    NamesIn (inDirectory directory file) directory file := by
  have one := pieces_eq_singleton name.slashless
  unfold inDirectory
  split
  · rename_i h
    rcases h with hlast | rfl
    · -- The slash at the end of the directory ends in an empty piece, which the file replaces.
      obtain ⟨above, rfl⟩ : ∃ above, directory = above ++ "/" := by
        obtain ⟨cs, hcs⟩ := List.getLast?_eq_some_iff.mp hlast
        exact ⟨String.ofList cs, String.toList_inj.mp (by simpa using hcs)⟩
      have ending : pieces (above ++ "/") = pieces above ++ [""] := by
        rw [← String.append_empty (s := above ++ "/"), pieces_append_slash]
        rfl
      refine ⟨⟨pieces above, ?_, ?_⟩, ?_⟩
      · rw [pieces_append_slash, one]
      · rw [parse, ending]
        simp
      · simp only [String.toList_append, List.append_assoc]
        cases above.toList <;> simp
    · refine ⟨⟨[], by simpa using one, by decide⟩, ?_⟩
      simpa using name.head?_ne
  · rename_i h
    refine ⟨⟨pieces directory, by rw [pieces_append_slash, one], rfl⟩, ?_⟩
    have hne : directory.toList ≠ [] := fun hnil => h (.inr (String.toList_eq_nil_iff.mp hnil))
    simp only [String.toList_append, List.append_assoc, List.head?_append_of_ne_nil _ hne]

theorem NamesIn.parts_eq (h : NamesIn path directory file) (name : IsName file) :
    (parse path).parts = (parse directory).parts ++ [file] := by
  obtain ⟨front, hpieces, hfront⟩ := h.pieces
  rw [← hfront, parse, hpieces, List.filter_append, List.filter_singleton]
  simp [name.part]

/-- The normal form of a text names the same file. -/
theorem NamesIn.normal (h : NamesIn path directory file) (name : IsName file) :
    NamesIn (parse path).text directory file := by
  have parts := h.parts_eq name
  have some_part : (parse path).parts ≠ [] := by simp [parts]
  have proper : ∀ part ∈ (parse path).parts, part ≠ "" ∧ '/' ∉ part.toList := by
    intro part hpart
    obtain ⟨hpiece, hkept⟩ := List.mem_filter.mp hpart
    exact ⟨by simp_all, slash_not_mem hpiece⟩
  refine ⟨⟨List.replicate (parse path).root.slashes "" ++ (parse directory).parts, ?_, ?_⟩, ?_⟩
  · rw [pieces_text some_part fun part hpart => (proper part hpart).2, parts, List.append_assoc]
  · rw [List.filter_append, List.filter_replicate_of_neg (by decide), List.nil_append]
    exact List.filter_eq_self.mpr fun part hpart => (List.mem_filter.mp hpart).2
  · rw [head?_text some_part proper, ← h.start, parse, ne_eq, Root.ofChars_eq_relative_iff, not_not]

end SchemaTypes.Path
