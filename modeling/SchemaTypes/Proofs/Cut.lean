import Mathlib.Logic.Function.Basic

/-!
# Proofs/Cut — texts cut at a character

Paths are cut at slashes, names at dots and parameters at commas.  Cutting and joining undo each
other: joined again, the pieces of a text are the text (`intercalate_cut`), and any pieces without
the character are those of their joined text (`cut_intercalate`).  So two texts with the same pieces
are the same, and the character between two texts keeps their pieces apart (`cut_append`).
-/

namespace SchemaTypes.Text

/-- The pieces of a text between the occurrences of a character, empty ones included. -/
def cut (mark : Char) (s : String) : List String := (s.toList.splitOn mark).map String.ofList

variable {mark : Char}

theorem not_mem_of_mem_splitOn : ∀ {cs l : List Char}, l ∈ cs.splitOn mark → mark ∉ l
  | [], l, h => by simp_all
  | c :: cs, l, h => by
      rw [List.splitOn_cons_eq_if_modifyHead] at h
      split at h
      · rcases List.mem_cons.mp h with rfl | h
        · exact List.not_mem_nil
        · exact not_mem_of_mem_splitOn h
      · rename_i hc
        obtain ⟨first, rest, hsplit⟩ := List.exists_cons_of_ne_nil (List.splitOn_ne_nil mark cs)
        rw [hsplit, List.modifyHead_cons] at h
        rcases List.mem_cons.mp h with rfl | h
        · have later : mark ∉ first := not_mem_of_mem_splitOn (hsplit ▸ List.mem_cons_self)
          rw [List.mem_cons, not_or]
          exact ⟨fun same => hc (beq_iff_eq.mpr same.symm), later⟩
        · exact not_mem_of_mem_splitOn (hsplit ▸ List.mem_cons_of_mem _ h)

/-- No piece has the character in it. -/
theorem not_mem_of_mem_cut {s p : String} (h : p ∈ cut mark s) : mark ∉ p.toList := by
  obtain ⟨l, hl, rfl⟩ := List.mem_map.mp h
  rw [String.toList_ofList]
  exact not_mem_of_mem_splitOn hl

theorem cut_ne_nil (s : String) : cut mark s ≠ [] := by
  simp [cut, List.splitOn_ne_nil]

/-- The character keeps the pieces on its left and on its right apart. -/
theorem cut_append (s t : String) :
    cut mark (s ++ String.singleton mark ++ t) = cut mark s ++ cut mark t := by
  have apart : (s ++ String.singleton mark ++ t).toList = s.toList ++ mark :: t.toList := by simp
  rw [cut, apart, List.splitOn_append_cons_self, List.map_append]
  rfl

/-- A text without the character is one piece. -/
theorem cut_eq_singleton {s : String} (h : mark ∉ s.toList) : cut mark s = [s] := by
  simp [cut, List.splitOn_eq_singleton h]

theorem toList_intercalate_singleton (ps : List String) :
    ((String.singleton mark).intercalate ps).toList
      = [mark].intercalate (ps.map String.toList) := by
  rw [String.toList_intercalate, String.toList_singleton]

/-- Pieces that are joined and cut again are the same pieces. -/
theorem cut_intercalate {ps : List String} (hne : ps ≠ []) (h : ∀ p ∈ ps, mark ∉ p.toList) :
    cut mark ((String.singleton mark).intercalate ps) = ps := by
  have apart : ∀ l ∈ ps.map String.toList, mark ∉ l := by simpa using h
  rw [cut, toList_intercalate_singleton, List.splitOn_intercalate mark apart (by simpa using hne)]
  simp

/-- The pieces of a text, joined again, are the text. -/
theorem intercalate_cut (s : String) : (String.singleton mark).intercalate (cut mark s) = s := by
  have chars : (cut mark s).map String.toList = s.toList.splitOn mark := by simp [cut]
  rw [← String.toList_inj, toList_intercalate_singleton, chars, List.intercalate_splitOn]

theorem cut_injective : Function.Injective (cut mark) :=
  Function.LeftInverse.injective intercalate_cut

end SchemaTypes.Text
