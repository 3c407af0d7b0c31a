import Mathlib.Data.List.Nodup
import SchemaTypes.Schema.Registry

/-!
# Proofs/Lookup — a registry answers with the last entry

A registry is filled file by file, and each file item by item.  `Table.get?_foldl_insert` says what
one such filling leaves under a name: the last item put there.  `foldl_add_messages` and its two
companions carry that over to a whole run of files, so that a look-up is a search from the end of
one flat list: `messages_ofFiles`, `enums_ofFiles`, `files_ofFiles`.

Where no two items share a name, the last one is the only one (`filter_eq_singleton`).
-/

namespace SchemaTypes

/-- Two names are canonically the same when they differ in leading dots only. -/
theorem Name.canonical_eq_iff {a b : String} : canonical a = canonical b ↔ bare a = bare b :=
  String.append_right_inj "."

/-! ## The last item under a key -/

section LastItem

variable {α : Type} {key : α → String} {name : String} {xs : List α} {x : α}

theorem mem_of_find?_reverse (h : xs.reverse.find? (key · == name) = some x) : x ∈ xs :=
  List.mem_reverse.mp (List.mem_of_find?_eq_some h)

theorem find?_reverse_eq_none_iff :
    xs.reverse.find? (key · == name) = none ↔ ∀ x ∈ xs, key x ≠ name := by
  simp

/-- With distinct keys, the last item under a key is the only one. -/
theorem filter_eq_singleton (distinct : (xs.map key).Nodup)
    (h : xs.reverse.find? (key · == name) = some x) : xs.filter (key · == name) = [x] := by
  obtain ⟨hx, after, before, hxs, hafter⟩ := List.find?_eq_some_iff_append.mp h
  obtain rfl : xs = before.reverse ++ x :: after.reverse := by
    rw [← List.reverse_reverse xs, hxs]
    simp
  have hbefore : ∀ b ∈ before, key b ≠ key x := by
    intro b hb same
    rw [List.map_append, List.map_cons] at distinct
    exact (List.nodup_append.mp distinct).2.2 (key b)
      (List.mem_map_of_mem (List.mem_reverse.mpr hb)) (key x) List.mem_cons_self same
  have hkey : key x = name := beq_iff_eq.mp hx
  rw [List.filter_append, List.filter_cons_of_pos (p := (key · == name)) hx,
    List.filter_eq_nil_iff.mpr fun b hb => ?_, List.filter_eq_nil_iff.mpr fun a ha => ?_]
  · rfl
  · simpa using hafter a (List.mem_reverse.mp ha)
  · simpa [← hkey] using hbefore b (List.mem_reverse.mp hb)

end LastItem

namespace Table

variable {α : Type}

theorem find?_eq_none_iff {name : String} : ∀ {es : List (String × α)},
    find? name es = none ↔ name ∉ es.map Prod.fst
  | [] => by simp [find?]
  | (key, value) :: es => by
      rw [find?, List.map_cons, List.mem_cons, not_or, ← find?_eq_none_iff]
      by_cases h : key = name
      · simp [h]
      · simp [h, Ne.symm h]

/-- Nothing is found exactly under the names that a table does not hold. -/
theorem get?_eq_none_iff {t : Table α} {name : String} : t.get? name = none ↔ name ∉ t.keys :=
  find?_eq_none_iff

/-- What a filling leaves under a name: its last item of that name, else what was there before. -/
theorem get?_foldl_insert (key : α → String) (name : String) : ∀ (xs : List α) (t : Table α),
    (xs.foldl (fun t x => t.insert (key x) x) t).get? name
      = (xs.reverse.find? (key · == name)).or (t.get? name)
  | [], t => by simp
  | x :: xs, t => by
      rw [List.foldl_cons, get?_foldl_insert key name xs, get?_insert, List.reverse_cons,
        List.find?_append, Option.or_assoc]
      congr 1
      by_cases h : key x = name <;> simp [h]

end Table

namespace Schema.Registry

/-! ## A run of files -/

theorem foldl_add_files : ∀ (fs : List File) (r : Registry),
    (fs.foldl add r).files = fs.foldl (fun t f => t.insert f.name f) r.files
  | [], _ => rfl
  | f :: fs, r => foldl_add_files fs (r.add f)

theorem foldl_add_messages : ∀ (fs : List File) (r : Registry),
    (fs.foldl add r).messages = (fs.flatMap File.messages).foldl putMessage r.messages
  | [], _ => rfl
  | f :: fs, r => by
      rw [List.foldl_cons, foldl_add_messages fs (r.add f), List.flatMap_cons, List.foldl_append]
      rfl

theorem foldl_add_enums : ∀ (fs : List File) (r : Registry),
    (fs.foldl add r).enums = (fs.flatMap File.enums).foldl putEnum r.enums
  | [], _ => rfl
  | f :: fs, r => by
      rw [List.foldl_cons, foldl_add_enums fs (r.add f), List.flatMap_cons, List.foldl_append]
      rfl

/-- A file name stands for the last file that has it. -/
theorem files_ofFiles (fs : List File) (name : String) :
    (ofFiles fs).files.get? name = fs.reverse.find? (File.name · == name) := by
  rw [ofFiles, foldl_add_files, Table.get?_foldl_insert, Table.get?_empty, Option.or_none]

/-- A canonical name stands for the last message that has it, over all files. -/
theorem messages_ofFiles (fs : List File) (name : String) :
    (ofFiles fs).messages.get? name
      = (fs.flatMap File.messages).reverse.find? (Name.canonical ·.fullName == name) := by
  rw [ofFiles, foldl_add_messages]
  have filled := Table.get?_foldl_insert (fun m : Message => Name.canonical m.fullName) name
    (fs.flatMap File.messages) .empty
  rw [Table.get?_empty, Option.or_none] at filled
  exact filled

/-- A canonical name stands for the last enum that has it, over all files. -/
theorem enums_ofFiles (fs : List File) (name : String) :
    (ofFiles fs).enums.get? name
      = (fs.flatMap File.enums).reverse.find? (Name.canonical ·.fullName == name) := by
  rw [ofFiles, foldl_add_enums]
  have filled := Table.get?_foldl_insert (fun e : Enum => Name.canonical e.fullName) name
    (fs.flatMap File.enums) .empty
  rw [Table.get?_empty, Option.or_none] at filled
  exact filled

/-! ## What a look-up returns -/

theorem file_eq_ok_iff {r : Registry} {name : String} {f : File} :
    r.file name = .ok f ↔ r.files.get? name = some f := by
  unfold file
  split <;> simp_all

theorem message_eq_ok_iff {r : Registry} {name : String} {m : Message} :
    r.message name = .ok m ↔ r.messages.get? (Name.canonical name) = some m := by
  unfold message
  split <;> simp_all

theorem enum_eq_ok_iff {r : Registry} {name : String} {e : Enum} :
    r.enum name = .ok e ↔ r.enums.get? (Name.canonical name) = some e := by
  unfold enum
  split <;> simp_all

theorem exists_file_eq_error_iff {r : Registry} {name : String} :
    (∃ u, r.file name = .error u) ↔ r.files.get? name = none := by
  unfold file
  split <;> simp_all

theorem exists_message_eq_error_iff {r : Registry} {name : String} :
    (∃ u, r.message name = .error u) ↔ r.messages.get? (Name.canonical name) = none := by
  unfold message
  split <;> simp_all

theorem exists_enum_eq_error_iff {r : Registry} {name : String} :
    (∃ u, r.enum name = .error u) ↔ r.enums.get? (Name.canonical name) = none := by
  unfold enum
  split <;> simp_all

end Schema.Registry

end SchemaTypes
