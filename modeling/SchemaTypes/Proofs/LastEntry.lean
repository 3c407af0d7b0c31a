import SchemaTypes.Proofs.Lookup

/-!
# Proofs/LastEntry — the last entry wins, over every run

A run starts from the registry of some files and adds further files one by one.  `FindsLast` is what
it means for a look-up to go by the last entry of a list: it returns that entry, and it refuses a
name exactly when no entry has it.  `lookup_last_entry` says this of the three look-ups after every
run.

`FindsLast` leaves a look-up no choice (`FindsLast.eq_of_isLast_iff`), so whatever else holds of
look-ups follows from it and from the lists of entries alone.
-/

namespace SchemaTypes

open Schema

variable {α : Type}

/-! ## The last item -/

/-- The last item of a list with a property: it has it, and none behind it does. -/
def IsLast (p : α → Prop) (xs : List α) (x : α) : Prop :=
  ∃ before after, xs = before ++ x :: after ∧ p x ∧ ∀ y ∈ after, ¬p y

/-- A search from the end finds the last item. -/
theorem find?_reverse_eq_some_iff {key : α → String} {name : String} {xs : List α} {x : α} :
    xs.reverse.find? (key · == name) = some x ↔ IsLast (key · = name) xs x := by
  simp only [List.find?_eq_some_iff_append, beq_iff_eq, Bool.not_eq_true', beq_eq_false_iff_ne]
  constructor
  · rintro ⟨hx, after, before, hxs, hafter⟩
    refine ⟨before.reverse, after.reverse, ?_, hx, by simpa using hafter⟩
    rw [← List.reverse_reverse xs, hxs]
    simp
  · rintro ⟨before, after, rfl, hx, hafter⟩
    exact ⟨hx, after.reverse, before.reverse, by simp, by simpa using hafter⟩

theorem IsLast.mem {p : α → Prop} {xs : List α} {x : α} : IsLast p xs x → x ∈ xs ∧ p x := by
  rintro ⟨before, after, rfl, hx, -⟩
  exact ⟨List.mem_append_right _ List.mem_cons_self, hx⟩

/-- The last item with a property is the last with any narrower one that it has. -/
theorem IsLast.of_imp {p q : α → Prop} {xs : List α} {x : α} (imp : ∀ y, q y → p y) (hx : q x) :
    IsLast p xs x → IsLast q xs x := by
  rintro ⟨before, after, hxs, -, hafter⟩
  exact ⟨before, after, hxs, hx, fun y hy narrow => hafter y hy (imp y narrow)⟩

/-- Some item is the last with the key of an item. -/
theorem exists_isLast (key : α → String) {xs : List α} {x : α} (hx : x ∈ xs) :
    ∃ y, IsLast (key · = key x) xs y := by
  have found : (xs.reverse.find? (key · == key x)).isSome :=
    List.find?_isSome.mpr ⟨x, List.mem_reverse.mpr hx, beq_self_eq_true _⟩
  obtain ⟨y, hy⟩ := Option.isSome_iff_exists.mp found
  exact ⟨y, find?_reverse_eq_some_iff.mp hy⟩

/-- The last of some images is the image of the last. -/
theorem IsLast.of_map {β : Type} {f : β → α} {p : α → Prop} {ys : List β} {x : α} :
    IsLast p (ys.map f) x → ∃ y, f y = x ∧ IsLast (fun z => p (f z)) ys y := by
  rintro ⟨before, after, hsplit, hx, hafter⟩
  obtain ⟨ysBefore, rest, rfl, -, hrest⟩ := List.map_eq_append_iff.mp hsplit
  obtain ⟨y, ysAfter, rfl, rfl, rfl⟩ := List.map_eq_cons_iff.mp hrest
  exact ⟨y, rfl, ysBefore, ysAfter, rfl, hx, fun z hz => hafter (f z) (List.mem_map_of_mem hz)⟩

/-- The last item of two lists is that of the second, or of the first if the second has none. -/
theorem isLast_append {p : α → Prop} {xs ys : List α} {x : α} :
    IsLast p (xs ++ ys) x ↔ IsLast p ys x ∨ IsLast p xs x ∧ ∀ y ∈ ys, ¬p y := by
  constructor
  · rintro ⟨before, after, hsplit, hx, hafter⟩
    obtain ⟨between, -, rfl⟩ | ⟨between, rfl, hrest⟩ := List.append_eq_append_iff.mp hsplit
    · exact .inl ⟨between, after, rfl, hx, hafter⟩
    · cases between with
      | nil => exact .inl ⟨[], after, hrest.symm, hx, hafter⟩
      | cons b between =>
        obtain ⟨rfl, rfl⟩ := List.cons.inj hrest
        obtain ⟨hbetween, hys⟩ := List.forall_mem_append.mp hafter
        exact .inr ⟨⟨before, between, rfl, hx, hbetween⟩, hys⟩
  · rintro (⟨before, after, rfl, hx, hafter⟩ | ⟨⟨before, after, rfl, hx, hafter⟩, hys⟩)
    · exact ⟨xs ++ before, after, by simp, hx, hafter⟩
    · exact ⟨before, after ++ ys, by simp, hx, List.forall_mem_append.mpr ⟨hafter, hys⟩⟩

theorem isLast_singleton {p : α → Prop} {x y : α} : IsLast p [y] x ↔ x = y ∧ p y := by
  constructor
  · rintro ⟨before, after, hsplit, hx, -⟩
    obtain rfl : x = y := by
      simpa using (hsplit ▸ List.mem_append_right _ List.mem_cons_self : x ∈ [y])
    exact ⟨rfl, hx⟩
  · rintro ⟨rfl, hy⟩
    exact ⟨[], [], rfl, hy, nofun⟩

/-- The last item over several lists is the last of its list, and its list is the last one that has
such an item. -/
theorem IsLast.of_flatMap {β : Type} {g : β → List α} {p : α → Prop} {x : α} :
    ∀ {ys : List β}, IsLast p (ys.flatMap g) x →
      ∃ y, IsLast (fun z => ∃ w ∈ g z, p w) ys y ∧ IsLast p (g y) x
  | [], last => nomatch last.mem.1
  | y :: ys, last => by
      rw [List.flatMap_cons, isLast_append] at last
      obtain later | ⟨here, none⟩ := last
      · obtain ⟨z, hz, hx⟩ := IsLast.of_flatMap later
        have last : IsLast _ ([y] ++ ys) z := isLast_append.mpr (.inl hz)
        exact ⟨z, last, hx⟩
      · refine ⟨y, ⟨[], ys, rfl, ⟨x, here.mem⟩, ?_⟩, here⟩
        rintro z hz ⟨w, hw, has⟩
        exact none w (List.mem_flatMap.mpr ⟨z, hz, hw⟩) has

/-- A list that is appended a second time changes no last item. -/
theorem isLast_append_self {p : α → Prop} {xs ys : List α} {x : α} :
    IsLast p (xs ++ ys ++ ys) x ↔ IsLast p (xs ++ ys) x := by
  rw [isLast_append, isLast_append]
  constructor
  · rintro (last | ⟨last, -⟩)
    · exact .inl last
    · exact last
  · rintro (last | ⟨last, none⟩)
    · exact .inl last
    · exact .inr ⟨.inr ⟨last, none⟩, none⟩

/-! ## Look-ups by the last entry -/

/-- A look-up goes by the last entry: it returns the last one that has the name, and it refuses the
name, exactly as given, when none has it. -/
structure FindsLast (lookup : String → Except Unresolved α) (kind : String)
    (hasName : α → String → Prop) (entries : List α) : Prop where
  ok_iff (name : String) (x : α) : lookup name = .ok x ↔ IsLast (hasName · name) entries x
  error_iff (name : String) (u : Unresolved) :
    lookup name = .error u ↔ (∀ x ∈ entries, ¬hasName x name) ∧ u = { typeName := name, kind }

namespace FindsLast

variable {lookup lookup' : String → Except Unresolved α} {kind : String}
  {hasName : α → String → Prop} {xs ys : List α}

/-- A name is found exactly when some entry has it. -/
theorem exists_ok_iff (h : FindsLast lookup kind hasName xs) (name : String) :
    (∃ x, lookup name = .ok x) ↔ ∃ x ∈ xs, hasName x name := by
  constructor
  · rintro ⟨x, hx⟩
    exact ⟨x, ((h.ok_iff name x).mp hx).mem⟩
  · rintro ⟨x, hx, hname⟩
    cases hlookup : lookup name with
    | ok y => exact ⟨y, rfl⟩
    | error u => exact absurd hname (((h.error_iff name u).mp hlookup).1 x hx)

/-- The last entries determine the look-up. -/
theorem eq_of_isLast_iff (h : FindsLast lookup kind hasName xs)
    (h' : FindsLast lookup' kind hasName ys)
    (same : ∀ name x, IsLast (hasName · name) xs x ↔ IsLast (hasName · name) ys x) :
    lookup = lookup' := by
  funext name
  cases hlookup : lookup name with
  | ok x =>
    have last := (same name x).mp ((h.ok_iff name x).mp hlookup)
    exact ((h'.ok_iff name x).mpr last).symm
  | error u =>
    cases hlookup' : lookup' name with
    | ok y =>
      have last := (same name y).mpr ((h'.ok_iff name y).mp hlookup')
      exact absurd ((h.ok_iff name y).mpr last) (by simp [hlookup])
    | error u' =>
      rw [((h.error_iff name u).mp hlookup).2, ((h'.error_iff name u').mp hlookup').2]

end FindsLast

namespace Schema.Registry

theorem file_eq_error_iff {r : Registry} {name : String} {u : Unresolved} :
    r.file name = .error u ↔ r.files.get? name = none ∧
      u = { typeName := name, kind := "file" } := by
  unfold file
  cases r.files.get? name <;> simp [eq_comm]

theorem message_eq_error_iff {r : Registry} {name : String} {u : Unresolved} :
    r.message name = .error u ↔ r.messages.get? (Name.canonical name) = none ∧
      u = { typeName := name, kind := "message" } := by
  unfold message
  cases r.messages.get? (Name.canonical name) <;> simp [eq_comm]

theorem enum_eq_error_iff {r : Registry} {name : String} {u : Unresolved} :
    r.enum name = .error u ↔ r.enums.get? (Name.canonical name) = none ∧
      u = { typeName := name, kind := "enum" } := by
  unfold enum
  cases r.enums.get? (Name.canonical name) <;> simp [eq_comm]

/-- Every look-up goes by the last entry of the files: file by file, and within a file in order.
Leading dots count neither in the full name of an entry nor in the name that is looked up. -/
structure GoesByLast (r : Registry) (files : List File) : Prop where
  file : FindsLast r.file "file" (fun f name => f.name = name) files
  message : FindsLast r.message "message" (fun m name => Name.bare m.fullName = Name.bare name)
    (files.flatMap File.messages)
  enum : FindsLast r.enum "enum" (fun e name => Name.bare e.fullName = Name.bare name)
    (files.flatMap File.enums)

theorem goesByLast_ofFiles (files : List File) : (ofFiles files).GoesByLast files where
  file :=
    { ok_iff := fun name f => by rw [file_eq_ok_iff, files_ofFiles, find?_reverse_eq_some_iff]
      error_iff := fun name u => by
        rw [file_eq_error_iff, files_ofFiles, find?_reverse_eq_none_iff] }
  message :=
    { ok_iff := fun name m => by
        simp only [message_eq_ok_iff, messages_ofFiles, find?_reverse_eq_some_iff,
          Name.canonical_eq_iff]
      error_iff := fun name u => by
        simp only [message_eq_error_iff, messages_ofFiles, find?_reverse_eq_none_iff, ne_eq,
          Name.canonical_eq_iff] }
  enum :=
    { ok_iff := fun name e => by
        simp only [enum_eq_ok_iff, enums_ofFiles, find?_reverse_eq_some_iff, Name.canonical_eq_iff]
      error_iff := fun name u => by
        simp only [enum_eq_error_iff, enums_ofFiles, find?_reverse_eq_none_iff, ne_eq,
          Name.canonical_eq_iff] }

/-! ## Runs -/

/-- The registry of the first files, to which the later ones were added one by one. -/
def run (first later : List File) : Registry := later.foldl add (ofFiles first)

/-- A run is one list of files. -/
theorem run_eq_ofFiles (first later : List File) : run first later = ofFiles (first ++ later) := by
  rw [run, ofFiles, ofFiles, List.foldl_append]

/-- Two registries answer every look-up alike. -/
structure Alike (r s : Registry) : Prop where
  file : r.file = s.file
  message : r.message = s.message
  enum : r.enum = s.enum

/-- Whatever name is found in one registry is found in another. -/
def Within (r s : Registry) : Prop :=
  ∀ name, ((∃ f, r.file name = .ok f) → ∃ f, s.file name = .ok f) ∧
    ((∃ m, r.message name = .ok m) → ∃ m, s.message name = .ok m) ∧
    ((∃ e, r.enum name = .ok e) → ∃ e, s.enum name = .ok e)

/-- No added file makes a name unknown. -/
theorem within_add (files : List File) (f : File) :
    (ofFiles files).Within ((ofFiles files).add f) := by
  have before := goesByLast_ofFiles files
  have after := goesByLast_ofFiles (files ++ [f])
  rw [ofFiles_concat] at after
  intro name
  rw [before.file.exists_ok_iff, before.message.exists_ok_iff, before.enum.exists_ok_iff,
    after.file.exists_ok_iff, after.message.exists_ok_iff, after.enum.exists_ok_iff,
    List.flatMap_append, List.flatMap_append]
  refine ⟨?_, ?_, ?_⟩ <;>
  · rintro ⟨x, hx, hname⟩
    exact ⟨x, List.mem_append_left _ hx, hname⟩

/-- A file that is added twice in a row might as well be added once. -/
theorem alike_add_add (files : List File) (f : File) :
    (((ofFiles files).add f).add f).Alike ((ofFiles files).add f) := by
  have once := goesByLast_ofFiles (files ++ [f])
  have twice := goesByLast_ofFiles (files ++ [f] ++ [f])
  rw [ofFiles_concat] at once
  rw [ofFiles_concat, ofFiles_concat] at twice
  refine ⟨twice.file.eq_of_isLast_iff once.file fun _ _ => isLast_append_self,
    twice.message.eq_of_isLast_iff once.message fun name m => ?_,
    twice.enum.eq_of_isLast_iff once.enum fun name e => ?_⟩
  · rw [List.flatMap_append, List.flatMap_append, isLast_append_self]
  · rw [List.flatMap_append, List.flatMap_append, isLast_append_self]

/-- After every run, each look-up goes by the last entry.  In particular no added file makes a name
unknown; messages are found by the messages of the files alone and enums by the enums alone, so that
neither hides the other; and a file added twice in a row changes nothing. -/
theorem lookup_last_entry (first later : List File) :
    (run first later).GoesByLast (first ++ later) ∧
      (∀ f, (run first later).Within ((run first later).add f)) ∧
      (∀ others, others.flatMap File.messages = (first ++ later).flatMap File.messages →
        (ofFiles others).message = (run first later).message) ∧
      (∀ others, others.flatMap File.enums = (first ++ later).flatMap File.enums →
        (ofFiles others).enum = (run first later).enum) ∧
      ∀ f, (((run first later).add f).add f).Alike ((run first later).add f) := by
  rw [run_eq_ofFiles]
  have last := goesByLast_ofFiles (first ++ later)
  refine ⟨last, within_add _, fun others same => ?_, fun others same => ?_, alike_add_add _⟩
  · refine (goesByLast_ofFiles others).message.eq_of_isLast_iff last.message fun name m => ?_
    rw [same]
  · refine (goesByLast_ofFiles others).enum.eq_of_isLast_iff last.enum fun name e => ?_
    rw [same]

/-- A file with a message and an enum of one full name, without a leading dot. -/
def undottedFile : File where
  name := "undotted.proto"
  messages := [{ name := "A", fullName := "x.A", fileName := "undotted.proto" }]
  enums := [{ name := "A", fullName := "x.A", fileName := "undotted.proto" }]

/-- A file with two messages of that full name, behind one dot and behind two. -/
def dottedFile : File where
  name := "dotted.proto"
  messages := [{ name := "A", fullName := ".x.A", fileName := "dotted.proto" },
    { name := "A", fullName := "..x.A", fileName := "dotted.proto" }]

/-- Names that are told apart by leading dots alone stand for one entry, which is the last. -/
theorem lookup_last_entry_dotted :
    (run [undottedFile] [dottedFile]).message "x.A" = .ok
        { name := "A", fullName := "..x.A", fileName := "dotted.proto" } ∧
      (run [dottedFile] [undottedFile]).message "...x.A" = .ok
        { name := "A", fullName := "x.A", fileName := "undotted.proto" } ∧
      (run [undottedFile] [dottedFile]).enum "..x.A" = .ok
        { name := "A", fullName := "x.A", fileName := "undotted.proto" } ∧
      (run [undottedFile] [dottedFile]).message "..A" = .error
        { typeName := "..A", kind := "message" } := by
  obtain ⟨dottedLast, -⟩ := lookup_last_entry [undottedFile] [dottedFile]
  obtain ⟨undottedLast, -⟩ := lookup_last_entry [dottedFile] [undottedFile]
  refine ⟨(dottedLast.message.ok_iff ..).mpr ?_, (undottedLast.message.ok_iff ..).mpr ?_,
    (dottedLast.enum.ok_iff ..).mpr ?_, (dottedLast.message.error_iff ..).mpr ⟨by decide, rfl⟩⟩
  · exact ⟨undottedFile.messages ++ dottedFile.messages.take 1, [], rfl, by decide, nofun⟩
  · exact ⟨dottedFile.messages, [], rfl, by decide, nofun⟩
  · exact ⟨[], [], rfl, by decide, nofun⟩

end Schema.Registry

end SchemaTypes
