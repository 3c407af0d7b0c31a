import SchemaTypes.Command.Run
import SchemaTypes.Proofs.Pieces
import SchemaTypes.Proofs.Places

/-!
# Proofs/Writing — files written into one directory

`Opens d directory place` says that a directory stands on the disk and at which place.  A text that
names a file in a directory then means the file at that place, for reading and for writing alike.

* `Disk.keeps_ensureDirectories` — making a directory leaves all that was there;
  where the directory stands already, nothing happens (`ensureDirectories_of_opens`).
* `Disk.writeIn_eq_iff` — all that writing a file into a directory does.  From it: the file is there
  (`get?_of_writeIn`), files at all other places are as they were (`spares_of_writeIn`), and a file
  that could be written before still can (`exists_writeIn_of_writeIn`).
-/

namespace SchemaTypes.Command

open SchemaTypes.Command.Tree SchemaTypes.Path

variable {d e : Disk} {path directory file : String} {place : List String}

/-! ## Where a directory stands -/

/-- A directory stands on the disk, at a place. -/
structure Opens (d : Disk) (directory : String) (place : List String) : Prop where
  leads : d.root.Leads (d.start directory) (parse directory).parts place
  look : d.root.look place = some .directory

/-- A disk still holds all that another one held, and no file besides. -/
structure Keeps (d e : Disk) : Prop where
  cwd : e.cwd = d.cwd
  look {place : List String} {s : Sight} : d.root.look place = some s → e.root.look place = some s
  file {place : List String} {text : String} :
    e.root.look place = some (.file text) → d.root.look place = some (.file text)

namespace Keeps

theorem refl (d : Disk) : Keeps d d := ⟨rfl, id, id⟩

theorem trans {c d e : Disk} (h : Keeps c d) (h' : Keeps d e) : Keeps c e :=
  ⟨h'.cwd.trans h.cwd, fun hlook => h'.look (h.look hlook), fun hfile => h.file (h'.file hfile)⟩

theorem grows (h : Keeps d e) : Grows d.root e.root where
  directory := h.look
  isSome hsome := by
    obtain ⟨s, hs⟩ := Option.isSome_iff_exists.mp hsome
    exact Option.isSome_iff_exists.mpr ⟨s, h.look hs⟩

end Keeps

theorem Disk.start_eq_of_cwd (h : e.cwd = d.cwd) (path : String) : e.start path = d.start path := by
  rw [Disk.start, Disk.start, h]

theorem Disk.start_eq_of_namesIn (h : NamesIn path directory file) (d : Disk) :
    d.start path = d.start directory := by
  simp only [Disk.start, h.start]

namespace Opens

theorem unique {other : List String} (h : Opens d directory place) (h' : Opens d directory other) :
    place = other := h.leads.unique h'.leads

/-- A directory stays in its place while the disk grows. -/
theorem mono (h : Opens d directory place) (cwd : e.cwd = d.cwd) (grows : Grows d.root e.root) :
    Opens e directory place :=
  ⟨Disk.start_eq_of_cwd cwd directory ▸ h.leads.mono grows, grows.directory h.look⟩

end Opens

/-- From one disk to another, only files of the given names in a directory have changed: nothing is
gone, and at every other place a file is there exactly if it was. -/
structure Spares (d e : Disk) (directory : String) (files : List String) : Prop where
  cwd : e.cwd = d.cwd
  grows : Grows d.root e.root
  file {q : List String} {text : String}
    (elsewhere : ∀ place, Opens e directory place → ∀ file ∈ files, q ≠ place ++ [file]) :
    e.root.look q = some (.file text) ↔ d.root.look q = some (.file text)

namespace Spares

variable {files others : List String}

theorem refl (d : Disk) (directory : String) : Spares d d directory [] :=
  ⟨rfl, .refl _, fun _ => .rfl⟩

theorem opens (h : Spares d e directory files) (opens : Opens d directory place) :
    Opens e directory place := opens.mono h.cwd h.grows

theorem trans {c : Disk} (h : Spares c d directory files) (h' : Spares d e directory others) :
    Spares c e directory (files ++ others) where
  cwd := h'.cwd.trans h.cwd
  grows := h.grows.trans h'.grows
  file {q text} elsewhere := by
    have second : e.root.look q = some (.file text) ↔ d.root.look q = some (.file text) :=
      h'.file fun place opens file hfile =>
        elsewhere place opens file (List.mem_append_right _ hfile)
    have first : d.root.look q = some (.file text) ↔ c.root.look q = some (.file text) :=
      h.file fun place opens file hfile =>
        elsewhere place (h'.opens opens) file (List.mem_append_left _ hfile)
    exact second.trans first

end Spares

namespace Disk

theorem locate_eq_ok_iff : d.locate path = .ok place ↔
    path ≠ "" ∧ d.root.Leads (d.start path) (pieces path) place := by
  rw [locate]
  split
  · simp_all
  · simp_all [walk_eq_ok_iff]

theorem get?_eq_some_iff {t : Tree} : d.get? path = some t ↔
    ∃ place, d.locate path = .ok place ∧ d.root.get? place = some t := by
  rw [get?]
  cases d.locate path <;> simp

theorem isDirectory_iff : d.isDirectory path ↔ path ≠ "" ∧ ∃ place, Opens d path place := by
  have found : d.isDirectory path ↔ ∃ es, d.get? path = some (.directory es) := by
    rw [isDirectory]
    cases d.get? path with
    | none => simp
    | some t => cases t <;> simp [Tree.isDirectory]
  rw [found]
  constructor
  · rintro ⟨es, h⟩
    obtain ⟨place, hplace, hget⟩ := get?_eq_some_iff.mp h
    obtain ⟨hne, hleads⟩ := locate_eq_ok_iff.mp hplace
    have hlook := look_eq_directory_iff.mpr ⟨es, hget⟩
    exact ⟨hne, place, (leads_filter_iff hlook).mpr hleads, hlook⟩
  · rintro ⟨hne, place, hleads, hlook⟩
    obtain ⟨es, hget⟩ := look_eq_directory_iff.mp hlook
    exact ⟨es, get?_eq_some_iff.mpr
      ⟨place, locate_eq_ok_iff.mpr ⟨hne, (leads_filter_iff hlook).mp hleads⟩, hget⟩⟩

/-! ## A file in a directory -/

/-- The pieces in front of a named file lead to its directory. -/
theorem leads_front_iff {front : List String}
    (hfront : front.filter isPart = (parse directory).parts)
    (hlook : d.root.look place = some .directory) :
    d.root.Leads (d.start directory) front place ↔ Opens d directory place := by
  rw [← leads_filter_iff hlook, hfront]
  exact ⟨fun h => ⟨h, hlook⟩, Opens.leads⟩

/-- Reading a named file is reading it at the place of its directory. -/
theorem get?_eq_some_iff_of_namesIn (h : NamesIn path directory file) (name : IsName file)
    {t : Tree} : d.get? path = some t ↔
      ∃ place, Opens d directory place ∧ d.root.get? (place ++ [file]) = some t := by
  obtain ⟨front, hpieces, hfront⟩ := h.pieces
  have hstay : ¬(file = "" ∨ file = ".") := by simpa using name.part
  have hpath : path ≠ "" := by
    rintro rfl
    rw [show pieces "" = [] ++ [""] from rfl] at hpieces
    exact hstay (.inl (List.append_inj_right' hpieces rfl |> List.singleton_inj.mp).symm)
  simp only [get?_eq_some_iff, locate_eq_ok_iff, hpieces, leads_append_iff, leads_cons_iff,
    goes_down_iff hstay name.not_up, start_eq_of_namesIn h]
  constructor
  · rintro ⟨goal, ⟨-, place, hleads, hlook, there, ⟨rfl, -⟩, ⟨⟩⟩, hget⟩
    exact ⟨place, (leads_front_iff hfront hlook).mp hleads, hget⟩
  · rintro ⟨place, hopens, hget⟩
    refine ⟨_, ⟨hpath, place, (leads_front_iff hfront hopens.look).mpr hopens, hopens.look, _,
      ⟨rfl, ?_⟩, .done⟩, hget⟩
    rw [isSome_look, hget]
    rfl

/-- A file that is not among the changed ones is read as before. -/
theorem get?_of_spares {files : List String} (spares : Spares d e directory files)
    (names : NamesIn path directory file) (name : IsName file) (hfile : file ∉ files) {old : String}
    (held : d.get? path = some (.file old)) : e.get? path = some (.file old) := by
  obtain ⟨place, opens, hget⟩ := (get?_eq_some_iff_of_namesIn names name).mp held
  refine (get?_eq_some_iff_of_namesIn names name).mpr ⟨place, spares.opens opens, ?_⟩
  rw [← look_eq_file_iff, spares.file, look_eq_file_iff, hget]
  rintro place' - other hother same
  obtain rfl := List.singleton_inj.mp (List.append_inj_right' same rfl)
  exact hfile hother

/-- The place for an entry is in the directory that the pieces above it lead to; dots mean a
directory that is there. -/
theorem place_eq_ok_iff {name : String} {above : List String}
    (hpieces : (pieces path).reverse.dropWhile (· == "") = name :: above) {goal : List String}
    {t : Option Tree} : d.place path = .ok (goal, t) ↔
      ∃ parent, d.root.Leads (d.start path) above.reverse parent ∧
        d.root.look parent = some .directory ∧
        if name = "." ∨ name = ".." then goal = parent ∧ t = d.root.get? parent
        else goal = parent ++ [name] ∧ t = d.root.get? goal := by
  simp only [place, hpieces, ← walk_eq_ok_iff, look_eq_directory_iff]
  cases walk d.root (d.start path) above.reverse with
  | error fault => simp
  | ok parent =>
    simp only [Except.ok.injEq, exists_eq_left']
    cases hget : d.root.get? parent with
    | none => simp
    | some there =>
      cases there with
      | file text => simp
      | directory es =>
        simp only [Option.some.injEq, Tree.directory.injEq, exists_eq', true_and]
        split <;> simp only [Except.ok.injEq, Prod.mk.injEq] <;> grind

/-- The place for a named file is in its directory. -/
theorem place_eq_ok_iff_of_namesIn (h : NamesIn path directory file) (name : IsName file)
    {goal : List String} {t : Option Tree} : d.place path = .ok (goal, t) ↔
      ∃ place, Opens d directory place ∧ goal = place ++ [file] ∧ t = d.root.get? goal := by
  obtain ⟨front, hpieces, hfront⟩ := h.pieces
  have hstay : ¬(file = "" ∨ file = ".") := by simpa using name.part
  have hcut : (pieces path).reverse.dropWhile (· == "") = file :: front.reverse := by
    rw [hpieces, List.reverse_append, List.reverse_singleton, List.singleton_append,
      List.dropWhile_cons_of_neg (by simp_all)]
  have hdots : ¬(file = "." ∨ file = "..") := fun hdots =>
    hdots.elim (fun hdot => hstay (.inr hdot)) name.not_up
  simp only [place_eq_ok_iff hcut, List.reverse_reverse, if_neg hdots, start_eq_of_namesIn h]
  constructor
  · rintro ⟨place, hleads, hlook, hgoal⟩
    exact ⟨place, (leads_front_iff hfront hlook).mp hleads, hgoal⟩
  · rintro ⟨place, hopens, hgoal⟩
    exact ⟨place, (leads_front_iff hfront hopens.look).mpr hopens, hopens.look, hgoal⟩

/-- A named file can be written exactly when its directory stands and it is no directory itself. -/
theorem write_eq_ok_iff (h : NamesIn path directory file) (name : IsName file) {text : String} :
    d.write path text = .ok e ↔ ∃ place, Opens d directory place ∧
      d.root.look (place ++ [file]) ≠ some .directory ∧
      e = d.put (place ++ [file]) (.file text) := by
  rw [write]
  cases hplace : d.place path with
  | error fault =>
    simp only [reduceCtorEq, false_iff, not_exists, not_and]
    intro place hopens
    have := (place_eq_ok_iff_of_namesIn h name).mpr ⟨place, hopens, rfl, rfl⟩
    exact absurd this (by simp [hplace])
  | ok found =>
    obtain ⟨goal, t⟩ := found
    obtain ⟨place, hopens, rfl, rfl⟩ := (place_eq_ok_iff_of_namesIn h name).mp hplace
    have only : ∀ other, Opens d directory other ↔ place = other :=
      fun other => ⟨hopens.unique, fun same => same ▸ hopens⟩
    simp only [only, exists_eq_left']
    cases hget : d.root.get? (place ++ [file]) with
    | none => simp [look, hget, eq_comm]
    | some there => cases there <;> simp [look, hget, sight, eq_comm]

/-! ## Putting something into a directory -/

/-- Something without entries put into a directory, in no directory's place, shows there and changes
no other place. -/
theorem look_put {new : Tree} (bare : new.entries = []) {name : String}
    (above : d.root.look place = some .directory)
    (free : d.root.look (place ++ [name]) ≠ some .directory) (q : List String) :
    (d.put (place ++ [name]) new).root.look q
      = if q = place ++ [name] then some new.sight else d.root.look q := by
  refine Tree.look_set bare ?_ ?_ q
  · intro old hold
    cases old with
    | file text => rfl
    | directory es => exact absurd (look_eq_directory_iff.mpr ⟨es, hold⟩) free
  · rw [List.dropLast_concat]
    exact fun _ => above

theorem grows_put {new : Tree} (bare : new.entries = []) {name : String}
    (above : d.root.look place = some .directory)
    (free : d.root.look (place ++ [name]) ≠ some .directory) :
    Grows d.root (d.put (place ++ [name]) new).root where
  directory {q} hq := by
    have elsewhere : q ≠ place ++ [name] := fun same => free (same ▸ hq)
    rw [look_put bare above free, if_neg elsewhere, hq]
  isSome {q} hq := by
    rw [look_put bare above free]
    split
    · rfl
    · exact hq

/-! ## Making directories -/

/-- Without the items at its end that pass a test, a list ends in one that does not. -/
theorem eq_of_reverse_dropWhile {α : Type} {p : α → Bool} {xs above : List α} {x : α}
    (h : xs.reverse.dropWhile p = x :: above) :
    p x = false ∧ ∃ rest, xs = above.reverse ++ x :: rest := by
  constructor
  · have := List.head?_dropWhile_not p xs.reverse
    rwa [h] at this
  · have joined : xs.reverse.takeWhile p ++ x :: above = xs.reverse := by
      rw [← h, List.takeWhile_append_dropWhile]
    refine ⟨(xs.reverse.takeWhile p).reverse, ?_⟩
    simpa using (congrArg List.reverse joined).symm

/-- All that making a directory can do: it goes where nothing stood, into a directory. -/
theorem makeDirectory_cases (h : d.makeDirectory path = .ok e) :
    ∃ name front rest parent, pieces path = front ++ name :: rest ∧
      ¬(name = "" ∨ name = ".") ∧ name ≠ ".." ∧
      d.root.Leads (d.start path) front parent ∧ d.root.look parent = some .directory ∧
      d.root.look (parent ++ [name]) = none ∧ e = d.put (parent ++ [name]) (.directory []) := by
  rw [makeDirectory] at h
  split at h
  · nomatch h
  · nomatch h
  · rename_i goal hplace
    obtain rfl := Except.ok.inj h
    cases hcut : (pieces path).reverse.dropWhile (· == "") with
    | nil =>
      rw [place, hcut] at hplace
      dsimp only at hplace
      split at hplace <;> simp at hplace
    | cons name above =>
      obtain ⟨hname, rest, hpieces⟩ := eq_of_reverse_dropWhile hcut
      obtain ⟨parent, hleads, hlook, hgoal⟩ := (place_eq_ok_iff hcut).mp hplace
      split at hgoal
      · simp [look, ← hgoal.2] at hlook
      · rename_i hdots
        obtain ⟨rfl, hnone⟩ := hgoal
        rw [not_or] at hdots
        refine ⟨name, _, rest, parent, hpieces, ?_, hdots.2, hleads, hlook, ?_, rfl⟩
        · rintro (rfl | rfl)
          · simp at hname
          · exact hdots.1 rfl
        · simp [look, ← hnone]

theorem keeps_makeDirectory (h : d.makeDirectory path = .ok e) : Keeps d e := by
  obtain ⟨name, -, -, parent, -, -, -, -, hlook, free, rfl⟩ := makeDirectory_cases h
  have bare : (Tree.directory []).entries = [] := rfl
  have put := look_put bare hlook (free.trans_ne (Option.some_ne_none _).symm)
  refine ⟨rfl, fun {q s} hq => ?_, fun {q text} hq => ?_⟩
  · have elsewhere : q ≠ parent ++ [name] := by
      rintro rfl
      simp [free] at hq
    rw [put, if_neg elsewhere, hq]
  · rw [put] at hq
    split at hq
    · simp [sight] at hq
    · exact hq

theorem keeps_ensureDirectory (d : Disk) (path : String) : Keeps d (d.ensureDirectory path).1 := by
  rw [ensureDirectory]
  split
  · exact keeps_makeDirectory ‹_›
  · exact .refl d

theorem keeps_ensureAbove (d : Disk) (path : String) (names : List String) :
    Keeps d (d.ensureAbove path names).1 := by
  fun_induction ensureAbove d path names with
  | case1 => exact keeps_ensureDirectory ..
  | case2 => exact keeps_ensureDirectory ..
  | case3 => exact keeps_ensureDirectory ..
  | case4 | case6 | case8 =>
    rename_i above ih
    rw [above] at ih
    exact ih
  | case5 | case7 =>
    rename_i above _ ih
    rw [above] at ih
    exact ih.trans (keeps_ensureDirectory ..)

/-- Making a directory and those above it leaves all that was there, also when it fails. -/
theorem keeps_ensureDirectories (d : Disk) (path : String) :
    Keeps d (d.ensureDirectories path).1 :=
  keeps_ensureAbove ..

/-! ## Directories that stand -/

theorem leads_pieces_of_opens (h : Opens d directory place) :
    d.root.Leads (d.start directory) (pieces directory) place :=
  (leads_filter_iff h.look).mp h.leads

/-- Where a directory stands, none is made. -/
theorem ensureDirectory_of_opens (hne : directory ≠ "") (h : Opens d directory place) :
    d.ensureDirectory directory = (d, none) := by
  rw [ensureDirectory]
  split
  · rename_i made hmade
    obtain ⟨name, front, rest, parent, hpieces, hstay, hup, hleads, -, free, -⟩ :=
      makeDirectory_cases hmade
    -- The walk to the directory passes the place where it would be made.
    have walk := leads_pieces_of_opens h
    rw [hpieces, leads_append_iff] at walk
    obtain ⟨middle, hmiddle, hlast⟩ := walk
    obtain rfl := hmiddle.unique hleads
    obtain ⟨-, there, goes, -⟩ := leads_cons_iff.mp hlast
    obtain ⟨rfl, hsome⟩ := (goes_down_iff hstay hup).mp goes
    simp [free] at hsome
  · rw [if_pos (isDirectory_iff.mpr ⟨hne, place, h⟩)]

/-- Paths start alike if their first pieces are the same. -/
theorem start_eq_of_head? {other : String} (hne : path ≠ "") (hne' : other ≠ "")
    (h : (pieces path).head? = (pieces other).head?) (d : Disk) : d.start path = d.start other := by
  have slash : path.toList.head? = some '/' ↔ other.toList.head? = some '/' := by
    have here := head?_pieces path
    have there := head?_pieces other
    simp only [hne, hne', false_or] at here there
    rw [← here, ← there, h]
  simp only [start, slash]

/-- What lies above a directory that stands is there. -/
theorem contains_above_of_opens (hne : directory ≠ "") (h : Opens d directory place)
    {front rest : List String} {last : String} (hrest : rest ≠ [])
    (hpieces : pieces directory = front ++ [last] ++ rest) (hlast : last ≠ "") :
    d.contains ("/".intercalate (front ++ [last])) := by
  have slashless : ∀ p ∈ front ++ [last], '/' ∉ p.toList := fun p hp =>
    slash_not_mem (s := directory) (hpieces ▸ List.mem_append_left _ hp)
  have cut := pieces_intercalate (List.concat_ne_nil last front) slashless
  have above_ne : "/".intercalate (front ++ [last]) ≠ "" := by
    intro hnil
    rw [hnil, show pieces "" = [] ++ [""] from rfl] at cut
    exact hlast (List.singleton_inj.mp (List.append_inj_right' cut rfl)).symm
  have same_start : d.start ("/".intercalate (front ++ [last])) = d.start directory := by
    refine start_eq_of_head? above_ne hne ?_ d
    rw [cut, hpieces, List.head?_append_of_ne_nil (front ++ [last]) (List.concat_ne_nil last front)]
  -- The walk to the directory goes on from there, so there is a directory.
  have walk := leads_pieces_of_opens h
  rw [hpieces, leads_append_iff] at walk
  obtain ⟨middle, hmiddle, hon⟩ := walk
  obtain ⟨next, rest, rfl⟩ := List.exists_cons_of_ne_nil hrest
  obtain ⟨es, hget⟩ := look_eq_directory_iff.mp (leads_cons_iff.mp hon).1
  have located : d.locate ("/".intercalate (front ++ [last])) = .ok middle :=
    locate_eq_ok_iff.mpr ⟨above_ne, by rwa [cut, same_start]⟩
  rw [contains, get?_eq_some_iff.mpr ⟨middle, located, hget⟩]
  rfl

/-- Where a directory stands, nothing is to be made, neither it nor anything above it. -/
theorem ensureDirectories_of_opens (hne : directory ≠ "") (h : Opens d directory place) :
    d.ensureDirectories directory = (d, none) := by
  have here := ensureDirectory_of_opens hne h
  rw [ensureDirectories]
  cases hcut : (pieces directory).reverse.dropWhile (· == "") with
  | nil => rw [ensureAbove, here]
  | cons name above =>
    rw [ensureAbove]
    split
    · exact here
    · rename_i habove
      obtain ⟨last, front, hfront⟩ := List.exists_cons_of_ne_nil habove
      obtain ⟨-, rest, hpieces⟩ := eq_of_reverse_dropWhile hcut
      have hback : above.reverse.reverse.dropWhile (· == "") = last :: front := by
        rwa [List.reverse_reverse]
      obtain ⟨hlast, between, hbetween⟩ := eq_of_reverse_dropWhile hback
      have hwhole : pieces directory = front.reverse ++ [last] ++ (between ++ name :: rest) := by
        simp [hpieces, hbetween]
      have contained := contains_above_of_opens hne h (by simp) hwhole (by simpa using hlast)
      rw [hfront, List.reverse_cons, if_pos contained, here]

/-- No directory is made of the empty text. -/
theorem ensureDirectories_empty (d : Disk) : (d.ensureDirectories "").2 ≠ none := by
  have here : d.ensureDirectories "" = d.ensureDirectory "" := by
    rw [ensureDirectories, show (pieces "").reverse.dropWhile (· == "") = [] from rfl, ensureAbove]
  rw [here]
  exact Option.some_ne_none _

/-! ## Writing into a directory -/

/-- All that writing a named file into its directory does: the directory is made if need be, and the
file is put at its place in it. -/
theorem writeIn_eq_iff (h : NamesIn path directory file) (name : IsName file) {text : String} :
    d.writeIn directory path text = (e, none) ↔
      ∃ made place, d.ensureDirectories directory = (made, none) ∧ Opens made directory place ∧
        made.root.look (place ++ [file]) ≠ some .directory ∧
        e = made.put (place ++ [file]) (.file text) := by
  rw [writeIn]
  rcases d.ensureDirectories directory with ⟨made, _ | fault⟩
  · simp only [Prod.mk.injEq, and_true, exists_eq_left', ← write_eq_ok_iff (h.normal name) name,
      exists_and_left]
    cases made.write (parse path).text text <;> simp
  · simp

/-- What there is to know once a file was written: `made` is the disk with the directory just made,
and there as at the end the directory stands at `place`. -/
structure Lands (d : Disk) (directory file text : String) (e made : Disk) (place : List String) :
    Prop where
  ensured : d.ensureDirectories directory = (made, none)
  keeps : Keeps d made
  nonempty : directory ≠ ""
  stood : Opens made directory place
  grows : Grows made.root e.root
  stands : Opens e directory place
  cwd : e.cwd = d.cwd
  look (q : List String) :
    e.root.look q = if q = place ++ [file] then some (.file text) else made.root.look q

section Written

variable {text : String} (names : NamesIn path directory file) (name : IsName file)
  (written : d.writeIn directory path text = (e, none))
include names name written

theorem exists_lands : ∃ made place, Lands d directory file text e made place := by
  obtain ⟨made, place, hmade, hopens, free, rfl⟩ := (writeIn_eq_iff names name).mp written
  have keeps := keeps_ensureDirectories d directory
  rw [hmade] at keeps
  have grows := grows_put (rfl : (Tree.file text).entries = []) hopens.look free
  refine ⟨made, place, hmade, keeps, ?_, hopens, grows, hopens.mono rfl grows, keeps.cwd,
    look_put rfl hopens.look free⟩
  rintro rfl
  exact ensureDirectories_empty d (congrArg Prod.snd hmade)

/-- What was written can be read. -/
theorem get?_of_writeIn : e.get? path = some (.file text) := by
  obtain ⟨made, place, lands⟩ := exists_lands names name written
  refine (get?_eq_some_iff_of_namesIn names name).mpr ⟨place, lands.stands, ?_⟩
  rw [← look_eq_file_iff, lands.look, if_pos rfl]

/-- Nothing changes at other places, directories on the way apart. -/
theorem spares_of_writeIn : Spares d e directory [file] := by
  obtain ⟨made, place, lands⟩ := exists_lands names name written
  refine ⟨lands.cwd, lands.keeps.grows.trans lands.grows, fun {q text} elsewhere => ?_⟩
  rw [lands.look, if_neg (elsewhere place lands.stands file List.mem_cons_self)]
  exact ⟨lands.keeps.file, lands.keeps.look⟩

variable {otherPath other : String} (names' : NamesIn otherPath directory other)
  (name' : IsName other)
include names' name'

/-- A file of the directory that could be written before still can. -/
theorem exists_writeIn_of_writeIn {old : String} {instead : Disk}
    (could : d.writeIn directory otherPath old = (instead, none)) (new : String) :
    ∃ after, e.writeIn directory otherPath new = (after, none) := by
  obtain ⟨made, place, lands⟩ := exists_lands names name written
  obtain ⟨made', place', hmade', hplace', free, -⟩ := (writeIn_eq_iff names' name').mp could
  obtain rfl : made = made' := congrArg Prod.fst (lands.ensured.symm.trans hmade')
  obtain rfl := lands.stood.unique hplace'
  refine ⟨_, (writeIn_eq_iff names' name').mpr ⟨e, place,
    ensureDirectories_of_opens lands.nonempty lands.stands, lands.stands, ?_, rfl⟩⟩
  rw [lands.look]
  split
  · simp
  · exact free

end Written

end Disk

/-! ## Outputs -/

/-- The file that is written for an input. -/
def outputFile (dialect : Dialect) (input : String) : String :=
  (parse input).stem ++ dialect.suffix

theorem slash_not_mem_stem (input : String) : '/' ∉ (parse input).stem.toList := by
  intro hslash
  rw [stem, stemOf, String.toList_ofList] at hslash
  have hname : '/' ∈ ((parse input).name?.getD "").toList := by
    rw [← cutSuffix_append ((parse input).name?.getD "").toList]
    exact List.mem_append_left _ hslash
  cases hlast : (parse input).name? with
  | none => simp [hlast] at hname
  | some last =>
    have hpiece : last ∈ pieces input := List.mem_of_mem_filter (List.mem_of_getLast? hlast)
    exact slash_not_mem hpiece (by simpa [hlast] using hname)

/-- The file that is written for an input is a name: it has no slash, and does not end in a dot. -/
theorem isName_outputFile (dialect : Dialect) (input : String) :
    IsName (outputFile dialect input) := by
  have slashless := slash_not_mem_stem input
  have ending : ∃ c, c ≠ '.' ∧ (outputFile dialect input).toList.getLast? = some c := by
    cases dialect <;> simp [outputFile, Dialect.suffix]
  obtain ⟨c, hc, hlast⟩ := ending
  refine ⟨?_, ?_, ?_⟩
  · cases dialect <;> simpa [outputFile, Dialect.suffix] using slashless
  · rw [Bool.and_eq_true, bne_iff_ne, bne_iff_ne]
    constructor
    · intro h
      simp [h] at hlast
    · intro h
      simp [h, hc.symm] at hlast
  · intro h
    simp [h, hc.symm] at hlast

theorem namesIn_outputPath (directory : String) (dialect : Dialect) (input : String) :
    NamesIn (outputPath directory dialect input) directory (outputFile dialect input) :=
  namesIn_inDirectory (isName_outputFile dialect input) directory

/-- Two inputs have the same output exactly when they have the same stem. -/
theorem outputFile_eq_iff {dialect : Dialect} {input other : String} :
    outputFile dialect input = outputFile dialect other ↔
      (parse input).stem = (parse other).stem := by
  rw [outputFile, outputFile]
  exact String.append_left_inj _

end SchemaTypes.Command
