import Mathlib.Data.List.Basic
import SchemaTypes.Command.Disk

/-!
# Proofs/Places — what stands at the places of a tree, and where paths lead

A place of a tree is nothing, a file with its text, or a directory: `Tree.look` is all that a walk
ever asks of a tree.  Putting a file or an empty directory where none was changes what stands at
that one place (`look_set`).

`Leads` is the walk as a relation, one rule per kind of piece.  A tree that has grown leads wherever
it led before (`Leads.mono`), and pieces that stay where they are can be left out of a walk to a
directory (`leads_filter_iff`).
-/

namespace SchemaTypes.Command

/-- What a place shows: a file with its text, or a directory, whatever is in it. -/
inductive Sight where
  | file (text : String)
  | directory
  deriving DecidableEq

namespace Tree

/-- What a tree shows of itself. -/
def sight : Tree → Sight
  | .file text => .file text
  | .directory _ => .directory

/-- What stands at a place below the tree. -/
def look (t : Tree) (place : List String) : Option Sight := (t.get? place).map sight

/-! ## Looking and putting -/

theorem sight_eq_directory_iff {t : Tree} : t.sight = .directory ↔ ∃ es, t = .directory es := by
  cases t <;> simp [sight]

theorem sight_eq_file_iff {t : Tree} {text : String} : t.sight = .file text ↔ t = .file text := by
  cases t <;> simp [sight]

@[simp] theorem look_nil (t : Tree) : t.look [] = some t.sight := by simp [look]

theorem look_cons (t : Tree) (name : String) (names : List String) :
    t.look (name :: names) = (Table.find? name t.entries).bind (·.look names) := by
  rw [look, get?]
  cases Table.find? name t.entries <;> rfl

theorem look_eq_file_iff {t : Tree} {place : List String} {text : String} :
    t.look place = some (.file text) ↔ t.get? place = some (.file text) := by
  simp only [look, Option.map_eq_some_iff, sight_eq_file_iff, exists_eq_right]

theorem look_eq_directory_iff {t : Tree} {place : List String} :
    t.look place = some .directory ↔ ∃ es, t.get? place = some (.directory es) := by
  simp only [look, Option.map_eq_some_iff, sight_eq_directory_iff]
  exact ⟨fun ⟨_, h, es, hes⟩ => ⟨es, hes ▸ h⟩, fun ⟨es, h⟩ => ⟨_, h, es, rfl⟩⟩

theorem isSome_look {t : Tree} {place : List String} :
    (t.look place).isSome = (t.get? place).isSome := by
  simp [look]

/-- Something without entries, put where nothing has entries, below a directory: that place shows
it, and every other place shows what it showed before. -/
theorem look_set {new : Tree} (bare : new.entries = []) : ∀ {place : List String} {t : Tree},
    (∀ old, t.get? place = some old → old.entries = []) →
    (place ≠ [] → t.look place.dropLast = some .directory) → ∀ q,
    (t.set place new).look q = if q = place then some new.sight else t.look q
  | [], t, hold, _, [] => by simp [set]
  | [], t, hold, _, n :: ns => by simp [set, look_cons, bare, hold t (get?_nil t), Table.find?]
  | name :: names, t, hold, habove, q => by
    obtain ⟨es, rfl⟩ : ∃ es, t = .directory es := by
      cases t with
      | directory es => exact ⟨es, rfl⟩
      | file text =>
        have := habove (List.cons_ne_nil _ _)
        cases names <;> simp [look_cons, entries, Table.find?, sight] at this
    cases q with
    | nil => simp [set, sight]
    | cons n ns =>
      rw [set, look_cons, look_cons]
      simp only [entries, Table.find?_put, List.cons.injEq]
      by_cases hn : name = n
      · subst hn
        simp only [if_true, Option.bind_some, true_and]
        cases hfound : Table.find? name es with
        | some below =>
          have hbelow : ∀ old, below.get? names = some old → old.entries = [] := fun old h =>
            hold old (by simp only [get?, entries, hfound, h])
          have habove' : names ≠ [] → below.look names.dropLast = some .directory := fun h => by
            have := habove (List.cons_ne_nil _ _)
            rwa [List.dropLast_cons_of_ne_nil h, look_cons, entries, hfound] at this
          exact look_set bare hbelow habove' ns
        | none =>
          -- Nothing stands under the name, so the new thing goes exactly there.
          obtain rfl : names = [] := by
            by_contra h
            have := habove (List.cons_ne_nil _ _)
            simp [List.dropLast_cons_of_ne_nil h, look_cons, entries, hfound] at this
          cases ns <;> simp [set, look_cons, bare, Table.find?]
      · rw [if_neg hn, if_neg fun h => hn h.1.symm]

/-! ## Walks -/

/-- A piece met at a place of the tree goes on to the next place: it stays, goes one up, or goes
down to what it names. -/
inductive Goes (t : Tree) (place : List String) : String → List String → Prop
  | stay {piece : String} : piece = "" ∨ piece = "." → Goes t place piece place
  | up : Goes t place ".." place.dropLast
  | down {piece : String} : ¬(piece = "" ∨ piece = ".") → piece ≠ ".." →
      (t.look (place ++ [piece])).isSome → Goes t place piece (place ++ [piece])

/-- Pieces lead from a place of the tree to another, each met in a directory. -/
inductive Leads (t : Tree) : List String → List String → List String → Prop
  | done {place : List String} : Leads t place [] place
  | next {place there goal pieces : List String} {piece : String} :
      t.look place = some .directory → Goes t place piece there → Leads t there pieces goal →
      Leads t place (piece :: pieces) goal

/-- A piece that stays goes nowhere else. -/
theorem goes_stay_iff {t : Tree} {place there : List String} {piece : String}
    (hstay : piece = "" ∨ piece = ".") : t.Goes place piece there ↔ there = place := by
  constructor
  · rintro (- | - | ⟨hnot, -, -⟩)
    · rfl
    · simp at hstay
    · exact absurd hstay hnot
  · rintro rfl
    exact .stay hstay

/-- Two dots go one up. -/
theorem goes_up_iff {t : Tree} {place there : List String} :
    t.Goes place ".." there ↔ there = place.dropLast := by
  constructor
  · rintro (h | - | ⟨-, hnot, -⟩)
    · simp at h
    · rfl
    · exact absurd rfl hnot
  · rintro rfl
    exact .up

/-- A piece that is a name goes down to it, if it is there. -/
theorem goes_down_iff {t : Tree} {place there : List String} {piece : String}
    (hstay : ¬(piece = "" ∨ piece = ".")) (hup : piece ≠ "..") :
    t.Goes place piece there ↔ there = place ++ [piece] ∧ (t.look there).isSome := by
  constructor
  · rintro (h | - | ⟨-, -, hthere⟩)
    · exact absurd h hstay
    · exact absurd rfl hup
    · exact ⟨rfl, hthere⟩
  · rintro ⟨rfl, hthere⟩
    exact .down hstay hup hthere

theorem leads_cons_iff {t : Tree} {place goal pieces : List String} {piece : String} :
    t.Leads place (piece :: pieces) goal ↔
      t.look place = some .directory ∧ ∃ there, t.Goes place piece there ∧
        t.Leads there pieces goal :=
  ⟨fun | .next here goes h => ⟨here, _, goes, h⟩, fun ⟨here, _, goes, h⟩ => .next here goes h⟩

end Tree

open SchemaTypes.Command.Tree

/-- The walk follows the pieces where they lead. -/
theorem Disk.walk_eq_ok_iff {t : Tree} : ∀ {pieces place goal : List String},
    Disk.walk t place pieces = .ok goal ↔ t.Leads place pieces goal
  | [], place, goal => by
      rw [Disk.walk]
      exact ⟨fun h => Except.ok.inj h ▸ .done, fun | .done => rfl⟩
  | piece :: pieces, place, goal => by
      rw [Disk.walk, leads_cons_iff, look_eq_directory_iff]
      cases t.get? place with
      | none => simp
      | some there =>
        cases there with
        | file text => simp
        | directory es =>
          simp only [Option.some.injEq, Tree.directory.injEq, exists_eq', true_and]
          by_cases hstay : piece = "" ∨ piece = "."
          · simp only [if_pos hstay, goes_stay_iff hstay, exists_eq_left, walk_eq_ok_iff]
          · rw [if_neg hstay]
            by_cases hup : piece = ".."
            · simp only [hup, if_true, goes_up_iff, exists_eq_left, walk_eq_ok_iff]
            · simp only [if_neg hup, goes_down_iff hstay hup, and_assoc, exists_eq_left,
                isSome_look, ← walk_eq_ok_iff]
              split <;> simp_all

/-- A tree has grown: what is a directory stays one, and what is there stays there. -/
structure Grows (t u : Tree) : Prop where
  directory {place : List String} : t.look place = some .directory → u.look place = some .directory
  isSome {place : List String} : (t.look place).isSome → (u.look place).isSome

namespace Grows

theorem refl (t : Tree) : Grows t t := ⟨id, id⟩

theorem trans {t u v : Tree} (h : Grows t u) (h' : Grows u v) : Grows t v :=
  ⟨fun hlook => h'.directory (h.directory hlook), fun hsome => h'.isSome (h.isSome hsome)⟩

end Grows

namespace Tree.Leads

variable {t u : Tree} {place goal goal' : List String} {pieces : List String}

/-- Pieces lead to one place at most. -/
theorem unique (h : t.Leads place pieces goal) (h' : t.Leads place pieces goal') : goal = goal' :=
  Except.ok.inj ((Disk.walk_eq_ok_iff.mpr h).symm.trans (Disk.walk_eq_ok_iff.mpr h'))

/-- In a tree that has grown, pieces lead where they led before. -/
theorem mono (grows : Grows t u) (h : t.Leads place pieces goal) : u.Leads place pieces goal := by
  induction h with
  | done => exact .done
  | next here goes _ ih =>
    refine .next (grows.directory here) ?_ ih
    cases goes with
    | stay hstay => exact .stay hstay
    | up => exact .up
    | down hstay hup hthere => exact .down hstay hup (grows.isSome hthere)

/-- A walk that ends in a directory starts in one. -/
theorem directory_start (h : t.Leads place pieces goal) (hgoal : t.look goal = some .directory) :
    t.look place = some .directory := by
  cases h <;> assumption

end Tree.Leads

/-- A walk over two runs of pieces is a walk over the first and then over the second. -/
theorem Tree.leads_append_iff {t : Tree} {before after goal : List String} :
    ∀ {place : List String}, t.Leads place (before ++ after) goal ↔
      ∃ middle, t.Leads place before middle ∧ t.Leads middle after goal := by
  induction before with
  | nil => exact fun {place} => ⟨fun h => ⟨place, .done, h⟩, fun ⟨_, .done, h⟩ => h⟩
  | cons piece before ih =>
    intro place
    rw [List.cons_append, leads_cons_iff]
    constructor
    · rintro ⟨here, there, goes, h⟩
      obtain ⟨middle, h₁, h₂⟩ := ih.mp h
      exact ⟨middle, .next here goes h₁, h₂⟩
    · rintro ⟨middle, h₁, h₂⟩
      obtain ⟨here, there, goes, h⟩ := leads_cons_iff.mp h₁
      exact ⟨here, there, goes, ih.mpr ⟨middle, h, h₂⟩⟩

/-- Pieces that stay where they are may be left out of a walk to a directory. -/
theorem Tree.leads_filter_iff {t : Tree} {goal : List String}
    (hgoal : t.look goal = some .directory) : ∀ {pieces place : List String},
      t.Leads place (pieces.filter fun p => p != "" && p != ".") goal ↔ t.Leads place pieces goal
  | [], place => Iff.rfl
  | piece :: pieces, place => by
      by_cases hstay : piece = "" ∨ piece = "."
      · rw [List.filter_cons_of_neg (by simpa [or_iff_not_imp_left] using hstay),
          leads_filter_iff hgoal, leads_cons_iff]
        simp only [goes_stay_iff hstay, exists_eq_left]
        exact ⟨fun h => ⟨h.directory_start hgoal, h⟩, And.right⟩
      · rw [List.filter_cons_of_pos (by simpa using hstay)]
        simp only [leads_cons_iff, leads_filter_iff hgoal]

end SchemaTypes.Command
