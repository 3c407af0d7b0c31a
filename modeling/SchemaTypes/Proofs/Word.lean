import Mathlib.Data.List.TakeWhile
import SchemaTypes.Name
import SchemaTypes.Proofs.Cut

/-!
# Proofs/Word — what is left of a dotted name in its word

The word of a name forgets where the dots stood, and nothing else: together with `dots` it gives the
name back (`eq_of_word_eq`).  Of a name that lies in its package, `qualify` leaves out the word of
the package, and nothing else (`word_eq_append_qualify`).

Whether a package is left out is read off the dotted name, and how much is left out off the word.
The two agree for packages and names of any form (`qualify_of_bare_eq`), and what is left has no
dots to lie in a package by, so it is written as it is from then on (`qualify_eq_self`).
-/

namespace SchemaTypes.Name

/-! ## Words -/

theorem word_append (a b : String) : word (a ++ b) = word a ++ word b := by
  rw [← String.toList_inj]
  simp

/-- A name without dots is its own word. -/
theorem word_eq_self {name : String} (h : '.' ∉ name.toList) : word name = name := by
  rw [← String.toList_inj, toList_word, List.filter_eq_self]
  intro c hc
  simpa using ne_of_mem_of_not_mem hc h

/-- Leading dots leave the word as it is. -/
theorem word_bare (name : String) : word (bare name) = word name := by
  have leading : (name.toList.takeWhile (· == '.')).filter (· != '.') = [] := by
    rw [List.filter_eq_nil_iff]
    intro c hc
    simpa using List.mem_takeWhile_imp hc
  rw [← String.toList_inj, toList_word, toList_word, toList_bare,
    ← List.nil_append (List.filter _ (List.dropWhile _ _)), ← leading, ← List.filter_append,
    List.takeWhile_append_dropWhile]

/-! ## Dots -/

/-- Where the dots of a name stand. -/
def dots (name : String) : List Bool := name.toList.map (· == '.')

theorem eq_of_filter_eq_of_map_eq : ∀ {xs ys : List Char},
    xs.filter (· != '.') = ys.filter (· != '.') → xs.map (· == '.') = ys.map (· == '.') → xs = ys
  | [], ys, _, places => (List.map_eq_nil_iff.mp places.symm).symm
  | x :: xs, ys, letters, places => by
      obtain ⟨y, ys, rfl, head, rest⟩ := List.map_eq_cons_iff.mp places.symm
      by_cases hx : x = '.'
      · obtain rfl : y = x := by simpa [hx] using head
        rw [List.filter_cons_of_neg (by simpa using hx),
          List.filter_cons_of_neg (by simpa using hx)] at letters
        rw [eq_of_filter_eq_of_map_eq letters rest.symm]
      · have hy : y ≠ '.' := by simpa [hx] using head
        rw [List.filter_cons_of_pos (by simpa using hx),
          List.filter_cons_of_pos (by simpa using hy)] at letters
        obtain ⟨rfl, tails⟩ := List.cons.inj letters
        rw [eq_of_filter_eq_of_map_eq tails rest.symm]

/-- A word and the places of the dots make the name. -/
theorem eq_of_word_eq {a b : String} (letters : word a = word b) (places : dots a = dots b) :
    a = b := by
  rw [← String.toList_inj, toList_word, toList_word] at letters
  exact String.toList_inj.mp (eq_of_filter_eq_of_map_eq letters places)

/-! ## Packages -/

/-- A package that does not start with a dot is met behind the first dot of a full name. -/
theorem inPackage_dot_append {package : String} (h : package.toList.head? ≠ some '.')
    (nonempty : package ≠ "") (rest : String) :
    inPackage package ("." ++ (package ++ "." ++ rest)) = true := by
  obtain ⟨c, cs, hcs⟩ := List.exists_cons_of_ne_nil (mt String.toList_eq_nil_iff.mp nonempty)
  have hc : (c == '.') = false := by simpa [hcs] using h
  rw [inPackage, List.isPrefixOf_iff_prefix]
  refine ⟨rest.toList, ?_⟩
  simp [hcs, hc]

/-- The word of a name in its package: that of the package, then what the name is written as. -/
theorem word_eq_append_qualify {fullName package : String}
    (h : package ≠ "" → inPackage package fullName = true) :
    word fullName = word package ++ qualify fullName package false := by
  by_cases hp : package = ""
  · subst hp
    rw [qualify_empty]
    exact String.empty_append.symm
  · obtain ⟨rest, hrest⟩ := List.isPrefixOf_iff_prefix.mp (h hp)
    have letters : (word fullName).toList = (word package).toList ++ rest.filter (· != '.') := by
      rw [← word_bare, toList_word, ← hrest, toList_word]
      simp
    rw [qualify, if_pos (by simp [hp, h hp]), ← String.toList_inj, String.toList_append,
      String.toList_ofList, letters, List.drop_left]

/-- A name lies in a package when it goes on behind the package and a dot. -/
theorem inPackage_iff {package fullName : String} :
    inPackage package fullName = true ↔ ∃ rest, bare fullName = package ++ "." ++ rest := by
  rw [inPackage, List.isPrefixOf_iff_prefix]
  constructor
  · rintro ⟨rest, hrest⟩
    refine ⟨String.ofList rest, ?_⟩
    rw [← String.toList_inj, ← hrest]
    simp
  · rintro ⟨rest, hrest⟩
    refine ⟨rest.toList, ?_⟩
    rw [hrest]
    simp

/-! ## What is left of a name -/

variable {fullName package : String} {always : Bool}

/-- Behind its package, a name is written as what follows. -/
theorem qualify_of_bare_eq {rest : String} (behind : bare fullName = package ++ "." ++ rest) :
    qualify fullName package false = word rest := by
  have cut : word package ++ qualify fullName package false = word package ++ word rest := by
    have dot : word "." = "" := rfl
    rw [← word_eq_append_qualify fun _ => inPackage_iff.mpr ⟨rest, behind⟩, ← word_bare, behind,
      word_append, word_append, dot, String.append_empty]
  exact (String.append_right_inj _).mp cut

/-- Wherever no package is left out, a name is written as all its segments. -/
theorem qualify_eq_word
    (whole : ¬(always = false ∧ package ≠ "" ∧ ∃ rest, bare fullName = package ++ "." ++ rest)) :
    qualify fullName package always = word fullName := by
  rw [qualify, if_neg]
  simpa [inPackage_iff, and_assoc] using whole

theorem dot_not_mem_word (name : String) : '.' ∉ (word name).toList := by
  simp

theorem dot_not_mem_qualify (fullName package : String) (always : Bool) :
    '.' ∉ (qualify fullName package always).toList := by
  unfold qualify
  split
  · rw [String.toList_ofList]
    exact fun h => dot_not_mem_word fullName (List.mem_of_mem_drop h)
  · exact dot_not_mem_word fullName

/-- A name without dots lies in no package. -/
theorem qualify_eq_self (h : '.' ∉ fullName.toList) :
    qualify fullName package always = fullName := by
  rw [qualify_eq_word, word_eq_self h]
  rintro ⟨-, -, rest, behind⟩
  have within : '.' ∈ (bare fullName).toList := by simp [behind]
  rw [toList_bare] at within
  exact h ((List.dropWhile_sublist _).subset within)

/-! ## Segments -/

/-- The segments of a dotted name, empty ones included. -/
def segments (name : String) : List String := Text.cut '.' name

theorem segments_append_dot (a b : String) : segments (a ++ "." ++ b) = segments a ++ segments b :=
  Text.cut_append a b

/-- A name goes on behind another and a dot exactly when it does so by whole segments. -/
theorem eq_append_dot_iff {name rest : String} :
    name = package ++ "." ++ rest ↔ segments name = segments package ++ segments rest := by
  rw [← segments_append_dot, segments, segments, Text.cut_injective.eq_iff]

/-- A package that is not empty is left out of the names that go on behind it by whole segments, if
names are not always qualified, and what follows is written as its word.  Every other name is
written as its own word.  Either way no dot is left, and to write the result once more, in any
package, changes nothing. -/
theorem qualify_whole_segments_and_stable (fullName package : String) (always : Bool) :
    (∀ rest, bare fullName = package ++ "." ++ rest ↔
        segments (bare fullName) = segments package ++ segments rest) ∧
      (∀ rest, always = false → package ≠ "" → bare fullName = package ++ "." ++ rest →
        qualify fullName package always = word rest) ∧
      (¬(always = false ∧ package ≠ "" ∧ ∃ rest, bare fullName = package ++ "." ++ rest) →
        qualify fullName package always = word fullName) ∧
      '.' ∉ (qualify fullName package always).toList ∧
      ∀ (other : String) (again : Bool), qualify (qualify fullName package always) other again
        = qualify fullName package always := by
  refine ⟨fun rest => eq_append_dot_iff, ?_, qualify_eq_word, dot_not_mem_qualify _ _ _, ?_⟩
  · rintro rest rfl - behind
    exact qualify_of_bare_eq behind
  · intro other again
    exact qualify_eq_self (dot_not_mem_qualify fullName package always)

/-- Empty segments of a package are left out with it, and a package that only begins the first
segment of a name is not. -/
theorem qualify_whole_segments_and_stable_shop :
    bare "..shop..eu.Order.Item" = "shop..eu" ++ "." ++ "Order.Item" ∧
      qualify "..shop..eu.Order.Item" "shop..eu" false = "OrderItem" ∧
      (¬∃ rest, bare "shopping.Cart" = "shop" ++ "." ++ rest) ∧
      qualify "shopping.Cart" "shop" false = "shoppingCart" := by
  have behind : bare "..shop..eu.Order.Item" = "shop..eu" ++ "." ++ "Order.Item" := by decide
  have beside : ¬∃ rest, bare "shopping.Cart" = "shop" ++ "." ++ rest := by
    rw [← inPackage_iff]
    decide
  obtain ⟨-, cut, -⟩ := qualify_whole_segments_and_stable "..shop..eu.Order.Item" "shop..eu" false
  obtain ⟨-, -, whole, -⟩ := qualify_whole_segments_and_stable "shopping.Cart" "shop" false
  exact ⟨behind, (cut _ rfl (by decide) behind).trans (by decide), beside,
    (whole fun h => beside h.2.2).trans (by decide)⟩

end SchemaTypes.Name
