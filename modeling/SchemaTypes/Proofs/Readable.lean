import Mathlib.Data.List.TakeWhile

/-!
# Proofs/Readable — texts that show where they end

An item is readable if its text, at the front of a longer one, tells both the item and where its
text ends.  That depends on what may follow, so `Readable` is relative to a set of followers.

Names are readable before anything that cannot go on with them (`readable_toList`).  The other
lemmas put readable texts together: `between` fixed texts, as a `pair`, one after the other
(`flatMap`) and with separators (`separated`).  Each of them asks only about the seams.
-/

namespace SchemaTypes

variable {α β : Type}

/-! ## Names -/

/-- A text does not start with a character of the class. -/
def Stops (p : Char → Bool) (r : List Char) : Prop := ∀ c ∈ r.head?, p c = false

theorem stops_cons {p : Char → Bool} {c : Char} (h : p c = false) (r : List Char) :
    Stops p (c :: r) := by
  intro d hd
  obtain rfl : c = d := Option.some.inj hd
  exact h

section Stops

variable {p : Char → Bool} {xs r : List Char}

theorem takeWhile_append_of_stops (hxs : ∀ c ∈ xs, p c = true) (hr : Stops p r) :
    (xs ++ r).takeWhile p = xs := by
  rw [List.takeWhile_append_of_pos hxs]
  cases r with
  | nil => simp
  | cons c r => simp [hr c rfl]

theorem dropWhile_append_of_stops (hxs : ∀ c ∈ xs, p c = true) (hr : Stops p r) :
    (xs ++ r).dropWhile p = r := by
  rw [List.dropWhile_append_of_pos hxs]
  cases r with
  | nil => rfl
  | cons c r => simp [hr c rfl]

end Stops

/-- An item can be read off the front of a text: no other admitted item starts a text in the same
way, nor does it end elsewhere, when only followers come behind. -/
def Readable (write : α → List Char) (admitted : α → Prop) (follows : List Char → Prop) (x : α) :
    Prop :=
  ∀ ⦃y : α⦄ ⦃r q : List Char⦄, admitted y → follows r → follows q →
    write x ++ r = write y ++ q → x = y ∧ r = q

/-- A name ends where its characters do. -/
theorem readable_toList {p : Char → Bool} {name : String} (hname : ∀ c ∈ name.toList, p c = true) :
    Readable String.toList (fun s => ∀ c ∈ s.toList, p c = true) (Stops p) name := by
  intro other r q hother hr hq same
  constructor
  · rw [← String.toList_inj, ← takeWhile_append_of_stops hname hr, same,
      takeWhile_append_of_stops hother hq]
  · rw [← dropWhile_append_of_stops hname hr, same, dropWhile_append_of_stops hother hq]

/-! ## Putting texts together -/

namespace Readable

variable {write : α → List Char} {admitted : α → Prop} {follows follows' : List Char → Prop} {x : α}

/-- A readable item stays readable between two fixed texts. -/
theorem between (h : Readable write admitted follows x) (before after : List Char)
    (seam : ∀ r, follows' r → follows (after ++ r)) :
    Readable (fun x => before ++ (write x ++ after)) admitted follows' x := by
  intro y r q hy hr hq same
  simp only [List.append_assoc, List.append_cancel_left_eq] at same
  obtain ⟨rfl, rest⟩ := h hy (seam r hr) (seam q hq) same
  exact ⟨rfl, List.append_cancel_left rest⟩

/-- Fewer admitted items and fewer followers make reading easier. -/
theorem mono {admitted' : α → Prop} (h : Readable write admitted follows x)
    (hadmitted : ∀ y, admitted' y → admitted y) (hfollows : ∀ r, follows' r → follows r) :
    Readable write admitted' follows' x :=
  fun _ r q hy hr hq same => h (hadmitted _ hy) (hfollows r hr) (hfollows q hq) same

/-- Two readable items stay readable one behind the other. -/
theorem pair {write' : β → List Char} {admitted' : β → Prop} {x' : β}
    (h : Readable write admitted follows x) (h' : Readable write' admitted' follows' x')
    (hx' : admitted' x') (seam : ∀ y r, admitted' y → follows' r → follows (write' y ++ r)) :
    Readable (fun p : α × β => write p.1 ++ write' p.2) (fun p => admitted p.1 ∧ admitted' p.2)
      follows' (x, x') := by
  rintro ⟨y, y'⟩ r q ⟨hy, hy'⟩ hr hq same
  simp only [List.append_assoc] at same
  obtain ⟨rfl, rest⟩ := h hy (seam x' r hx' hr) (seam y' q hy' hq) same
  obtain ⟨rfl, rfl⟩ := h' hy' hr hq rest
  exact ⟨rfl, rfl⟩

/-- What comes behind an item: the next one, or what follows them all. -/
theorem follows_flatMap (last : ∀ r, follows' r → follows r)
    (next : ∀ y r, admitted y → follows (write y ++ r)) {r : List Char} (hr : follows' r) :
    ∀ {ys : List α}, (∀ y ∈ ys, admitted y) → follows (ys.flatMap write ++ r)
  | [], _ => last r hr
  | y :: ys, hys => by
      rw [List.flatMap_cons, List.append_assoc]
      exact next y _ (hys y List.mem_cons_self)

/-- Readable items stay readable one after the other, if what follows them is no further item. -/
theorem flatMap {xs : List α} (hxs : ∀ x ∈ xs, admitted x)
    (h : ∀ x ∈ xs, Readable write admitted follows x) (last : ∀ r, follows' r → follows r)
    (next : ∀ y r, admitted y → follows (write y ++ r))
    (stop : ∀ y r, admitted y → ¬follows' (write y ++ r)) :
    Readable (List.flatMap write) (fun ys => ∀ y ∈ ys, admitted y) follows' xs := by
  induction xs with
  | nil =>
    intro ys r q hys hr hq same
    cases ys with
    | nil => exact ⟨rfl, same⟩
    | cons y ys =>
      rw [List.flatMap_nil, List.nil_append, List.flatMap_cons, List.append_assoc] at same
      exact absurd (same ▸ hr) (stop y _ (hys y List.mem_cons_self))
  | cons x xs ih =>
    intro ys r q hys hr hq same
    obtain ⟨hx, hxs⟩ := List.forall_mem_cons.mp hxs
    obtain ⟨hfirst, hrest⟩ := List.forall_mem_cons.mp h
    cases ys with
    | nil =>
      rw [List.flatMap_nil, List.nil_append, List.flatMap_cons, List.append_assoc] at same
      exact absurd (same ▸ hq) (stop x _ hx)
    | cons y ys =>
      obtain ⟨hy, hys'⟩ := List.forall_mem_cons.mp hys
      rw [List.flatMap_cons, List.flatMap_cons] at same
      have both := hfirst.pair (ih hxs hrest) hxs
        (fun ys r hys hr => follows_flatMap last next hr hys)
      obtain ⟨hpair, rfl⟩ := both (y := (y, ys)) ⟨hy, hys'⟩ hr hq same
      obtain ⟨rfl, rfl⟩ := Prod.mk.inj hpair
      exact ⟨rfl, rfl⟩

end Readable

/-! ## Separators -/

/-- The texts of items with a separator between them. -/
def separated (separator : List Char) (write : α → List Char) (xs : List α) : List Char :=
  separator.intercalate (xs.map write)

section Separated

variable {separator : List Char} {write : α → List Char}

@[simp] theorem separated_nil : separated separator write [] = [] := rfl

/-- The first item stands alone and every other one behind a separator. -/
theorem separated_cons (x : α) : ∀ xs : List α,
    separated separator write (x :: xs) = write x ++ xs.flatMap fun y => separator ++ write y
  | [] => by simp [separated]
  | y :: ys => by
      have rest := separated_cons y ys
      rw [separated, List.map_cons] at rest
      rw [separated, List.map_cons, List.map_cons, List.intercalate_cons_cons, rest,
        List.flatMap_cons]
      simp only [List.append_assoc]

/-- Readable items stay readable with separators between them, if what follows them is neither an
item nor a separator. -/
theorem Readable.separated {admitted : α → Prop} {follows follows' : List Char → Prop} {xs : List α}
    (hxs : ∀ x ∈ xs, admitted x) (h : ∀ x ∈ xs, Readable write admitted follows x)
    (last : ∀ r, follows' r → follows r) (next : ∀ r, follows (separator ++ r))
    (stop : ∀ y r, admitted y → ¬follows' (write y ++ r))
    (stop' : ∀ r, ¬follows' (separator ++ r)) :
    Readable (separated separator write) (fun ys => ∀ y ∈ ys, admitted y) follows' xs := by
  intro ys r q hys hr hq same
  cases xs with
  | nil =>
    cases ys with
    | nil => exact ⟨rfl, same⟩
    | cons y ys =>
      rw [separated_nil, List.nil_append, separated_cons, List.append_assoc] at same
      exact absurd (same ▸ hr) (stop y _ (hys y List.mem_cons_self))
  | cons x xs =>
    obtain ⟨hx, hxs⟩ := List.forall_mem_cons.mp hxs
    obtain ⟨hfirst, hrest⟩ := List.forall_mem_cons.mp h
    cases ys with
    | nil =>
      rw [separated_nil, List.nil_append, separated_cons, List.append_assoc] at same
      exact absurd (same ▸ hq) (stop x _ hx)
    | cons y ys =>
      obtain ⟨hy, hys⟩ := List.forall_mem_cons.mp hys
      rw [separated_cons, separated_cons] at same
      have next' : ∀ y r, admitted y → follows (separator ++ write y ++ r) := by
        intro y r _
        rw [List.append_assoc]
        exact next _
      have others : Readable (List.flatMap fun y => separator ++ write y)
          (fun ys => ∀ y ∈ ys, admitted y) follows' xs := by
        refine Readable.flatMap hxs (fun z hz => ?_) last next' fun y r _ => ?_
        · simpa using (hrest z hz).between separator [] fun r hr => hr
        · rw [List.append_assoc]
          exact stop' _
      have both := hfirst.pair others hxs
        fun ys r hys hr => Readable.follows_flatMap last next' hr hys
      obtain ⟨hpair, rfl⟩ := both (y := (y, ys)) ⟨hy, hys⟩ hr hq same
      obtain ⟨rfl, rfl⟩ := Prod.mk.inj hpair
      exact ⟨rfl, rfl⟩

end Separated

end SchemaTypes
