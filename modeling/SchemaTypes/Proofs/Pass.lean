import Mathlib.Data.List.Forall2

/-!
# Proofs/Pass — a step that may fail, taken for each item of a list

`List.mapM` in `Except` goes from left to right and stops at the first failure.  Two facts say all
of it:

* `mapM_eq_ok_iff` — a pass succeeds exactly when every step does, with the results in order.
* `failure?_mapM` — a pass fails as its first failing step does; `mapM_eq_error_iff` spells out the
  steps before and after, and `mapM_eq_error_iff_isFirst` finds that step by a property of its item.

Steps that hand a state on fail alike, if each fails by its item alone (`failure?_foldlM`).
-/

namespace SchemaTypes

variable {ε α β γ : Type}

/-! ## Results and failures -/

/-- The failure of a result that has one. -/
def failure? : Except ε α → Option ε
  | .ok _ => none
  | .error e => some e

@[simp] theorem failure?_ok (a : α) : failure? (.ok a : Except ε α) = none := rfl

@[simp] theorem failure?_error (e : ε) : failure? (.error e : Except ε α) = some e := rfl

theorem failure?_eq_some_iff {r : Except ε α} {e : ε} : failure? r = some e ↔ r = .error e := by
  cases r <;> simp

theorem failure?_eq_none_iff {r : Except ε α} : failure? r = none ↔ ∃ a, r = .ok a := by
  cases r <;> simp

theorem exists_error_iff {r : Except ε α} : (∃ e, r = .error e) ↔ failure? r ≠ none := by
  cases r <;> simp

theorem ne_ok_of_eq_error {r : Except ε α} {e : ε} (h : r = .error e) (a : α) : r ≠ .ok a := by
  simp [h]

@[simp] theorem failure?_map (r : Except ε α) (g : α → β) : failure? (r.map g) = failure? r := by
  cases r <;> rfl

theorem map_map (r : Except ε α) (g : α → β) (k : β → γ) : (r.map g).map k = r.map (k ∘ g) := by
  cases r <;> rfl

theorem map_eq_ok_iff {r : Except ε α} {g : α → β} {b : β} :
    r.map g = .ok b ↔ ∃ a, r = .ok a ∧ g a = b := by
  cases r <;> simp [Except.map]

theorem map_eq_error_iff {r : Except ε α} {g : α → β} {e : ε} :
    r.map g = .error e ↔ r = .error e := by
  cases r <;> simp [Except.map]

theorem mapError_eq_error_iff {r : Except ε α} {g : ε → γ} {e : γ} :
    r.mapError g = .error e ↔ ∃ cause, r = .error cause ∧ g cause = e := by
  cases r <;> simp [Except.mapError]

/-! ## One step -/

variable {f : α → Except ε β}

theorem mapM_cons_of_ok {x : α} {y : β} (hx : f x = .ok y) (xs : List α) :
    (x :: xs).mapM f = (xs.mapM f).map (y :: ·) := by
  rw [List.mapM_cons, hx]
  cases xs.mapM f <;> rfl

theorem mapM_cons_of_error {x : α} {e : ε} (hx : f x = .error e) (xs : List α) :
    (x :: xs).mapM f = .error e := by
  rw [List.mapM_cons, hx]
  rfl

/-! ## The whole pass -/

/-- Steps that agree on every item make the same pass. -/
theorem mapM_congr {g : α → Except ε β} : ∀ {xs : List α}, (∀ x ∈ xs, f x = g x) →
    xs.mapM f = xs.mapM g
  | [], _ => rfl
  | x :: xs, h => by
      obtain ⟨hx, hxs⟩ := List.forall_mem_cons.mp h
      rw [List.mapM_cons, List.mapM_cons, hx, mapM_congr hxs]

/-- A pass succeeds exactly when every step does — and then its results stand in order. -/
theorem mapM_eq_ok_iff : ∀ {xs : List α} {ys : List β},
    xs.mapM f = .ok ys ↔ List.Forall₂ (fun x y => f x = .ok y) xs ys
  | [], ys => by
      rw [List.forall₂_nil_left_iff]
      exact ⟨fun h => (Except.ok.inj h).symm, fun h => h ▸ rfl⟩
  | x :: xs, ys => by
      rw [List.forall₂_cons_left_iff]
      cases hx : f x with
      | error e =>
        rw [mapM_cons_of_error hx]
        exact ⟨nofun, fun ⟨_, _, h, _⟩ => nomatch h⟩
      | ok y =>
        rw [mapM_cons_of_ok hx, map_eq_ok_iff]
        constructor
        · rintro ⟨zs, hzs, rfl⟩
          exact ⟨y, zs, rfl, mapM_eq_ok_iff.mp hzs, rfl⟩
        · rintro ⟨z, zs, hz, hzs, rfl⟩
          obtain rfl := Except.ok.inj hz
          exact ⟨zs, mapM_eq_ok_iff.mpr hzs, rfl⟩

/-- A pass fails as its first failing step. -/
theorem failure?_mapM (f : α → Except ε β) : ∀ xs : List α,
    failure? (xs.mapM f) = xs.findSome? fun x => failure? (f x)
  | [] => rfl
  | x :: xs => by
      rw [List.findSome?_cons]
      cases hx : f x with
      | error e => rw [mapM_cons_of_error hx, failure?_error, failure?_error]
      | ok y => rw [mapM_cons_of_ok hx, failure?_map, failure?_mapM f xs, failure?_ok]

/-- A pass fails exactly when some step does and all steps before it succeed. -/
theorem mapM_eq_error_iff {xs : List α} {e : ε} : xs.mapM f = .error e ↔
    ∃ before x after, xs = before ++ x :: after ∧ (∀ b ∈ before, ∃ y, f b = .ok y) ∧
      f x = .error e := by
  rw [← failure?_eq_some_iff, failure?_mapM, List.findSome?_eq_some_iff]
  simp only [failure?_eq_some_iff, failure?_eq_none_iff]
  refine exists_congr fun before => exists_congr fun x => exists_congr fun after => ?_
  rw [and_comm (a := f x = .error e)]

/-- The first item of a list with a property: it has it, and none before it does. -/
def IsFirst (p : α → Prop) (xs : List α) (x : α) : Prop :=
  ∃ before after, xs = before ++ x :: after ∧ p x ∧ ∀ y ∈ before, ¬p y

theorem IsFirst.mem {p : α → Prop} {xs : List α} {x : α} : IsFirst p xs x → x ∈ xs ∧ p x := by
  rintro ⟨before, after, rfl, hx, -⟩
  exact ⟨List.mem_append_right _ List.mem_cons_self, hx⟩

/-- The first item of two lists is that of the first, or of the second if the first has none. -/
theorem isFirst_append {p : α → Prop} {xs ys : List α} {x : α} :
    IsFirst p (xs ++ ys) x ↔ IsFirst p xs x ∨ (∀ y ∈ xs, ¬p y) ∧ IsFirst p ys x := by
  constructor
  · rintro ⟨before, after, hsplit, hx, hbefore⟩
    obtain ⟨between, rfl, hrest⟩ | ⟨between, hrest, -⟩ := List.append_eq_append_iff.mp hsplit
    · obtain ⟨hxs, hbetween⟩ := List.forall_mem_append.mp hbefore
      exact .inr ⟨hxs, between, after, hrest, hx, hbetween⟩
    · cases between with
      | nil =>
        obtain rfl : xs = before := by simpa using hrest
        exact .inr ⟨hbefore, [], after, List.append_cancel_left hsplit, hx, nofun⟩
      | cons b between =>
        obtain ⟨rfl, -⟩ : x = b ∧ _ := by
          simpa [hrest] using hsplit.symm
        exact .inl ⟨before, between, hrest, hx, hbefore⟩
  · rintro (⟨before, after, rfl, hx, hbefore⟩ | ⟨hxs, before, after, rfl, hx, hbefore⟩)
    · exact ⟨before, after ++ ys, by simp, hx, hbefore⟩
    · exact ⟨xs ++ before, after, by simp, hx, List.forall_mem_append.mpr ⟨hxs, hbefore⟩⟩

/-- An item put last is never first if it was there before or lacks the property. -/
theorem isFirst_concat_of_old {p : α → Prop} {xs : List α} {last x : α}
    (old : p last → last ∈ xs) : IsFirst p (xs ++ [last]) x ↔ IsFirst p xs x := by
  rw [isFirst_append, or_iff_left]
  rintro ⟨lacking, here⟩
  obtain ⟨hlast, has⟩ := here.mem
  obtain rfl := List.mem_singleton.mp hlast
  exact lacking _ (old has) has

theorem isFirst_congr {p q : α → Prop} {xs : List α} {x : α} (h : ∀ y ∈ xs, (p y ↔ q y)) :
    IsFirst p xs x ↔ IsFirst q xs x := by
  refine exists_congr fun before => exists_congr fun after => and_congr_right ?_
  rintro rfl
  refine and_congr (h x (by simp)) (forall₂_congr fun y hy => not_congr (h y ?_))
  exact List.mem_append_left _ hy

/-- The first of some images is the image of the first. -/
theorem isFirst_map {g : β → α} {p : α → Prop} {ys : List β} {x : α} :
    IsFirst p (ys.map g) x ↔ ∃ y, g y = x ∧ IsFirst (fun z => p (g z)) ys y := by
  constructor
  · rintro ⟨before, after, hsplit, hx, hbefore⟩
    obtain ⟨ysBefore, rest, rfl, rfl, hrest⟩ := List.map_eq_append_iff.mp hsplit
    obtain ⟨y, ysAfter, rfl, rfl, -⟩ := List.map_eq_cons_iff.mp hrest
    exact ⟨y, rfl, ysBefore, ysAfter, rfl, hx, fun z hz => hbefore (g z) (List.mem_map_of_mem hz)⟩
  · rintro ⟨y, rfl, before, after, rfl, hy, hbefore⟩
    exact ⟨before.map g, after.map g, by simp, hy, by simpa using hbefore⟩

/-- A search finds what the first item gives that gives anything. -/
theorem findSome?_eq_some_iff_isFirst {g : α → Option β} {xs : List α} {b : β} :
    xs.findSome? g = some b ↔ ∃ x, IsFirst (g · ≠ none) xs x ∧ g x = some b := by
  rw [List.findSome?_eq_some_iff]
  constructor
  · rintro ⟨before, x, after, hxs, hx, hbefore⟩
    exact ⟨x, ⟨before, after, hxs, by simp [hx], by simpa using hbefore⟩, hx⟩
  · rintro ⟨x, ⟨before, after, hxs, -, hbefore⟩, hx⟩
    exact ⟨before, x, after, hxs, hx, by simpa using hbefore⟩

/-- Where a property says which steps fail, a pass fails as the step of the first item that has
it. -/
theorem mapM_eq_error_iff_isFirst {p : α → Prop} (fails : ∀ x, (∃ e, f x = .error e) ↔ p x)
    {xs : List α} {e : ε} : xs.mapM f = .error e ↔ ∃ x, IsFirst p xs x ∧ f x = .error e := by
  have succeeds (x : α) : (∃ y, f x = .ok y) ↔ ¬p x := by
    rw [← fails, ← failure?_eq_none_iff, exists_error_iff, not_not]
  simp only [mapM_eq_error_iff, succeeds]
  constructor
  · rintro ⟨before, x, after, hxs, hbefore, hx⟩
    exact ⟨x, ⟨before, after, hxs, (fails x).mp ⟨e, hx⟩, hbefore⟩, hx⟩
  · rintro ⟨x, ⟨before, after, hxs, -, hbefore⟩, hx⟩
    exact ⟨before, x, after, hxs, hbefore, hx⟩

/-- Where every step succeeds, a pass is a map. -/
theorem mapM_eq_ok_map {g : α → β} {xs : List α} (h : ∀ x ∈ xs, f x = .ok (g x)) :
    xs.mapM f = .ok (xs.map g) := by
  rw [mapM_eq_ok_iff, List.forall₂_map_right_iff, List.forall₂_same]
  exact h

/-- Where a step fails by its item alone, steps taken one after the other fail as the first that
fails. -/
theorem failure?_foldlM {σ : Type} {g : σ → α → Except ε σ} {fails : α → Option ε}
    (alone : ∀ s x, failure? (g s x) = fails x) : ∀ (xs : List α) (s : σ),
      failure? (xs.foldlM g s) = xs.findSome? fails
  | [], s => rfl
  | x :: xs, s => by
      rw [List.foldlM_cons, List.findSome?_cons, ← alone s x]
      cases g s x with
      | error e => rfl
      | ok next => exact failure?_foldlM alone xs next

/-- Some step fails exactly when the pass does. -/
theorem exists_mapM_eq_error_iff {xs : List α} :
    (∃ e, xs.mapM f = .error e) ↔ ∃ x ∈ xs, ∃ e, f x = .error e := by
  rw [exists_error_iff, failure?_mapM, ne_eq, List.findSome?_eq_none_iff]
  simp only [exists_error_iff, not_forall, exists_prop, ne_eq]

/-! ## Two lists, item by item -/

/-- Each item on the left has its partner in the same place. -/
theorem getElem?_of_forall₂_left {R : α → β → Prop} {x : α} :
    ∀ {xs : List α} {ys : List β} {i : ℕ}, List.Forall₂ R xs ys → xs[i]? = some x →
      ∃ y, ys[i]? = some y ∧ R x y
  | _ :: _, y :: _, 0, .cons hxy _, hx => ⟨y, rfl, Option.some.inj hx ▸ hxy⟩
  | _ :: xs, _ :: ys, i + 1, .cons _ h, hx => by
      rw [List.getElem?_cons_succ] at hx ⊢
      exact getElem?_of_forall₂_left h hx

/-- Each item on the right has its partner in the same place. -/
theorem getElem?_of_forall₂_right {R : α → β → Prop} {xs : List α} {ys : List β} {i : ℕ} {y : β}
    (h : List.Forall₂ R xs ys) (hy : ys[i]? = some y) : ∃ x, xs[i]? = some x ∧ R x y :=
  getElem?_of_forall₂_left (R := flip R) h.flip hy

end SchemaTypes
