import Mathlib

/-!
# Lists from which elements are missing

`Missing D xs ys`: `xs` is `ys` without some of the elements that satisfy `D`. Appending, erasing
and filtering on both sides keep this, and once nothing in `ys` satisfies `D` the lists are equal.
-/

variable {α : Type} {D D' : α → Bool} {xs ys : List α}

structure Missing (D : α → Bool) (xs ys : List α) : Prop where
  sub : List.Sublist xs ys
  rest : xs.filter (fun x => !D x) = ys.filter fun x => !D x

namespace Missing

theorem refl (D : α → Bool) (xs : List α) : Missing D xs xs := ⟨List.Sublist.refl _, rfl⟩

theorem append (h : Missing D xs ys) (l : List α) : Missing D (xs ++ l) (ys ++ l) :=
  ⟨h.sub.append_right l, by rw [List.filter_append, List.filter_append, h.rest]⟩

theorem erase [DecidableEq α] (h : Missing D xs ys) (k : α) :
    Missing D (xs.erase k) (ys.erase k) :=
  ⟨h.sub.erase k, by rw [← List.erase_filter, ← List.erase_filter, h.rest]⟩

theorem filter (h : Missing D xs ys) (p : α → Bool) :
    Missing D (xs.filter p) (ys.filter p) := by
  refine ⟨h.sub.filter p, ?_⟩
  rw [List.filter_comm, h.rest, List.filter_comm]

/-- More elements that satisfy `D` go. -/
theorem filter_left (h : Missing D xs ys) {p : α → Bool} (hp : ∀ x ∈ xs, p x = false → D x = true) :
    Missing D (xs.filter p) ys := by
  refine ⟨List.filter_sublist.trans h.sub, ?_⟩
  rw [← h.rest, List.filter_filter]
  refine List.filter_congr fun x hx => ?_
  cases hpx : p x with
  | true => simp
  | false => simp [hp x hx hpx]

/-- `D` may change as long as its elements in `ys` keep it. -/
theorem mono (h : Missing D xs ys) (hD : ∀ y ∈ ys, D y = true → D' y = true) :
    Missing D' xs ys := by
  refine ⟨h.sub, ?_⟩
  have key : ∀ l : List α, (∀ y ∈ l, D y = true → D' y = true) →
      l.filter (fun x => !D' x) = (l.filter fun x => !D x).filter fun x => !D' x := by
    intro l hl
    rw [List.filter_filter]
    refine List.filter_congr fun y hy => ?_
    cases hy' : D y with
    | true => simp [hl y hy hy']
    | false => simp
  rw [key xs fun y hy => hD y (h.sub.subset hy), key ys hD, h.rest]

theorem eq (h : Missing D xs ys) (hD : ∀ y ∈ ys, D y = false) : xs = ys := by
  have key : ∀ l : List α, (∀ y ∈ l, D y = false) → l.filter (fun x => !D x) = l :=
    fun l hl => List.filter_eq_self.2 fun y hy => by simp [hl y hy]
  rw [← key xs fun y hy => hD y (h.sub.subset hy), ← key ys hD, h.rest]

end Missing
