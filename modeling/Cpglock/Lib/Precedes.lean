import Mathlib

/-!
# Precedence in a list

`Precedes l a b`: `a` occurs in `l` ahead of every occurrence of `b`. The relation survives
appending, and removing elements other than `a`; an element that something precedes is not the
first.
-/

variable {α : Type}

/-- `a` occurs in `l`, and `b` does not occur up to there. -/
def Precedes (l : List α) (a b : α) : Prop := ∃ l₁ l₂, l = l₁ ++ l₂ ∧ a ∈ l₁ ∧ b ∉ l₁

namespace Precedes

theorem mem {l : List α} {a b : α} (h : Precedes l a b) : a ∈ l := by
  obtain ⟨l₁, l₂, rfl, ha, -⟩ := h
  exact List.mem_append_left _ ha

theorem append {l : List α} {a b : α} (h : Precedes l a b) (t : List α) :
    Precedes (l ++ t) a b := by
  obtain ⟨l₁, l₂, rfl, ha, hb⟩ := h
  exact ⟨l₁, l₂ ++ t, List.append_assoc .., ha, hb⟩

theorem of_mem_append {l : List α} {a b : α} (ha : a ∈ l) (hb : b ∉ l) (t : List α) :
    Precedes (l ++ t) a b := ⟨l, t, rfl, ha, hb⟩

theorem head?_ne {l : List α} {a b : α} (h : Precedes l a b) : l.head? ≠ some b := by
  obtain ⟨l₁, l₂, rfl, ha, hb⟩ := h
  cases l₁ with
  | nil => cases ha
  | cons x l₁ =>
    intro hh
    simp only [List.cons_append, List.head?_cons, Option.some.injEq] at hh
    exact hb (hh ▸ List.mem_cons_self)

/-- A removal that keeps `a` wherever it occurs keeps what `a` precedes. -/
theorem sublist {β : Type} {f : β → α} {l l' : List β} {a b : α}
    (h : Precedes (l.map f) a b) (hs : ∀ l₁ l₂, l = l₁ ++ l₂ → a ∈ l₁.map f →
      ∃ l₁' l₂', l' = l₁' ++ l₂' ∧ a ∈ l₁'.map f ∧ l₁'.Sublist l₁) : Precedes (l'.map f) a b := by
  obtain ⟨m₁, m₂, hl, ha, hb⟩ := h
  obtain ⟨l₁, l₂, rfl, rfl, rfl⟩ := List.map_eq_append_iff.1 hl
  obtain ⟨l₁', l₂', rfl, ha', hsub⟩ := hs l₁ l₂ rfl ha
  exact ⟨l₁'.map f, l₂'.map f, List.map_append .., ha', fun hb' => hb ((hsub.map f).subset hb')⟩

/-- Erasing the first element with a property that no `a` has. -/
theorem eraseP {β : Type} {f : β → α} {p : β → Bool} {l : List β} {a b : α}
    (h : Precedes (l.map f) a b) (hp : ∀ x ∈ l, p x = true → f x ≠ a) :
    Precedes ((l.eraseP p).map f) a b := by
  refine h.sublist fun l₁ l₂ hl ha => ?_
  subst hl
  rw [List.eraseP_append]
  split
  · refine ⟨l₁.eraseP p, l₂, rfl, ?_, List.eraseP_sublist⟩
    obtain ⟨x, hx, rfl⟩ := List.mem_map.1 ha
    refine List.mem_map_of_mem ((List.mem_eraseP_of_neg fun hpx => ?_).2 hx)
    exact hp x (List.mem_append_left _ hx) hpx rfl
  · exact ⟨l₁, l₂.eraseP p, rfl, ha, List.Sublist.refl _⟩

end Precedes
