import Mathlib

/-!
# Finite maps kept in key order

`SortedMap K V` is a list of bindings whose keys increase strictly, so a key is bound at most once
and an iteration visits the bindings in key order. `insert` binds a key, `update` rewrites the
value of a bound key in place, `iter` folds a state over the bindings.
-/

/-- A finite map as the list of its bindings in key order. -/
structure SortedMap (K V : Type) [LinearOrder K] where
  entries : List (K × V)
  sorted : entries.Pairwise (fun a b => a.1 < b.1)

namespace SortedMap

variable {K V σ : Type} [LinearOrder K]

/-- The map with no binding. -/
def empty : SortedMap K V := ⟨[], .nil⟩

/-- The value bound to `k`. -/
def get (m : SortedMap K V) (k : K) : Option V := m.entries.lookup k

/-- `k ↦ v` put in its place in a list of bindings. -/
def insertEntries (k : K) (v : V) : List (K × V) → List (K × V)
  | [] => [(k, v)]
  | e :: es => if k < e.1 then (k, v) :: e :: es else
    if k = e.1 then (k, v) :: es else e :: insertEntries k v es

theorem mem_insertEntries {k : K} {v : V} {es : List (K × V)} {x : K × V}
    (h : x ∈ insertEntries k v es) : x = (k, v) ∨ x ∈ es := by
  induction es with
  | nil => simpa [insertEntries] using h
  | cons e es ih =>
    simp only [insertEntries] at h
    split at h
    · simpa using h
    · split at h
      · rcases List.mem_cons.1 h with h | h
        · exact .inl h
        · exact .inr (List.mem_cons_of_mem _ h)
      · rcases List.mem_cons.1 h with rfl | h
        · exact .inr List.mem_cons_self
        · exact (ih h).imp_right (List.mem_cons_of_mem _)

theorem insertEntries_sorted {k : K} {v : V} {es : List (K × V)}
    (h : es.Pairwise (fun a b => a.1 < b.1)) :
    (insertEntries k v es).Pairwise (fun a b => a.1 < b.1) := by
  induction es with
  | nil => simp [insertEntries]
  | cons e es ih =>
    obtain ⟨he, hes⟩ := List.pairwise_cons.1 h
    simp only [insertEntries]
    split
    · next hlt =>
      refine List.pairwise_cons.2 ⟨fun x hx => ?_, h⟩
      rcases List.mem_cons.1 hx with rfl | hx
      · exact hlt
      · exact lt_trans hlt (he x hx)
    · next hge =>
      split
      · next heq => exact List.pairwise_cons.2 ⟨fun x hx => heq ▸ he x hx, hes⟩
      · next hne =>
        refine List.pairwise_cons.2 ⟨fun x hx => ?_, ih hes⟩
        rcases mem_insertEntries hx with rfl | hx
        · exact lt_of_le_of_ne (not_lt.1 hge) (Ne.symm hne)
        · exact he x hx

/-- Bind `k` to `v`, replacing its binding if it has one. -/
def insert (m : SortedMap K V) (k : K) (v : V) : SortedMap K V :=
  ⟨insertEntries k v m.entries, insertEntries_sorted m.sorted⟩

/-- Rewrite the value bound to `k`, if any, in place. -/
def update (m : SortedMap K V) (k : K) (f : V → V) : SortedMap K V :=
  ⟨m.entries.map fun e => (e.1, if e.1 = k then f e.2 else e.2),
    List.pairwise_map.2 (m.sorted.imp fun h => h)⟩

/-- Fold a state over the bindings in key order. -/
def iter (m : SortedMap K V) (f : σ → K → V → σ) (s : σ) : σ :=
  m.entries.foldl (fun s e => f s e.1 e.2) s

/-! ## Lookups -/

@[simp] theorem get_empty (k : K) : (empty : SortedMap K V).get k = none := rfl

theorem lookup_of_mem {es : List (K × V)} (h : es.Pairwise (fun a b => a.1 < b.1)) {k : K} {v : V}
    (hm : (k, v) ∈ es) : es.lookup k = some v := by
  induction es with
  | nil => cases hm
  | cons e es ih =>
    obtain ⟨he, hes⟩ := List.pairwise_cons.1 h
    rcases List.mem_cons.1 hm with rfl | hm
    · simp [List.lookup]
    · have hne : (k == e.1) = false := by simpa using (ne_of_lt (he _ hm)).symm
      simp [List.lookup, hne, ih hes hm]

theorem mem_of_lookup {es : List (K × V)} {k : K} {v : V} (h : es.lookup k = some v) :
    (k, v) ∈ es := by
  induction es with
  | nil => cases h
  | cons e es ih =>
    obtain ⟨k', v'⟩ := e
    simp only [List.lookup] at h
    split at h
    · next heq => cases h; rw [eq_of_beq heq]; exact List.mem_cons_self
    · exact List.mem_cons_of_mem _ (ih h)

/-- The bindings a map lists are the ones it looks up. -/
theorem mem_entries {m : SortedMap K V} {k : K} {v : V} :
    (k, v) ∈ m.entries ↔ m.get k = some v :=
  ⟨lookup_of_mem m.sorted, mem_of_lookup⟩

theorem lookup_insertEntries {k : K} {v : V} {es : List (K × V)}
    (h : es.Pairwise (fun a b => a.1 < b.1)) (k' : K) :
    (insertEntries k v es).lookup k' = if k' = k then some v else es.lookup k' := by
  induction es with
  | nil =>
    simp only [insertEntries, List.lookup]
    by_cases hk : k' = k
    · simp [hk]
    · simp [hk, show (k' == k) = false by simpa using hk]
  | cons e es ih =>
    obtain ⟨he, hes⟩ := List.pairwise_cons.1 h
    simp only [insertEntries]
    by_cases hk : k' = k
    · subst hk
      split
      · simp [List.lookup]
      · next hge =>
        split
        · simp [List.lookup]
        · next hne => simp [List.lookup, show (k' == e.1) = false by simpa using hne, ih hes]
    · have hb : (k' == k) = false := by simpa using hk
      split
      · simp [List.lookup, hb]
      · split
        · next heq =>
          obtain ⟨k₁, v₁⟩ := e
          simp only at heq
          subst heq
          simp [List.lookup, hb]
        · obtain ⟨k₁, v₁⟩ := e
          simp only [List.lookup, ih hes, hk, if_false]

@[simp] theorem get_insert (m : SortedMap K V) (k k' : K) (v : V) :
    (m.insert k v).get k' = if k' = k then some v else m.get k' :=
  lookup_insertEntries m.sorted k'

@[simp] theorem get_update (m : SortedMap K V) (k k' : K) (f : V → V) :
    (m.update k f).get k' = if k' = k then (m.get k').map f else m.get k' := by
  obtain ⟨es, hs⟩ := m
  simp only [get, update]
  clear hs
  induction es with
  | nil => simp
  | cons e es ih =>
    simp only [List.map_cons, List.lookup]
    by_cases he : k' = e.1
    · subst he; by_cases hk : e.1 = k <;> simp [hk]
    · simp [show (k' == e.1) = false by simpa using he, ih]

/-! ## Iteration

An iteration whose step at `k` touches only what `w k` sees acts on each binding alone. -/

section
variable {τ : Type} {f : σ → K → V → σ} {w : K → σ → τ}

omit [LinearOrder K] in
theorem foldl_view_of_not_mem (hf : ∀ s k v k', k' ≠ k → w k' (f s k v) = w k' s) {k : K} :
    ∀ {es : List (K × V)} {s : σ}, (∀ e ∈ es, e.1 ≠ k) →
      w k (es.foldl (fun s e => f s e.1 e.2) s) = w k s
  | [], _, _ => rfl
  | e :: es, s, h => by
    rw [List.foldl_cons, foldl_view_of_not_mem hf fun e' he' => h e' (List.mem_cons_of_mem _ he')]
    exact hf _ _ _ _ (h e List.mem_cons_self).symm

/-- An iteration, seen at `k`, is its step at `k`'s binding. -/
theorem view_iter {I : σ → Prop} {g : K → V → τ → τ}
    (hI : ∀ s k v, I s → I (f s k v))
    (hf : ∀ s k v k', k' ≠ k → w k' (f s k v) = w k' s)
    (hg : ∀ s k v, I s → w k (f s k v) = g k v (w k s)) (m : SortedMap K V) {s : σ} (hs : I s)
    (k : K) :
    w k (m.iter f s) = match m.get k with
      | some v => g k v (w k s)
      | none => w k s := by
  obtain ⟨es, hsorted⟩ := m
  simp only [iter, get]
  induction es generalizing s with
  | nil => rfl
  | cons e es ih =>
    obtain ⟨he, hes⟩ := List.pairwise_cons.1 hsorted
    rw [List.foldl_cons]
    by_cases hk : k = e.1
    · subst hk
      rw [foldl_view_of_not_mem hf fun e' he' => (ne_of_lt (he e' he')).symm, hg _ _ _ hs]
      simp [List.lookup]
    · rw [ih (hI _ _ _ hs) hes, hf _ _ _ _ hk]
      simp [List.lookup, show (k == e.1) = false by simpa using hk]

/-- What every step of an iteration keeps, the iteration keeps. -/
theorem iter_induction {I : σ → Prop} (m : SortedMap K V) {s : σ} (hs : I s)
    (hI : ∀ s k v, m.get k = some v → I s → I (f s k v)) : I (m.iter f s) := by
  have key : ∀ (es : List (K × V)) (s : σ), (∀ e ∈ es, e ∈ m.entries) → I s →
      I (es.foldl (fun s e => f s e.1 e.2) s) := by
    intro es
    induction es with
    | nil => exact fun _ _ h => h
    | cons e es ih =>
      intro s hes h
      exact ih _ (fun e' he' => hes e' (List.mem_cons_of_mem _ he'))
        (hI _ _ _ (mem_entries.1 (hes e List.mem_cons_self)) h)
  exact key _ _ (fun _ h => h) hs

end

end SortedMap
