import Mathlib

/-!
# Descriptors of a process

The calls of a process on its descriptors: the kernel opens one that is not open, the process uses
and closes it. `openAfter calls` are the open ones, in the order in which they were opened. A call
`Finds` its descriptor when the kernel can answer it: what is used or closed is open. `AllFind` says
so of each call of a list; it may be checked call by call (`allFind_append`).
-/

/-- A call on a descriptor; `ω` are the ways to use one. -/
inductive FdCall (ω : Type)
  | opens (fd : ℕ)
  | uses (fd : ℕ) (op : ω)
  | closes (fd : ℕ)
deriving DecidableEq

namespace FdCall

variable {ω : Type} {fds : List ℕ} {calls calls' : List (FdCall ω)} {c : FdCall ω} {fd : ℕ}

/-- The open descriptors after a call. -/
def after (fds : List ℕ) : FdCall ω → List ℕ
  | opens fd => fds ++ [fd]
  | uses _ _ => fds
  | closes fd => fds.erase fd

/-- The kernel can answer the call. -/
def Finds (fds : List ℕ) : FdCall ω → Prop
  | opens fd => fd ∉ fds
  | uses fd _ => fd ∈ fds
  | closes fd => fd ∈ fds

instance (fds : List ℕ) (c : FdCall ω) : Decidable (c.Finds fds) := by
  cases c <;> unfold Finds <;> infer_instance

/-- The open descriptors after a list of calls. -/
def openAfter (calls : List (FdCall ω)) : List ℕ := calls.foldl after []

@[simp] theorem openAfter_nil : openAfter ([] : List (FdCall ω)) = [] := rfl

theorem openAfter_append : openAfter (calls ++ calls') = calls'.foldl after (openAfter calls) :=
  List.foldl_append

@[simp] theorem openAfter_concat : openAfter (calls ++ [c]) = c.after (openAfter calls) := by
  rw [openAfter_append, List.foldl_cons, List.foldl_nil]

/-- Uses open and close nothing. -/
theorem openAfter_uses {us : List (ℕ × ω)} :
    openAfter (calls ++ us.map fun u => uses u.1 u.2) = openAfter calls := by
  rw [openAfter_append]
  induction us with
  | nil => rfl
  | cons u us ih => exact ih

/-- Each call that `P` does not excuse finds its descriptor; `P` looks at the calls before it. -/
def AllFind (P : List (FdCall ω) → FdCall ω → Prop) (calls : List (FdCall ω)) : Prop :=
  ∀ pre c post, calls = pre ++ c :: post → c.Finds (openAfter pre) ∨ P pre c

variable {P : List (FdCall ω) → FdCall ω → Prop}

theorem allFind_nil : AllFind P ([] : List (FdCall ω)) := by
  rintro pre c post h
  cases pre <;> cases h

theorem allFind_concat : AllFind P (calls ++ [c]) ↔
    AllFind P calls ∧ (c.Finds (openAfter calls) ∨ P calls c) := by
  constructor
  · intro h
    refine ⟨fun pre c' post he => h pre c' (post ++ [c]) (by simp [he]), h calls c [] rfl⟩
  · rintro ⟨h, hc⟩ pre c' post he
    rcases List.eq_nil_or_concat' post with rfl | ⟨post, x, rfl⟩
    · obtain ⟨rfl, hsame⟩ := List.append_inj' he rfl
      obtain rfl := List.singleton_inj.1 hsame
      exact hc
    · rw [← List.cons_append, ← List.append_assoc] at he
      exact h pre c' post (List.append_inj' he rfl).1

/-- Uses of open descriptors. -/
theorem AllFind.uses (h : AllFind P calls) {us : List (ℕ × ω)}
    (hu : ∀ u ∈ us, u.1 ∈ openAfter calls) : AllFind P (calls ++ us.map fun u => uses u.1 u.2) := by
  induction us using List.reverseRecOn with
  | nil => simpa using h
  | append_singleton us u ih =>
    rw [List.map_append, List.map_singleton, ← List.append_assoc, allFind_concat, openAfter_uses]
    exact ⟨ih fun u hu' => hu u (List.mem_append_left _ hu'), .inl (hu u (by simp))⟩

/-- All open descriptors are closed, in the order in which they were opened. -/
theorem AllFind.close_all (h : AllFind P calls) :
    AllFind P (calls ++ (openAfter calls).map closes) ∧
      openAfter (calls ++ (openAfter calls).map closes) = [] := by
  suffices hs : ∀ fds calls, AllFind P calls → openAfter calls = fds →
      AllFind P (calls ++ fds.map closes) ∧ openAfter (calls ++ fds.map closes) = [] from
    hs _ _ h rfl
  intro fds
  induction fds with
  | nil => exact fun calls h he => ⟨by simpa using h, by simpa using he⟩
  | cons fd fds ih =>
    intro calls h he
    have hc : AllFind P (calls ++ [closes fd]) :=
      allFind_concat.2 ⟨h, .inl (he ▸ List.mem_cons_self)⟩
    have := ih (calls ++ [closes fd]) hc (by rw [openAfter_concat, he, after, List.erase_cons_head])
    simpa using this

/-- What the kernel opens is open once. -/
theorem AllFind.nodup (h : AllFind P calls) (hP : ∀ pre fd, ¬P pre (opens fd)) :
    (openAfter calls).Nodup := by
  induction calls using List.reverseRecOn with
  | nil => exact List.nodup_nil
  | append_singleton calls c ih =>
    obtain ⟨hcalls, hc⟩ := allFind_concat.1 h
    have ih := ih hcalls
    rw [openAfter_concat]
    cases c with
    | opens fd =>
      refine List.nodup_append.2 ⟨ih, List.nodup_singleton fd, fun a ha b hb hab => ?_⟩
      rw [hab, List.mem_singleton.1 hb] at ha
      exact hc.resolve_right (hP _ _) ha
    | uses fd op => exact ih
    | closes fd => exact ih.erase fd

end FdCall
