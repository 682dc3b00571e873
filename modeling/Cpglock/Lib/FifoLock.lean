import Mathlib
import Cpglock.Lib.Transition

/-!
# A lock with a queue

`FifoLock κ`: the requests `κ` for a lock in the order in which they were asked for, how many of them
were granted and how many released. Requests are granted in their order, and the next one only when
the one before it is released: both are fields, so a state in which two requests hold the lock cannot be
built. The steps that lead from one state to another are exactly those that let the lists and numbers
grow (`FifoLock.reaches_iff`).
-/

structure FifoLock (κ : Type) where
  asked : List κ
  granted : ℕ
  released : ℕ
  nodup : asked.Nodup
  granted_le : granted ≤ asked.length
  released_le : released ≤ granted
  one : granted ≤ released + 1

namespace FifoLock

variable {κ : Type} {l l' : FifoLock κ}

@[ext] theorem ext (ha : l.asked = l'.asked) (hg : l.granted = l'.granted)
    (hr : l.released = l'.released) : l = l' := by
  cases l
  cases l'
  cases ha
  cases hg
  cases hr
  rfl

/-- Nothing was asked for. -/
def empty : FifoLock κ := ⟨[], 0, 0, List.nodup_nil, le_rfl, le_rfl, Nat.zero_le _⟩

/-- The request that has the lock. -/
def holder (l : FifoLock κ) : Option κ :=
  if l.granted = l.released then none else l.asked[l.released]?

theorem holder_mem {k : κ} (h : l.holder = some k) : k ∈ l.asked := by
  unfold holder at h
  split at h
  · cases h
  · exact List.mem_of_getElem? h

/-- Earlier states of a lock are less than later ones. -/
instance : PartialOrder (FifoLock κ) where
  le l l' := l.asked <+: l'.asked ∧ l.granted ≤ l'.granted ∧ l.released ≤ l'.released
  le_refl l := ⟨List.prefix_rfl, le_rfl, le_rfl⟩
  le_trans a b c hab hbc :=
    ⟨hab.1.trans hbc.1, hab.2.1.trans hbc.2.1, hab.2.2.trans hbc.2.2⟩
  le_antisymm a b hab hba := by
    refine ext ?_ (le_antisymm hab.2.1 hba.2.1) (le_antisymm hab.2.2 hba.2.2)
    exact hab.1.eq_of_length (le_antisymm hab.1.length_le hba.1.length_le)

inductive Act (κ : Type)
  | ask (k : κ)
  | grant
  | release

variable [DecidableEq κ]

/-- One step, `none` where it is not enabled. -/
def step (l : FifoLock κ) : Act κ → Option (FifoLock κ)
  | .ask k =>
    if h : k ∉ l.asked then
      some { l with
        asked := l.asked ++ [k]
        nodup := List.nodup_append.2 ⟨l.nodup, List.nodup_singleton k, fun a ha b hb hab =>
          h (List.mem_singleton.1 hb ▸ hab ▸ ha)⟩
        granted_le := by
          have := l.granted_le
          rw [List.length_append]
          omega }
    else none
  | .grant =>
    if h : l.granted = l.released ∧ l.granted < l.asked.length then
      some { l with
        granted := l.granted + 1
        granted_le := h.2
        released_le := by omega
        one := by omega }
    else none
  | .release =>
    if h : l.released < l.granted then
      some { l with
        released := l.released + 1
        released_le := h
        one := by
          have := l.one
          omega }
    else none

theorem step_cases {a : Act κ} (h : l.step a = some l') :
    (∃ k, l'.asked = l.asked ++ [k] ∧ l'.granted = l.granted ∧ l'.released = l.released) ∨
    (l'.asked = l.asked ∧ l'.granted = l.granted + 1 ∧ l'.released = l.released) ∨
    l'.asked = l.asked ∧ l'.granted = l.granted ∧ l'.released = l.released + 1 := by
  cases a with
  | ask k =>
    simp only [step] at h
    split at h
    · obtain rfl := Option.some.inj h
      exact .inl ⟨k, rfl, rfl, rfl⟩
    · cases h
  | grant =>
    simp only [step] at h
    split at h
    · obtain rfl := Option.some.inj h
      exact .inr (.inl ⟨rfl, rfl, rfl⟩)
    · cases h
  | release =>
    simp only [step] at h
    split at h
    · obtain rfl := Option.some.inj h
      exact .inr (.inr ⟨rfl, rfl, rfl⟩)
    · cases h

theorem le_of_step {a : Act κ} (h : l.step a = some l') : l ≤ l' := by
  rcases step_cases h with ⟨k, ha, hg, hr⟩ | ⟨ha, hg, hr⟩ | ⟨ha, hg, hr⟩
  · exact ⟨ha ▸ List.prefix_append _ _, hg.ge, hr.ge⟩
  · exact ⟨ha ▸ List.prefix_rfl, hg ▸ Nat.le_succ _, hr.ge⟩
  · exact ⟨ha ▸ List.prefix_rfl, hg.ge, hr ▸ Nat.le_succ _⟩

/-- As many steps as there are requests, grants and releases between two states. -/
def distance (l l' : FifoLock κ) : ℕ :=
  (l'.asked.length - l.asked.length) + (l'.granted - l.granted) + (l'.released - l.released)

/-- A state that is less than another one has a step towards it. -/
theorem exists_step (h : l < l') : ∃ a l₁, l.step a = some l₁ ∧ l₁ ≤ l' ∧
    distance l₁ l' < distance l l' := by
  obtain ⟨⟨ha, hg, hr⟩, hne⟩ := lt_iff_le_and_ne.1 h
  obtain ⟨rest, hrest⟩ := ha
  have hlen := congrArg List.length hrest
  rw [List.length_append] at hlen
  cases rest with
  | cons k rest =>
    -- a request is missing
    have hfresh : k ∉ l.asked := by
      have hnodup := l'.nodup
      rw [← hrest] at hnodup
      exact fun hk => (List.nodup_append.1 hnodup).2.2 k hk k List.mem_cons_self rfl
    refine ⟨.ask k, _, dif_pos hfresh, ⟨⟨rest, by simp [hrest]⟩, hg, hr⟩, ?_⟩
    simp only [distance, List.length_append, List.length_cons, List.length_nil] at hlen ⊢
    omega
  | nil =>
    rw [List.append_nil] at hrest
    by_cases hbusy : l.released < l.granted
    · by_cases hrel : l.released < l'.released
      · refine ⟨.release, _, dif_pos hbusy, ⟨⟨[], by simp [hrest]⟩, hg, hrel⟩, ?_⟩
        simp only [distance]
        omega
      · -- the other one has granted no more, so it is the same
        have h1 := l.one
        have h2 := l'.one
        exact absurd (ext hrest (by omega) (by omega)) hne
    · have hlt : l.granted < l'.granted := by
        by_contra hlt
        have h1 := l.released_le
        have h2 := l'.released_le
        exact hne (ext hrest (by omega) (by omega))
      have h3 := l.released_le
      have h4 := l'.granted_le
      refine ⟨.grant, _, dif_pos ⟨by omega, by rw [hrest]; omega⟩, ⟨⟨[], by simp [hrest]⟩, hlt, hr⟩, ?_⟩
      simp only [distance]
      omega

/-- What the lock can still become. -/
theorem reaches_iff : Transition.Reaches step l l' ↔ l ≤ l' := by
  constructor
  · intro h
    exact h.invariant (I := fun m => l ≤ m) le_rfl fun hi _ hs => hi.trans (le_of_step hs)
  · intro h
    induction hd : distance l l' using Nat.strong_induction_on generalizing l with
    | _ n ih =>
      rcases h.eq_or_lt with rfl | hlt
      · exact .start
      · obtain ⟨a, l₁, hstep, hle, hlt⟩ := exists_step hlt
        exact (Transition.Run.next .start trivial hstep).trans (ih _ (hd ▸ hlt) hle rfl)

end FifoLock
