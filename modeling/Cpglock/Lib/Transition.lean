import Mathlib
/-!
# Labelled transition systems given by a partial step function

`Run step P s₀ s`: from `s₀` the system reaches `s` by steps whose label and source state satisfy
`P` (the environment's promise). `Run.invariant` is the induction every safety result uses: what
holds at the start and is kept by one allowed step holds in every state reached.
-/

namespace Transition

variable {σ α : Type} {step : σ → α → Option σ} {P Q : σ → α → Prop}

/-- `s` is reached from `s₀` by steps allowed by `P`. -/
inductive Run (step : σ → α → Option σ) (P : σ → α → Prop) (s₀ : σ) : σ → Prop
  | start : Run step P s₀ s₀
  | next {s s' : σ} {a : α} : Run step P s₀ s → P s a → step s a = some s' → Run step P s₀ s'

/-- The induction rule of safety: `I` holds at the start and every allowed step keeps it. -/
theorem Run.invariant {I : σ → Prop} {s₀ s : σ} (h : Run step P s₀ s) (h0 : I s₀)
    (hs : ∀ {s s' a}, I s → P s a → step s a = some s' → I s') : I s := by
  induction h with
  | start => exact h0
  | next _ hp hstep ih => exact hs ih hp hstep

/-- As `Run.invariant`, with an invariant already proved of every state on the way. -/
theorem Run.invariant_of {I J : σ → Prop} {s₀ s : σ} (h : Run step P s₀ s)
    (hj : ∀ {s}, Run step P s₀ s → J s) (h0 : I s₀)
    (hs : ∀ {s s' a}, J s → J s' → I s → P s a → step s a = some s' → I s') : I s := by
  induction h with
  | start => exact h0
  | next hr hp hstep ih => exact hs (hj hr) (hj (.next hr hp hstep)) ih hp hstep

theorem Run.mono {s₀ s : σ} (h : Run step P s₀ s) (hpq : ∀ s a, P s a → Q s a) :
    Run step Q s₀ s := by
  induction h with
  | start => exact .start
  | next _ hp hstep ih => exact .next ih (hpq _ _ hp) hstep

/-- A promise that the promised runs imply may be added. -/
theorem Run.strengthen {s₀ s : σ} (h : Run step P s₀ s)
    (hq : ∀ s a, Run step (fun s a => P s a ∧ Q s a) s₀ s → P s a → Q s a) :
    Run step (fun s a => P s a ∧ Q s a) s₀ s := by
  induction h with
  | start => exact .start
  | next _ hp hstep ih => exact .next ih ⟨hp, hq _ _ ih hp⟩ hstep

theorem Run.trans {s₀ s₁ s₂ : σ} (h₁ : Run step P s₀ s₁) (h₂ : Run step P s₁ s₂) :
    Run step P s₀ s₂ := by
  induction h₂ with
  | start => exact h₁
  | next _ hp hstep ih => exact .next ih hp hstep

/-- `s` is reached from `s₀` by any steps. -/
abbrev Reaches (step : σ → α → Option σ) : σ → σ → Prop := Run step fun _ _ => True

/-- Forward simulation: if every allowed step from a state that `t` stands for leads to a state that
some `t'` stands for, reached from `t`, then so does every run. -/
theorem Run.simulates {τ β : Type} {step' : τ → β → Option τ} {R : σ → τ → Prop} {s₀ s : σ} {t₀ : τ}
    (h : Run step P s₀ s) (h₀ : R s₀ t₀)
    (hstep : ∀ {s s' a t}, Run step P s₀ s → P s a → step s a = some s' → R s t →
      ∃ t', R s' t' ∧ Reaches step' t t') : ∃ t, R s t ∧ Reaches step' t₀ t := by
  induction h with
  | start => exact ⟨t₀, h₀, .start⟩
  | next hr hp hs ih =>
    obtain ⟨t, ht, hreach⟩ := ih
    obtain ⟨t', ht', hreach'⟩ := hstep hr hp hs ht
    exact ⟨t', ht', hreach.trans hreach'⟩

/-- The state after a list of labels, each allowed by the decidable promise `p`. -/
def exec (step : σ → α → Option σ) (p : σ → α → Bool) : σ → List α → Option σ
  | s, [] => some s
  | s, a :: as => if p s a then (step s a).bind fun s' => exec step p s' as else none

/-- A computed run is a run. -/
theorem Run.of_exec {p : σ → α → Bool} (hp : ∀ s a, p s a = true → P s a) {as : List α} :
    ∀ {s s' : σ}, exec step p s as = some s' → Run step P s s' := by
  induction as with
  | nil => intro s s' h; cases h; exact .start
  | cons a as ih =>
    intro s s' h
    simp only [exec] at h
    split at h
    · next hpa =>
      obtain ⟨s₁, h₁, h₂⟩ := Option.bind_eq_some_iff.1 h
      exact (Run.next .start (hp _ _ hpa) h₁).trans (ih h₂)
    · cases h

/-- A computed run to a state that passes a check. -/
theorem Run.of_check {p : σ → α → Bool} (hp : ∀ s a, p s a = true → P s a) {as : List α} {s : σ}
    {q : σ → Bool} (h : (exec step p s as).any q = true) : ∃ s', Run step P s s' ∧ q s' = true := by
  obtain ⟨s', hs', hq⟩ := (Option.any_eq_true _ _).1 h
  exact ⟨s', .of_exec hp hs', hq⟩

end Transition
