import Cpglock.Daemon.Proof.Requests
import Cpglock.Group.Proof.Sound

/-!
# The induction rule for runs

An invariant of a run is given in two parts: `L`, of every message in the order and the part of the
order before it, and `I`, of every live daemon's view and the part of the order behind it. By
`Runs.rule` it is enough that `I` holds of a daemon that starts, that `I` of the sender gives `L` of
the message that is ordered, and that one step of one view keeps `I`.
-/

namespace Cpglock

/-- Every message of the order has `L`, with what was ordered before it and its sender. -/
def Ordered (L : List Event → UInt32 → CpgLockMsg → Prop) (log : List Event) : Prop :=
  ∀ k x m, log[k]? = some (.msg x m) → L (log.take k) x.nodeid m

/-- Every live daemon's view has `I`, with the events behind it. -/
def Sys.Views (s : Sys) (I : List Event → UInt32 → Daemon → Prop) : Prop :=
  ∀ n nd, s.nodes n = some nd → I (s.log.take nd.pos) n (nd.view s.log n)

/-- An own message that is delivered was the first that waited in the cells it concerns. -/
theorem cell_pop {n : UInt32} {v : Daemon} {x : MemberItem} {m : CpgLockMsg}
    {out : List CpgLockMsg} (h : v.out = if x.nodeid = n then m :: out else out) (r : Resource) :
    v.cell r = { ({ v with out } : Daemon).cell r with
      sent := (if x.nodeid = n ∧ m.concerns r then [m] else []) ++
        (({ v with out } : Daemon).cell r).sent } := by
  simp only [Daemon.cell, h]
  by_cases hx : x.nodeid = n
  · by_cases hc : m.concerns r <;> simp [hx, hc]
  · simp [hx]

theorem Ordered.append {L : List Event → UInt32 → CpgLockMsg → Prop} {log : List Event} {e : Event}
    (h : Ordered L log) (he : ∀ x m, e = .msg x m → L log x.nodeid m) : Ordered L (log ++ [e]) := by
  intro k x m hk
  obtain ⟨hlt, hk'⟩ := List.getElem?_eq_some_iff.1 hk
  simp only [List.length_append, List.length_cons, List.length_nil] at hlt
  by_cases hlast : k = log.length
  · subst hlast
    have hke : e = .msg x m := by simpa using hk
    rw [List.take_left]
    exact he x m hke
  · have hlt' : k < log.length := by omega
    rw [List.getElem?_append_left hlt'] at hk
    rw [List.take_append_of_le_length hlt'.le]
    exact h k x m hk

theorem Runs.rule {P : Sys → Act → Prop} {L : List Event → UInt32 → CpgLockMsg → Prop}
    {I : List Event → UInt32 → Daemon → Prop} {s₀ s : Sys} (h : Runs P s₀ s) (h₀ : s₀.Sound)
    (log₀ : Ordered L s₀.log) (views₀ : s₀.Views I)
    (enter : ∀ (s : Sys) members left join boot, s.Sound → Runs P s₀ s →
      P s (.confchg members left join boot) → s.ConfOk members left join →
      ∀ x b, x ∈ join → x.nodeid ≠ 0 → I s.log x.nodeid (.start x b))
    (order : ∀ (s : Sys) n nd m out, s.Sound → Runs P s₀ s → P s (.order n) → Ordered L s.log →
      s.Views I → s.nodes n = some nd → nd.d.out = m :: out → L s.log n m)
    (one : ∀ (s : Sys) a n nd v pos, s.Sound → Runs P s₀ s → P s a → Ordered L s.log → s.Views I →
      s.nodes n = some nd → nd.d.stopped = false →
      ViewStep s.log n (nd.view s.log n) nd.pos a v pos → I (s.log.take pos) n v) :
    s.Sound ∧ Ordered L s.log ∧ s.Views I := by
  induction h with
  | start => exact ⟨h₀, log₀, views₀⟩
  | @next s s' a hr hp hstep ih =>
    obtain ⟨hs, hlog, hv⟩ := ih
    refine ⟨hs.step hstep, ?_, ?_⟩
    · obtain ⟨members, left, join, boot, rfl, -, rfl⟩ | ⟨n, nd, m, out, rfl, hn, hout, rfl⟩ |
        ⟨n, nd, d, pos, cause, seen, -, -, -, rfl⟩ := Sys.step_cases hstep
      · exact hlog.append (by rintro x m ⟨⟩)
      · refine hlog.append ?_
        rintro x m' ⟨⟩
        exact order s n nd m out hs hr hp hlog hv hn hout
      · exact hlog
    · have hen : ∀ members left join boot, a = .confchg members left join boot →
          ∀ x ∈ join, ∀ b, I s.log x.nodeid (.start x b) := by
        rintro members left join boot rfl x hx b
        obtain ⟨members', left', join', boot', heq, hok, -⟩ | ⟨_, _, _, _, h, -⟩ |
          ⟨_, _, _, _, _, _, -, -, hl, -⟩ := Sys.step_cases hstep
        · cases heq
          exact enter s members left join boot hs hr hp hok x b hx (hok.2.2.2.1 x hx).1
        · cases h
        · cases hl
      exact (Sys.view_step hstep hs.bounded hen (fun n nd v pos hn hst hvs _ =>
        one s a n nd v pos hs hr hp hlog hv hn hst hvs) hv).2

end Cpglock
