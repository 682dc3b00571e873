import Mathlib
import Cpglock.Daemon.Handlers

/-!
# The message history

`old_msg` bounds the list of messages by a counter of its own, 32 bits wide, and the limit is an
`unsigned long`. With a limit below 2^32 the list holds the most recent messages; with any other the
counter comes round to 0 before it reaches the limit, and no message is ever dropped
(`history_recent_iff`).
-/

namespace Cpglock

namespace History

/-- No message recorded yet. -/
def empty (maxSavedMsgs : UInt64) : History := { messages := [], messageCount := 0, maxSavedMsgs }

/-- The calls of `old_msg` on the messages `ms`, one after the other. -/
def record (h : History) (ms : List CpgLockMsg) : History := ms.foldl oldMsg h

theorem record_append (h : History) (ms : List CpgLockMsg) (m : CpgLockMsg) :
    h.record (ms ++ [m]) = (h.record ms).oldMsg m := by
  simp [record]

theorem maxSavedMsgs_oldMsg (h : History) (m : CpgLockMsg) :
    (h.oldMsg m).maxSavedMsgs = h.maxSavedMsgs := by
  unfold oldMsg
  dsimp only
  split
  · rfl
  · rfl

theorem maxSavedMsgs_record (max : UInt64) (ms : List CpgLockMsg) :
    ((empty max).record ms).maxSavedMsgs = max := by
  induction ms using List.reverseRecOn with
  | nil => rfl
  | append_singleton ms m ih => rw [record_append, maxSavedMsgs_oldMsg, ih]

/-- With a limit that the counter can reach, it counts the messages that are kept. -/
theorem record_small {max : UInt64} (hmax : max.toNat < 2 ^ 32) (ms : List CpgLockMsg) :
    ((empty max).record ms).messages = ms.rtake max.toNat ∧
      ((empty max).record ms).messageCount.toNat = min ms.length max.toNat := by
  induction ms using List.reverseRecOn with
  | nil => exact ⟨by simp [record, empty], by simp [record, empty]⟩
  | append_singleton ms m ih =>
    obtain ⟨hms, hcount⟩ := ih
    have hlimit := maxSavedMsgs_record max ms
    rw [record_append]
    unfold oldMsg
    simp only [hlimit, hms, hcount, List.rtake, List.length_append, List.length_singleton]
    split
    · next hlt =>
      -- there is room: nothing has been dropped, and the counter does not come round
      have hlen : ms.length < max.toNat := by omega
      refine ⟨?_, ?_⟩
      · rw [show ms.length - max.toNat = 0 by omega, show ms.length + 1 - max.toNat = 0 by omega]
        simp
      · rw [UInt32.toNat_add, hcount]
        simp only [UInt32.reduceToNat]
        omega
    · next hge =>
      have hlen : max.toNat ≤ ms.length := by omega
      refine ⟨?_, ?_⟩
      · rw [show ms.length + 1 - max.toNat = ms.length - max.toNat + 1 by omega,
          ← List.drop_append_of_le_length (by omega), List.drop_drop]
      · change ((empty max).record ms).messageCount.toNat = _
        omega

/-- With a greater limit nothing is ever dropped. -/
theorem record_large {max : UInt64} (hmax : 2 ^ 32 ≤ max.toNat) (ms : List CpgLockMsg) :
    ((empty max).record ms).messages = ms := by
  induction ms using List.reverseRecOn with
  | nil => rfl
  | append_singleton ms m ih =>
    have hlimit := maxSavedMsgs_record max ms
    have hlt : ((empty max).record ms).messageCount.toNat < max.toNat :=
      lt_of_lt_of_le (UInt32.toNat_lt _) hmax
    rw [record_append]
    unfold oldMsg
    simp only [hlimit, ih]
    rw [if_pos hlt]

end History

theorem rtake_eq_self_iff {α : Type} {k : Nat} {l : List α} : l.rtake k = l ↔ l.length ≤ k := by
  unfold List.rtake
  constructor
  · intro h
    have := congrArg List.length h
    rw [List.length_drop] at this
    omega
  · intro h
    rw [show l.length - k = 0 by omega]
    rfl

/-- After any number of calls the list holds the last messages, as many as the limit allows, if and only
if the limit is below 2^32 or not yet exceeded. -/
theorem history_recent_iff (max : UInt64) (ms : List CpgLockMsg) :
    ((History.empty max).record ms).messages = ms.rtake max.toNat ↔
      max.toNat < 2 ^ 32 ∨ ms.length ≤ max.toNat := by
  by_cases hmax : max.toNat < 2 ^ 32
  · exact ⟨fun _ => .inl hmax, fun _ => (History.record_small hmax ms).1⟩
  · rw [History.record_large (by omega) ms]
    constructor
    · exact fun h => .inr (rtake_eq_self_iff.1 h.symm)
    · rintro (h | h)
      · exact absurd h hmax
      · exact (rtake_eq_self_iff.2 h).symm

/-- With the limit 2^32, all of 2^32 + 1 messages are kept. -/
theorem history_outgrows : ¬∀ (max : UInt64) (ms : List CpgLockMsg),
    ((History.empty max).record ms).messages = ms.rtake max.toNat := by
  intro h
  have h := h 4294967296 (List.replicate (2 ^ 32 + 1) (.blank .join))
  rw [History.record_large (by decide)] at h
  have hle := rtake_eq_self_iff.1 h.symm
  rw [List.length_replicate] at hle
  exact absurd hle (by decide)

end Cpglock
