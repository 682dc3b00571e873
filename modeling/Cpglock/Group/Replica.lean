import Mathlib
import Cpglock.Daemon.Proof.Queue
import Cpglock.Group.Proof.Rule

/-!
# What the tables are meant to be

`Replica.of log`: the request queue and the lock table that the messages of the order determine by
themselves. A LOCK queues its request, a GRANT takes it off the queue and makes it the holder, an
UNLOCK in the holder's name frees the lock, NAK and PURGE take requests off. No daemon keeps exactly
these tables: it also acts on what its clients do, before the others learn of it.
-/

namespace Cpglock

structure Replica where
  queue : List RequestKey
  lock : Resource → Option CpgLock

/-- The message is an UNLOCK in the name of the holder that `l` records. -/
def CpgLockMsg.Releases (m : CpgLockMsg) (l : CpgLock) : Prop :=
  l.ownerNodeid = m.ownerNodeid ∧ l.ownerPid = m.ownerPid

instance (m : CpgLockMsg) (l : CpgLock) : Decidable (m.Releases l) := by
  unfold CpgLockMsg.Releases
  infer_instance

/-- What a message says about the entry for its resource. -/
def CpgLockMsg.relock (m : CpgLockMsg) (l : Option CpgLock) : Option CpgLock :=
  match m.request with
  | .lock => some (l.getD .blank)
  | .grant => l.map (Daemon.granted m)
  | .unlock => l.map fun l =>
    if l.state = .held ∧ m.Releases l then { l with state := .free } else l
  | _ => l

namespace Replica

def init : Replica := { queue := [], lock := fun _ => none }

def deliver (T : Replica) (m : CpgLockMsg) : Replica :=
  { queue := m.requeue T.queue
    lock := fun r => if m.resource = r then m.relock (T.lock r) else T.lock r }

def step (T : Replica) : Event → Replica
  | .msg _ m => T.deliver m
  | .confchg _ _ _ => T

/-- The tables after a prefix of the order. -/
def of (log : List Event) : Replica := log.foldl step init

@[simp] theorem of_nil : of [] = init := rfl

@[simp] theorem of_append (log : List Event) (e : Event) : of (log ++ [e]) = (of log).step e := by
  simp [of]

theorem of_take_succ {log : List Event} {k : Nat} {e : Event} (h : log[k]? = some e) :
    of (log.take (k + 1)) = (of (log.take k)).step e := by
  rw [List.take_add_one, h]
  exact of_append _ _

theorem relock_ne_none {m : CpgLockMsg} {l : Option CpgLock} (h : l ≠ none) : m.relock l ≠ none := by
  unfold CpgLockMsg.relock
  split
  · simp
  · simpa using h
  · simpa using h
  · exact h

theorem lock_step {T : Replica} {e : Event} {r : Resource} (h : T.lock r ≠ none) :
    (T.step e).lock r ≠ none := by
  cases e with
  | confchg => exact h
  | msg x m =>
    simp only [step, deliver]
    split
    · exact relock_ne_none h
    · exact h

/-- An entry stays. -/
theorem lock_mono {log : List Event} {j k : Nat} (hjk : j ≤ k) {r : Resource}
    (h : (of (log.take j)).lock r ≠ none) : (of (log.take k)).lock r ≠ none := by
  induction k, hjk using Nat.le_induction with
  | base => exact h
  | succ k _ ih =>
    cases he : log[k]? with
    | none => rwa [List.take_of_length_le (by have := List.getElem?_eq_none_iff.1 he; omega),
        ← List.take_of_length_le (l := log) (i := k) (List.getElem?_eq_none_iff.1 he)]
    | some e =>
      rw [of_take_succ he]
      exact lock_step ih

/-- An entry comes from a LOCK. -/
theorem exists_lock {log : List Event} {r : Resource} (h : (of log).lock r ≠ none) :
    ∃ x m, Event.msg x m ∈ log ∧ m.request = .lock ∧ m.resource = r := by
  induction log using List.reverseRecOn with
  | nil => exact absurd rfl h
  | append_singleton log e ih =>
    by_cases hl : (of log).lock r = none
    · rw [of_append] at h
      cases e with
      | confchg => exact absurd hl h
      | msg x m =>
        simp only [step, deliver] at h
        split at h
        · next hr =>
          rw [hl] at h
          refine ⟨x, m, by simp, ?_, hr⟩
          unfold CpgLockMsg.relock at h
          split at h
          · assumption
          all_goals exact absurd rfl h
        · exact absurd hl h
    · obtain ⟨x, m, hm, h⟩ := ih hl
      exact ⟨x, m, List.mem_append_left _ hm, h⟩

end Replica

end Cpglock
