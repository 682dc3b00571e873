import Cpglock.Group.Proof.FixedRun
import Cpglock.Group.SingleAuthority

/-!
# Replica agreement

In a fixed group, whenever no message is in flight, all daemons have the same request queue and the
same lock table, up to the lock ids of their own clients: each has what the order says
(`Replica.of`), whatever its clients and handlers did to it before the messages about it came.
-/

namespace Cpglock

/-- What daemons share of an entry. -/
def CpgLock.shared (l : CpgLock) : LockState × UInt32 × UInt32 × UInt32 :=
  (l.state, l.ownerNodeid, l.ownerPid, l.ownerTid)

/-- With nothing to be delivered, a daemon's view is the daemon. -/
theorem Sys.Quiescent.view {s : Sys} (hq : s.Quiescent) {n : UInt32} {nd : Node}
    (hn : s.nodes n = some nd) : nd.view s.log n = nd.d := by
  obtain ⟨hout, hpos⟩ := hq n nd hn
  simp only [Node.view, coming, hpos, List.drop_length, List.filterMap_nil, Daemon.behind,
    List.nil_append]

/-- A daemon that waits for no message of its own has the replica's tables. -/
theorem Synced.tables {T : Replica} {n : UInt32} {v : Daemon} (h : Synced T n v)
    (hout : v.out = []) : v.keys = T.queue ∧
      ∀ r, (v.locks.get r).map CpgLock.shared = (T.lock r).map CpgLock.shared := by
  refine ⟨h.queue.eq fun k _ => ?_, fun r => ?_⟩
  · simp [Daemon.purging, hout]
  · have ht := h.lock r
    have hsent : (v.cell r).sent = [] := by simp [Daemon.cell, hout]
    cases hT : T.lock r with
    | none =>
      rw [hT] at ht
      rw [show v.locks.get r = none from ht]
    | some t =>
      rw [hT] at ht
      obtain ⟨l, hl, hf⟩ := ht
      rw [hsent] at hf
      obtain ⟨hn, hp, ht⟩ := CpgLock.key_eq.1 hf.key
      have hst : l.state = t.state := by
        cases hl : l.state with
        | held => exact (hf.held hl).symm
        | pending => simpa using hf.pending hl
        | free =>
          cases ht : t.state with
          | free => rfl
          | pending => exact absurd ht hf.steady
          | held => simpa using hf.free hl ht
      rw [show v.locks.get r = some l from hl]
      simp [CpgLock.shared, hst, hn, hp, ht]

/-- With nothing in flight any two daemons have the same queue and entries. -/
theorem replica_agreement {P : Sys → Act → Prop} (hP : ∀ s a, P s a → s.FixedClients a) {s : Sys}
    (h : Runs P .init s) (hq : s.Quiescent) {n n' : UInt32} {nd nd' : Node}
    (hn : s.nodes n = some nd) (hn' : s.nodes n' = some nd') :
    nd.d.keys = nd'.d.keys ∧
      ∀ r, (nd.d.locks.get r).map CpgLock.shared = (nd'.d.locks.get r).map CpgLock.shared := by
  have tables : ∀ {n nd}, s.nodes n = some nd → nd.d.keys = (Replica.of s.log).queue ∧
      ∀ r, (nd.d.locks.get r).map CpgLock.shared =
        ((Replica.of s.log).lock r).map CpgLock.shared := by
    intro n nd hn
    have hin := (Runs.synced hP h).2 n nd hn
    obtain ⟨hout, hpos⟩ := hq n nd hn
    rw [hq.view hn, hpos, List.take_length] at hin
    exact hin.synced.tables hout
  obtain ⟨hk, hl⟩ := tables hn
  obtain ⟨hk', hl'⟩ := tables hn'
  exact ⟨hk.trans hk'.symm, fun r => (hl r).trans (hl' r).symm⟩

/-- To see that nothing is in flight it is enough to look at the members of the group. -/
theorem Sys.Sound.quiescent {s : Sys} (h : s.Sound)
    (hg : ∀ x ∈ s.group, ∀ nd ∈ s.nodes x.nodeid, nd.d.out = [] ∧ nd.pos = s.log.length) :
    s.Quiescent := fun n nd hn => hg ⟨n, nd.d.myPid⟩ ((h.group _).2 ⟨nd, hn, rfl⟩) nd hn

/-- The lock `a` is held by process 100 of daemon 1. -/
def oneHolder : List Act :=
  twoDaemons ++ [.connect 1 5, .recv 1 5 (.lockMsg .a 100 1 0), .order 1,
    .deliver 1, .order 1, .deliver 1, .deliver 2, .deliver 2]

theorem replica_agreement_two : ∃ (s : Sys) (nd nd' : Node), s.nodes 1 = some nd ∧
    s.nodes 2 = some nd' ∧ (nd.d.locks.get ⟨[97], by decide, by decide⟩).map CpgLock.shared =
      some (.held, 1, 100, 1) ∧
    nd.d.keys = nd'.d.keys ∧
    ∀ r, (nd.d.locks.get r).map CpgLock.shared = (nd'.d.locks.get r).map CpgLock.shared := by
  have h : (Transition.exec Sys.step (fun (s : Sys) (a : Act) => decide (s.FixedClients a)) .init
      oneHolder).any (fun (s : Sys) => decide (∀ x ∈ s.group, ∀ nd ∈ s.nodes x.nodeid,
        nd.d.out = [] ∧ nd.pos = s.log.length) && (s.nodes 1).any fun nd => (s.nodes 2).isSome &&
        decide ((nd.d.locks.get ⟨[97], by decide, by decide⟩).map CpgLock.shared =
          some (.held, 1, 100, 1))) = true := by decide +kernel
  obtain ⟨s, hs, h⟩ := Transition.Run.of_check (P := fun (s : Sys) (a : Act) => s.FixedClients a)
    (fun _ _ h => of_decide_eq_true h) h
  simp only [Bool.and_eq_true, decide_eq_true_eq, Option.any_eq_true] at h
  obtain ⟨hq, nd, hn, hn', hl⟩ := h
  obtain ⟨nd', hn'⟩ := Option.isSome_iff_exists.1 hn'
  have hq := (Runs.sound hs).quiescent hq
  exact ⟨s, nd, nd', hn, hn', hl, replica_agreement (fun _ _ h => h) hs hq hn hn'⟩

end Cpglock
