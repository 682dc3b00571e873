import Cpglock.Group.Proof.Connections
import Cpglock.Group.Proof.Purges
import Cpglock.Group.ReplicaAgreement
import Cpglock.Group.Successor

/-!
# Requests of departed nodes

As long as every departed node that had sent LOCKs is recovered by a daemon that stays until its
PURGE is ordered, no queue has requests of nodes that are not listed once nothing is in flight
(`departed_requests_purged`). The daemons that were not the oldest do not purge, so a PURGE that is
lost with its sender is not made up for (`purge_lost`).
-/

namespace Cpglock

theorem departed_requests_purged {P : Sys → Act → Prop} (hP : ∀ s a, P s a → s.KeepsPurges a)
    {s : Sys} (h : Runs P .init s) (hq : s.Quiescent) {n : UInt32} {nd : Node}
    (hn : s.nodes n = some nd) : ∀ q ∈ nd.d.requests, nd.d.isMember q.ownerNodeid = true := by
  intro q hqm
  have hpos := (hq n nd hn).2
  have hqueued := Runs.queued h n nd hn
  rw [hpos, List.take_length] at hqueued
  have hkey : q.key ∈ nd.d.keys := List.mem_map_of_mem hqm
  rcases hqueued.listed q.key hkey with hin | ⟨k, e, x, he, hx, hxn, hask, hno⟩
  · obtain ⟨y, hy, hyn⟩ := List.mem_map.1 hin
    exact List.any_eq_true.2 ⟨y, hy, decide_eq_true hyn⟩
  · exfalso
    rw [← hxn] at hask hno
    rcases Runs.purgesDue hP h k e x he hx hask with
      ⟨i, e', hki, he', hpu⟩ | ⟨n', nd', hn', ⟨m, hm, -⟩ | ⟨hle, -⟩⟩
    · rw [hno i e' hki he'] at hpu
      cases hpu
    · rw [(hq n' nd' hn').1] at hm
      cases hm
    · have hlt := (List.getElem?_eq_some_iff.1 he).1
      have := (hq n' nd' hn').2
      omega

/-- The lock `a` is held by a process of daemon 2, and processes of daemons 1 and 3 wait for it. -/
def twoWaiters : List Act :=
  let a : Resource := .a
  threeDaemons [⟨1, 10⟩, ⟨2, 20⟩, ⟨3, 30⟩] ++
    [.connect 2 5, .recv 2 5 (.lockMsg a 200 1 0), .order 2, .deliver 1, .deliver 2, .deliver 3,
      .order 1, .deliver 1, .deliver 2, .deliver 3,
      .connect 3 6, .recv 3 6 (.lockMsg a 300 1 0), .order 3, .deliver 1, .deliver 2, .deliver 3,
      .connect 1 7, .recv 1 7 (.lockMsg a 100 1 0), .order 1, .deliver 1, .deliver 2, .deliver 3]

/-- Daemon 3 leaves. -/
def thirdLeaves : Act :=
  .confchg (fun _ => [⟨1, 10⟩, ⟨2, 20⟩]) [⟨3, 30⟩] [] fun _ => ⟨⟨0, 0⟩, 0⟩

/-- Daemon 1 leaves after daemon 3. -/
def firstLeaves : Act := .confchg (fun _ => [⟨2, 20⟩]) [⟨1, 10⟩] [] fun _ => ⟨⟨0, 0⟩, 0⟩

theorem departed_requests_purged_one : ∃ (s : Sys) (nd : Node), s.nodes 2 = some nd ∧
    s.nodes 3 = none ∧ nd.d.requests.length = 1 ∧
    ∀ q ∈ nd.d.requests, nd.d.isMember q.ownerNodeid = true := by
  have h : (Transition.exec Sys.step (fun (s : Sys) (a : Act) => decide (s.KeepsPurges a)) .init
      (twoWaiters ++ [thirdLeaves, .deliver 1, .order 1, .deliver 1, .deliver 2, .deliver 2])).any
        (fun (s : Sys) => decide (∀ x ∈ s.group, ∀ nd ∈ s.nodes x.nodeid,
          nd.d.out = [] ∧ nd.pos = s.log.length) && (s.nodes 3).isNone && (s.nodes 2).any fun nd =>
            decide (nd.d.requests.length = 1)) = true := by decide +kernel
  obtain ⟨s, hs, h⟩ := Transition.Run.of_check (P := fun (s : Sys) (a : Act) => s.KeepsPurges a)
    (fun _ _ h => of_decide_eq_true h) h
  simp only [Bool.and_eq_true, decide_eq_true_eq, Option.any_eq_true, Option.isNone_iff_eq_none] at h
  obtain ⟨⟨hq, h3⟩, nd, hn, hlen⟩ := h
  have hq := (Runs.sound hs).quiescent hq
  exact ⟨s, nd, hn, h3, hlen, departed_requests_purged (fun _ _ h => h) hs hq hn⟩

/-- Daemon 1 leaves while its PURGE of daemon 3 waits; daemon 2 keeps the request of daemon 3. -/
theorem purge_lost : ¬∀ (s : Sys) (n : UInt32) (nd : Node),
    Runs (fun s a => s.LibClient a) .init s → s.Quiescent → s.nodes n = some nd →
    nd.d.joined = true → ∀ q ∈ nd.d.requests, nd.d.isMember q.ownerNodeid = true := by
  intro hall
  have h : (Transition.exec Sys.step (fun (s : Sys) (a : Act) => decide (s.LibClient a)) .init
      (twoWaiters ++ [thirdLeaves, .deliver 1, .deliver 2, firstLeaves, .deliver 2, .order 2,
        .deliver 2])).any (fun (s : Sys) => decide (∀ x ∈ s.group, ∀ nd ∈ s.nodes x.nodeid,
          nd.d.out = [] ∧ nd.pos = s.log.length) && (s.nodes 2).any fun nd => nd.d.joined &&
            nd.d.requests.any fun q => !nd.d.isMember q.ownerNodeid) = true := by decide +kernel
  obtain ⟨s, hs, h⟩ := Transition.Run.of_check (P := fun (s : Sys) (a : Act) => s.LibClient a)
    (fun _ _ h => of_decide_eq_true h) h
  simp only [Bool.and_eq_true, decide_eq_true_eq, Option.any_eq_true, List.any_eq_true,
    Bool.not_eq_true'] at h
  obtain ⟨hq, nd, hn, hj, q, hqm, hno⟩ := h
  have hq := (Runs.sound hs).quiescent hq
  rw [hall s 2 nd hs hq hn hj q hqm] at hno
  cases hno

end Cpglock
