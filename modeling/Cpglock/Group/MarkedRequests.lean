import Cpglock.Group.Proof.Marked
import Cpglock.Group.OwnUnlock

/-!
# A marked request has its GRANT on the way

`grant_next` marks a request so that it is not granted twice. In every run, whoever joins, leaves or
disconnects, a daemon has no more marked requests of one identity than it has multicast GRANTs of that
identity it was not delivered yet (`marked_granted`), so a mark does not outlast the GRANT.
-/

namespace Cpglock

/-- The messages daemon `n` has multicast and not been delivered. -/
def Node.undelivered (nd : Node) (log : List Event) (n : UInt32) : List CpgLockMsg :=
  coming log n nd.pos ++ nd.d.out

theorem Daemon.countP_cell_waiting (d : Daemon) (k : RequestKey) :
    (d.cell k.resource).waiting.countP (·.MarkedAs k) = d.requests.countP (·.MarkedAs k) := by
  rw [cell, List.countP_filter]
  refine List.countP_congr fun q _ => ?_
  simp only [RequestItem.MarkedAs, Bool.and_eq_true, decide_eq_true_eq, and_iff_left_iff_imp]
  intro h
  exact congrArg RequestKey.resource (of_decide_eq_true h).1

/-- A count of GRANTs in a cell counts GRANTs of the daemon. -/
theorem Daemon.countP_cell_sent (d : Daemon) (k : RequestKey) :
    (d.cell k.resource).sent.countP (·.Grants k) ≤ d.out.countP (·.Grants k) :=
  List.filter_sublist.countP_le

/-- At every daemon the marked requests of an identity are no more than its undelivered GRANTs of that
identity, every request's lock has an entry, and with nothing in flight no request is marked. -/
theorem marked_granted {P : Sys → Act → Prop} (hP : ∀ s a, P s a → a.HasPid) {s : Sys}
    (h : Runs P .init s) {n : UInt32} {nd : Node} (hn : s.nodes n = some nd) :
    (∀ k, nd.d.requests.countP (·.MarkedAs k) ≤ (nd.undelivered s.log n).countP (·.Grants k)) ∧
      (∀ q ∈ nd.d.requests, nd.d.locks.get q.resource ≠ none) ∧
      (s.Quiescent → ∀ q ∈ nd.d.requests, q.state ≠ .held) := by
  have hmark := Runs.marked hP h n nd hn
  have hcount : ∀ k, nd.d.requests.countP (·.MarkedAs k) ≤
      (nd.undelivered s.log n).countP (·.Grants k) := by
    intro k
    calc nd.d.requests.countP (·.MarkedAs k)
        = ((nd.view s.log n).cell k.resource).waiting.countP (·.MarkedAs k) :=
          (Daemon.countP_cell_waiting _ k).symm
      _ ≤ ((nd.view s.log n).cell k.resource).sent.countP (·.Grants k) := (hmark k.resource).count k
      _ ≤ (nd.view s.log n).out.countP (·.Grants k) := Daemon.countP_cell_sent _ k
  refine ⟨hcount, fun q hq h0 => ?_, fun hquiet q hq hs => ?_⟩
  · have hmem : q ∈ ((nd.view s.log n).cell q.resource).waiting := List.mem_filter.2 ⟨hq, by simp⟩
    rw [((hmark q.resource).entry h0).1] at hmem
    cases hmem
  · have hc := hcount q.key
    obtain ⟨hout, hpos⟩ := hquiet n nd hn
    have hnone : nd.undelivered s.log n = [] := by
      rw [Node.undelivered, coming, hpos, List.drop_length, hout]
      rfl
    rw [hnone, List.countP_nil] at hc
    have : 0 < nd.d.requests.countP (·.MarkedAs q.key) :=
      List.countP_pos_iff.2 ⟨q, hq, by simp [RequestItem.MarkedAs, hs]⟩
    omega

/-- The single daemon has marked the request of process 200, and its GRANT waits. -/
theorem marked_granted_one : ∃ (s : Sys) (nd : Node), s.nodes 1 = some nd ∧
    nd.d.requests.map (·.state) = [.held, .pending] ∧
    (∀ k, nd.d.requests.countP (·.MarkedAs k) ≤ (nd.undelivered s.log 1).countP (·.Grants k)) ∧
    (∀ q ∈ nd.d.requests, nd.d.locks.get q.resource ≠ none) ∧
    (s.Quiescent → ∀ q ∈ nd.d.requests, q.state ≠ .held) := by
  have h : (Transition.exec Sys.step (fun (s : Sys) (a : Act) => decide (s.FixedClients a)) .init
      unlockedOnce).any (fun (s : Sys) => (s.nodes 1).any fun nd =>
        decide (nd.d.requests.map (·.state) = [.held, .pending])) = true := by decide +kernel
  obtain ⟨s, hs, h⟩ := Transition.Run.of_check (P := fun (s : Sys) (a : Act) => s.FixedClients a)
    (fun _ _ h => of_decide_eq_true h) h
  simp only [Option.any_eq_true, decide_eq_true_eq] at h
  obtain ⟨nd, hn, hstate⟩ := h
  exact ⟨s, nd, hn, hstate, marked_granted (fun _ _ hp => hp.2.hasPid) hs hn⟩

end Cpglock
