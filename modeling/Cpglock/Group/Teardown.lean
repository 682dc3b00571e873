import Cpglock.Daemon.Descriptors
import Cpglock.Group.GrantSequence
import Cpglock.Group.Proof.Fifo

/-!
# A daemon that ends answers what it queues

`drop_all_requests` sends the daemon's own clients a NAK for each request that is queued. So of the
LOCKs of its clients that were delivered, the first have their GRANT and all others get a NAK, in
their order, on a connection of the process that asked (`teardown_answers`); nothing else is
written.
-/

namespace Cpglock

/-- The NAK of `nak_client`. -/
def Daemon.nakOf (d : Daemon) (q : RequestItem) : CpgLockMsg :=
  { CpgLockMsg.blank .nak with
    resource := q.resource
    ownerNodeid := d.myNodeId
    ownerPid := q.ownerPid
    ownerTid := q.ownerTid }

/-- The queued requests of the daemon's own clients. -/
def Daemon.ownRequests (d : Daemon) : List RequestItem :=
  d.requests.filter fun q => q.ownerNodeid = d.myNodeId

namespace Server

/-- What `drop_all_requests` writes. -/
def naks (s : Server) : List (Nat × CpgLockMsg) :=
  s.d.ownRequests.flatMap fun q => s.d.written q.ownerPid (s.d.nakOf q)

theorem dropRequest_own {s : Server} {q : RequestItem} (hq : q.ownerNodeid = s.d.myNodeId) :
    (s.dropRequest q).calls =
      s.calls ++ (s.d.written q.ownerPid (s.d.nakOf q)).map fun p => .uses p.1 p.2 := by
  have hrep : (s.d.nakClient q).1.replies = s.d.replies ++ _ :=
    s.d.notifyClient_replies q.ownerPid _
  rw [dropRequest, if_pos hq]
  show s.calls ++ ((s.d.nakClient q).1.replies.drop s.d.replies.length).map _ = _
  rw [hrep, List.drop_left]
  rfl

/-- The clients and the node id stay as they are. -/
theorem dropRequest_frame (s : Server) (q : RequestItem) :
    (s.dropRequest q).d.clients = s.d.clients ∧ (s.dropRequest q).d.myNodeId = s.d.myNodeId := by
  have hnak : (s.d.nakClient q).1.clients = s.d.clients ∧
      (s.d.nakClient q).1.myNodeId = s.d.myNodeId := by
    rw [Daemon.nakClient, Daemon.notifyClient]
    split <;> exact ⟨rfl, rfl⟩
  rw [dropRequest]
  split
  · exact hnak
  · exact ⟨rfl, rfl⟩

theorem dropAllRequests_spec (s : Server) :
    s.dropAllRequests.calls = s.calls ++ s.naks.map (fun p => .uses p.1 p.2) ∧
      s.dropAllRequests.d.clients = s.d.clients := by
  rw [dropAllRequests, naks, Daemon.ownRequests]
  generalize s.d.requests = rs
  induction rs generalizing s with
  | nil => exact ⟨(List.append_nil _).symm, rfl⟩
  | cons q rs ih =>
    obtain ⟨hclients, hme⟩ := s.dropRequest_frame q
    obtain ⟨hcalls, hc⟩ := ih (s.dropRequest q)
    refine ⟨?_, hc.trans hclients⟩
    have hwritten : ∀ pid m, (s.dropRequest q).d.written pid m = s.d.written pid m := by
      intro pid m
      simp only [Daemon.written, Daemon.findClient, hclients]
    have hnak : ∀ q', (s.dropRequest q).d.nakOf q' = s.d.nakOf q' := by
      intro q'
      rw [Daemon.nakOf, Daemon.nakOf, hme]
    simp only [hwritten, hnak, hme] at hcalls
    rw [List.foldl_cons, hcalls]
    by_cases hq : q.ownerNodeid = s.d.myNodeId
    · rw [dropRequest_own hq, List.filter_cons_of_pos (by simpa using hq), List.flatMap_cons,
        List.map_append, List.append_assoc]
    · have hskip : (s.dropRequest q).calls = s.calls := by
        rw [dropRequest, if_neg hq]
      rw [hskip, List.filter_cons_of_neg (by simpa using hq)]

/-- The end writes the NAKs and closes the clients. -/
theorem teardown_spec (s : Server) : s.teardown.calls =
    s.calls ++ s.naks.map (fun p => .uses p.1 p.2) ++ (s.d.clients.map (·.fd)).map .closes := by
  obtain ⟨hcalls, hclients⟩ := s.dropAllLocks.dropAllRequests_spec
  rw [teardown_calls, hcalls, hclients]
  rfl

end Server

section

variable {P : Sys → Act → Prop} (hP : ∀ s a, P s a → s.Orderly a ∧ s.UnlocksHeld a)
include hP

/-- The own requests that are queued are those without a GRANT. -/
theorem Runs.own_waiting {s : Sys} (h : Runs P .init s) {n : UInt32} {nd : Node}
    (hn : s.nodes n = some nd) (r : Resource) :
    (lockOrder r (s.log.take nd.pos)).filter (fun k => k.nodeid = n) =
      (grantOrder r (s.log.take nd.pos)).filter (fun k => k.nodeid = n) ++
        ((nd.d.ownRequests.map RequestItem.key).filter fun k => k.resource = r) := by
  obtain ⟨hlog, hviews⟩ := Runs.inLine hP h
  obtain ⟨j, hfifo, -⟩ := (hviews n nd hn).fifo r
  have hme : nd.d.myNodeId = n := ((h.plain_of fun s a hp => (hP s a hp).1.1).2 n nd hn).me
  obtain ⟨rest, hrest⟩ := (hlog.take nd.pos).grants_follow r
  generalize hA : lockOrder r (s.log.take nd.pos) = A at *
  generalize hG : grantOrder r (s.log.take nd.pos) = G at *
  -- the requests a daemon does not know are others'
  have hknown : (A.drop (max j G.length)).filter (fun k => k.nodeid = n) =
      (A.drop G.length).filter fun k => k.nodeid = n := by
    rcases le_total j G.length with hj | hj
    · rw [max_eq_right hj]
    · have hnone : ((A.drop G.length).take (j - G.length)).filter (fun k => k.nodeid = n) = [] := by
        refine List.filter_eq_nil_iff.2 fun k hk => ?_
        rw [← List.drop_take] at hk
        simpa using hfifo.foreign k (List.mem_of_mem_drop hk)
      have hsplit : (A.drop G.length).take (j - G.length) ++ A.drop j = A.drop G.length := by
        have := List.take_append_drop (j - G.length) (A.drop G.length)
        rwa [List.drop_drop, Nat.add_sub_cancel' hj] at this
      rw [max_eq_left hj, ← hsplit, List.filter_append, hnone, List.nil_append]
  have hkeys : (nd.d.ownRequests.map RequestItem.key).filter (fun k => k.resource = r) =
      ((nd.view s.log n).cell r).keys.filter fun k => k.nodeid = n := by
    rw [Cell.keys, Daemon.ownRequests, List.filter_map, List.filter_map, List.filter_filter]
    show _ = List.map _ (List.filter _ (List.filter _ nd.d.requests))
    rw [List.filter_filter]
    congr 1
    refine List.filter_congr fun q _ => ?_
    simp only [Function.comp_apply, RequestItem.key, hme]
    exact Bool.and_comm _ _
  rw [hkeys, hfifo.keys, hknown, ← hrest, List.drop_left, List.filter_append]

end

/-- Of the LOCKs of its clients that a daemon was delivered it has granted the first, and the end
sends a NAK for each of the others, in their order, on a connection of the process that asked; it
writes nothing else. -/
theorem teardown_answers {s : Sys} (h : Runs (fun s a => s.Orderly a) .init s) {n : UInt32}
    {nd : Node} (hn : s.nodes n = some nd) (srv : Server) (hd : srv.d = nd.d) :
    ∃ naks : List (Nat × CpgLockMsg),
      srv.teardown.calls = srv.calls ++ naks.map (fun p => .uses p.1 p.2) ++
        (nd.d.clients.map (·.fd)).map .closes ∧
      (∀ p ∈ naks, p.2.request = .nak ∧ ⟨p.1, p.2.ownerPid⟩ ∈ nd.d.clients) ∧
      ∀ r, (lockOrder r (s.log.take nd.pos)).filter (fun k => k.nodeid = n) =
        ((nd.d.grants.map fun p => p.2.key).filter fun k => k.resource = r) ++
          ((naks.map fun p => p.2.key).filter fun k => k.resource = r) := by
  have hr := Runs.disciplined (fun s a hp => hp.1) h
  have hP : ∀ (s : Sys) a, s.Orderly a ∧ s.UnlocksHeld a → s.Orderly a ∧ s.UnlocksHeld a :=
    fun _ _ h => h
  have hF := fun (s : Sys) a (hp : s.Orderly a ∧ s.UnlocksHeld a) => hp.1.1
  have hFU := fun (s : Sys) a (hp : s.Orderly a ∧ s.UnlocksHeld a) =>
    (⟨hp.1.1, hp.2⟩ : s.FailureFree a ∧ s.UnlocksHeld a)
  have hme : nd.d.myNodeId = n := ((hr.plain_of hF).2 n nd hn).me
  have hasked : ∀ q ∈ nd.d.ownRequests, ∃ c, nd.d.findClient q.ownerPid = some c := by
    intro q hq
    obtain ⟨hq, hown⟩ := List.mem_filter.1 hq
    have hq' : q ∈ (nd.d.cell q.resource).waiting := List.mem_filter.2 ⟨hq, by simp⟩
    obtain ⟨-, nd', hn', hc⟩ := hr.asker_connected hF
      (((Runs.fromClients hr).cells n nd hn q.resource).waiting q hq')
    rw [show q.key.nodeid = n from (of_decide_eq_true hown).trans hme, hn] at hn'
    obtain rfl := Option.some.inj hn'
    exact Option.isSome_iff_exists.1 hc
  have hkeys : srv.naks.map (fun p => p.2.key) = nd.d.ownRequests.map RequestItem.key := by
    rw [Server.naks, hd, List.map_flatMap]
    have hone : ∀ q ∈ nd.d.ownRequests,
        (nd.d.written q.ownerPid (nd.d.nakOf q)).map (fun p => p.2.key) = [q.key] := by
      intro q hq
      obtain ⟨c, hc⟩ := hasked q hq
      have hown := of_decide_eq_true (List.mem_filter.1 hq).2
      simp [Daemon.written, hc, Daemon.nakOf, CpgLockMsg.key, RequestItem.key, hown]
    rw [List.flatMap_congr hone, List.map_eq_flatMap]
  refine ⟨srv.naks, hd ▸ srv.teardown_spec, fun p hp => ?_, fun r => ?_⟩
  · rw [Server.naks, hd] at hp
    obtain ⟨q, -, hp⟩ := List.mem_flatMap.1 hp
    obtain ⟨c, hc, rfl⟩ := List.mem_map.1 hp
    have hc := Option.mem_toList.1 hc
    refine ⟨rfl, ?_⟩
    have hpid : c.pid = q.ownerPid := by simpa using List.find?_some hc
    show ⟨c.fd, q.ownerPid⟩ ∈ nd.d.clients
    rw [← hpid]
    exact List.mem_of_find?_eq_some hc
  · have hser := Runs.serial hFU hr n nd hn
    have hgrants : nd.d.grants.map (fun p => p.2.key) = grantsFor n (s.log.take nd.pos) := by
      have := congrArg (List.map Prod.fst) hser.numbered
      rwa [List.map_map, List.zipIdx_map_fst] at this
    rw [hkeys, hgrants, Runs.own_waiting hP hr hn r]
    congr 1
    rw [grantOrder, grantsFor, List.filter_filter, List.filter_filter]
    simp [Bool.and_comm]

/-- Process 101 waits for the lock that process 100 holds. -/
def oneWaits : List Act :=
  oneGrant ++ [.connect 1 6, .recv 1 6 (.lockMsg .a 101 1 0), .order 1, .deliver 1]

theorem teardown_answers_waiting : ∃ (nd : Node) (naks : List (Nat × CpgLockMsg)),
    (Server.mk nd.d false true []).teardown.calls =
      naks.map (fun p => .uses p.1 p.2) ++ [.closes 5, .closes 6] ∧
    (naks.map fun p => p.2.key).filter (fun k => k.resource = .a) = [⟨.a, 1, 101, 1⟩] := by
  have h : (Transition.exec Sys.step (fun (s : Sys) (a : Act) => decide (s.Orderly a)) .init
      oneWaits).any (fun (s : Sys) => (s.nodes 1).any fun nd =>
        decide (nd.d.clients.map (·.fd) = [5, 6]) &&
        decide ((lockOrder .a (s.log.take nd.pos)).filter (fun k => k.nodeid = 1) =
          [⟨.a, 1, 100, 1⟩, ⟨.a, 1, 101, 1⟩]) &&
        decide ((nd.d.grants.map fun p => p.2.key).filter (fun k => k.resource = .a) =
          [⟨.a, 1, 100, 1⟩])) = true := by decide +kernel
  obtain ⟨s, hs, h⟩ := Transition.Run.of_check (P := fun (s : Sys) (a : Act) => s.Orderly a)
    (fun _ _ h => of_decide_eq_true h) h
  simp only [Option.any_eq_true, Bool.and_eq_true, decide_eq_true_eq] at h
  obtain ⟨nd, hn, ⟨hfds, hlocks⟩, hgrants⟩ := h
  obtain ⟨naks, hcalls, -, hall⟩ := teardown_answers hs hn ⟨nd.d, false, true, []⟩ rfl
  refine ⟨nd, naks, by rw [hcalls, hfds]; rfl, ?_⟩
  have := hall .a
  rw [hlocks, hgrants] at this
  exact ((List.append_right_inj [⟨.a, 1, 100, 1⟩]).1 this).symm

end Cpglock
