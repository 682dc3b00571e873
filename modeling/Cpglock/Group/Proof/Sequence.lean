import Cpglock.Group.Proof.FailureFree

/-!
# The order of the requests

`keysOf q log`: the identities in the LOCKs (or GRANTs, NAKs) of the order. A daemon orders its
clients' LOCKs in the order in which it reads them (`Runs.numbers`), and their numbers are fresh. So in
a run without failures no identity is in two LOCKs (`Runs.locks_nodup`).
-/

namespace Cpglock

/-- The identity that a message of the order carries, if it is a `q`. -/
def Event.keyOf (q : CpgLockReq) : Event → Option RequestKey
  | .msg _ m => if m.request = q then some m.key else none
  | .confchg _ _ _ => none

def keysOf (q : CpgLockReq) (log : List Event) : List RequestKey := log.filterMap (Event.keyOf q)

/-- The process and the number of a request. -/
def RequestKey.number (k : RequestKey) : UInt32 × UInt32 := (k.pid, k.tid)

section

variable {q : CpgLockReq} {log : List Event} {k : RequestKey} {x : MemberItem} {m : CpgLockMsg}

theorem keysOf_append (log l : List Event) : keysOf q (log ++ l) = keysOf q log ++ keysOf q l :=
  List.filterMap_append

theorem keysOf_msg (hm : m.request = q) : keysOf q (log ++ [.msg x m]) = keysOf q log ++ [m.key] := by
  rw [keysOf_append]
  simp [keysOf, Event.keyOf, hm]

theorem keysOf_of_ne (hm : m.request ≠ q) : keysOf q (log ++ [.msg x m]) = keysOf q log := by
  rw [keysOf_append]
  simp [keysOf, Event.keyOf, hm]

@[simp] theorem keysOf_change (log : List Event) (members : UInt32 → List MemberItem)
    (left join : List MemberItem) : keysOf q (log ++ [.confchg members left join]) = keysOf q log := by
  rw [keysOf_append]
  simp [keysOf, Event.keyOf]

theorem mem_keysOf :
    k ∈ keysOf q log ↔ ∃ x m, Event.msg x m ∈ log ∧ m.request = q ∧ m.key = k := by
  simp only [keysOf, List.mem_filterMap]
  constructor
  · rintro ⟨e, he, hk⟩
    cases e with
    | confchg => cases hk
    | msg x m =>
      simp only [Event.keyOf] at hk
      split at hk
      · next hm => exact ⟨x, m, he, hm, Option.some.inj hk⟩
      · cases hk
  · rintro ⟨x, m, he, hm, rfl⟩
    exact ⟨.msg x m, he, by simp [Event.keyOf, hm]⟩

theorem locked_iff : Locked log k ↔ k ∈ keysOf .lock log := mem_keysOf.symm

theorem keysOf_take_sublist (q : CpgLockReq) (log : List Event) (j : Nat) :
    (keysOf q (log.take j)).Sublist (keysOf q log) := (List.take_sublist j log).filterMap _

/-- If no identity is there twice, none is ordered again. -/
theorem keysOf_fresh (h : (keysOf q log).Nodup) {j : Nat} (hj : log[j]? = some (.msg x m))
    (hm : m.request = q) : m.key ∉ keysOf q (log.take j) := by
  have hnext : (keysOf q (log.take (j + 1))).Nodup := h.sublist (keysOf_take_sublist q log _)
  rw [List.take_add_one, hj, Option.toList_some, keysOf_msg hm] at hnext
  exact fun hk => (List.nodup_append.1 hnext).2.2 _ hk _ (List.mem_singleton_self _) rfl

end

/-- The requests for a lock, as their LOCKs are ordered, and as their GRANTs are. -/
def lockOrder (r : Resource) (log : List Event) : List RequestKey :=
  (keysOf .lock log).filter fun k => k.resource = r

def grantOrder (r : Resource) (log : List Event) : List RequestKey :=
  (keysOf .grant log).filter fun k => k.resource = r

section

variable {r : Resource} {log : List Event} {x : MemberItem} {m : CpgLockMsg}

theorem mem_lockOrder {k : RequestKey} : k ∈ lockOrder r log ↔ Locked log k ∧ k.resource = r := by
  rw [locked_iff, lockOrder, List.mem_filter, decide_eq_true_eq]

theorem lockOrder_lock (hm : m.request = .lock) (hr : m.resource = r) :
    lockOrder r (log ++ [.msg x m]) = lockOrder r log ++ [m.key] := by
  rw [lockOrder, keysOf_msg hm, List.filter_append]
  simp [lockOrder, CpgLockMsg.key, hr]

theorem lockOrder_other (h : ¬(m.request = .lock ∧ m.resource = r)) :
    lockOrder r (log ++ [.msg x m]) = lockOrder r log := by
  by_cases hm : m.request = .lock
  · have hr : m.resource ≠ r := fun hr => h ⟨hm, hr⟩
    rw [lockOrder, keysOf_msg hm, List.filter_append]
    simp [lockOrder, CpgLockMsg.key, hr]
  · rw [lockOrder, keysOf_of_ne hm]
    rfl

theorem grantOrder_grant (hm : m.request = .grant) (hr : m.resource = r) :
    grantOrder r (log ++ [.msg x m]) = grantOrder r log ++ [m.key] := by
  rw [grantOrder, keysOf_msg hm, List.filter_append]
  simp [grantOrder, CpgLockMsg.key, hr]

theorem grantOrder_other (h : ¬(m.request = .grant ∧ m.resource = r)) :
    grantOrder r (log ++ [.msg x m]) = grantOrder r log := by
  by_cases hm : m.request = .grant
  · have hr : m.resource ≠ r := fun hr => h ⟨hm, hr⟩
    rw [grantOrder, keysOf_msg hm, List.filter_append]
    simp [grantOrder, CpgLockMsg.key, hr]
  · rw [grantOrder, keysOf_of_ne hm]
    rfl

@[simp] theorem lockOrder_change (r : Resource) (log : List Event) (members : UInt32 → List MemberItem)
    (left join : List MemberItem) : lockOrder r (log ++ [.confchg members left join]) = lockOrder r log := by
  rw [lockOrder, keysOf_change]
  rfl

@[simp] theorem grantOrder_change (r : Resource) (log : List Event) (members : UInt32 → List MemberItem)
    (left join : List MemberItem) :
    grantOrder r (log ++ [.confchg members left join]) = grantOrder r log := by
  rw [grantOrder, keysOf_change]
  rfl

theorem lockOrder_grows (r : Resource) (log l : List Event) : lockOrder r log <+: lockOrder r (log ++ l) := by
  rw [lockOrder, lockOrder, keysOf_append, List.filter_append]
  exact List.prefix_append _ _

theorem grantOrder_grows (r : Resource) (log l : List Event) : grantOrder r log <+: grantOrder r (log ++ l) := by
  rw [grantOrder, grantOrder, keysOf_append, List.filter_append]
  exact List.prefix_append _ _

end

/-! ## What waits -/

/-- The LOCKs that wait at a daemon. -/
def Daemon.lockNumbers (d : Daemon) : List (UInt32 × UInt32) :=
  (d.out.filter fun m => m.request = .lock).map fun m => m.key.number

/-- The numbers of node `n`'s requests, the ordered ones and those that wait. -/
def Sys.numbers (s : Sys) (n : UInt32) : List (UInt32 × UInt32) :=
  ((keysOf .lock s.log).filter fun k => k.nodeid = n).map (·.number) ++
    ((s.nodes n).map fun nd => nd.d.lockNumbers).getD []

/-- What a step sends waits behind the rest of its cell. -/
theorem Daemon.sent_of_out {d d' : Daemon} {ms : List CpgLockMsg} (h : d'.out = d.out ++ ms)
    (r : Resource) :
    (d'.cell r).sent = (d.cell r).sent ++ ms.filter (CpgLockMsg.concerns r) := by
  rw [Daemon.cell, h, List.filter_append]
  rfl

/-- No smooth delivery sends a LOCK. -/
theorem Daemon.no_lock_sent {d d' : Daemon} {now : Nat} {m : CpgLockMsg} {ms : List CpgLockMsg}
    (h : ∀ r, d.CellMove r now m (d'.cell r)) (hout : d'.out = d.out ++ ms) :
    ∀ g ∈ ms, g.request ≠ .lock := by
  intro g hg hl
  have hsent := sent_of_out hout g.resource
  have hmem : g ∈ ms.filter (CpgLockMsg.concerns g.resource) :=
    List.mem_filter.2 ⟨hg, by simp [CpgLockMsg.concerns]⟩
  rcases (h g.resource).sent_cases with heq | ⟨q, heq, -⟩ | ⟨-, -, -, -, heq⟩
  · rw [hsent, List.append_right_eq_self] at heq
    simp [heq] at hmem
  · rw [hsent] at heq
    rw [List.append_cancel_left heq] at hmem
    rw [List.mem_singleton.1 hmem] at hl
    cases hl
  · rw [hsent] at heq
    rw [List.append_cancel_left heq] at hmem
    rw [List.mem_singleton.1 hmem] at hl
    cases hl

theorem Daemon.lockNumbers_append {d d' : Daemon} {ms : List CpgLockMsg}
    (hout : d'.out = d.out ++ ms) (hms : ∀ g ∈ ms, g.request ≠ .lock) :
    d'.lockNumbers = d.lockNumbers := by
  have : ms.filter (fun m => m.request = .lock) = [] :=
    List.filter_eq_nil_iff.2 fun g hg => by simpa using hms g hg
  rw [lockNumbers, hout, List.filter_append, this, List.append_nil]
  rfl

/-- A client's LOCK waits, its other messages make no LOCK wait. -/
theorem Daemon.lockNumbers_clientActivityCb (d : Daemon) (fd : Nat) (m : CpgLockMsg) :
    (d.clientActivityCb fd m).lockNumbers =
      d.lockNumbers ++ if m.request = .lock then [(m.ownerPid, m.ownerTid)] else [] := by
  by_cases hm : m.request = .lock
  · simp [clientActivityCb, hm, lockNumbers, sendLock, sendLockMsg, setClientPid, RequestKey.number,
      CpgLockMsg.key]
  · obtain ⟨-, ms, hms, -⟩ := Daemon.clientActivityCb_out d fd m
    rw [if_neg hm, List.append_nil]
    refine lockNumbers_append hms fun g hg hl => ?_
    have hsent := sent_of_out hms g.resource
    have hmem : g ∈ ms.filter (CpgLockMsg.concerns g.resource) :=
      List.mem_filter.2 ⟨hg, by simp [CpgLockMsg.concerns]⟩
    rcases (Daemon.cellWrite_clientActivityCb d g.resource fd m).sent_cases with
      heq | ⟨h, -⟩ | ⟨q, heq, -⟩ | ⟨u, hu, -, heq⟩
    · rw [hsent, List.append_right_eq_self] at heq
      simp [heq] at hmem
    · exact hm h
    · rw [hsent] at heq
      rw [List.append_cancel_left heq] at hmem
      rw [List.mem_singleton.1 hmem] at hl
      cases hl
    · rw [hsent] at heq
      rw [List.append_cancel_left heq] at hmem
      rw [List.mem_singleton.1 hmem, hu] at hl
      cases hl

/-! ## Runs -/

theorem Obs.asker_of_ne {o : Obs} {n : UInt32} (h : o.node ≠ n) : o.asker n = none := by
  cases o with
  | recv k fd m => simp [Obs.asker, show k ≠ n from h]
  | _ => rfl

theorem filterMap_asker_effects (n k : UInt32) (cause : Option Nat) (d d' : Daemon) :
    (Sys.effects k cause d d').filterMap (Obs.asker n) = [] := by
  refine List.filterMap_eq_nil_iff.2 fun o ho => ?_
  rcases List.mem_append.1 ho with ho | ho
  all_goals
    obtain ⟨_, -, rfl⟩ := List.mem_map.1 ho
    rfl

section

variable {P : Sys → Act → Prop} (hP : ∀ s a, P s a → s.FailureFree a)
include hP

/-- One daemon's step reads at most one LOCK, which then waits. -/
theorem Runs.lockNumbers_local {s : Sys} (h : Runs P .init s) {n : UInt32} {nd : Node} {a : Act}
    {d : Daemon} {pos : Nat} {cause : Option Nat} {seen : List Obs} (hp : P s a)
    (hn : s.nodes n = some nd) (hl : s.Local n nd a d pos cause seen) :
    d.lockNumbers = nd.d.lockNumbers ++ seen.filterMap (Obs.asker n) := by
  cases hl with
  | @deliver e he =>
    rw [List.filterMap_nil, List.append_nil]
    cases e with
    | confchg members left join =>
      obtain rfl := h.nobody_left (fun s a hp => (hP s a hp).1) _ _ _ (List.mem_of_getElem? he)
      rfl
    | msg x m =>
      obtain ⟨hlog, hheard⟩ := h.heard hP
      have hs := h.smooth_of hP hlog (hheard n nd hn) hn he
      obtain ⟨ms, hms, -⟩ := (Daemon.grows_deliver nd.d nd.pos (.msg x m)).out
      exact Daemon.lockNumbers_append hms (Daemon.no_lock_sent (fun r =>
        (Daemon.cellStep_deliver nd.d nd.pos x m).move
          ⟨hs.kept, hs.real, hs.member, hs.mine, hs.connected⟩) hms)
  | connect => simp [Daemon.insertClient, Daemon.lockNumbers]
  | @recv fd m hfd =>
    rw [Daemon.lockNumbers_clientActivityCb]
    by_cases hm : m.request = .lock <;> simp [Obs.asker, hm]
  | close => exact ((hP _ _ hp).2.1 : False).elim

/-- A daemon's requests are ordered as it read them. -/
theorem Runs.numbers {s : Sys} (h : Runs P .init s) (n : UInt32) :
    s.trace.filterMap (Obs.asker n) = s.numbers n := by
  induction h with
  | start => rfl
  | @next s s' a hr hp hstep ih =>
    have hs := Runs.sound hr
    obtain ⟨members, left, join, boot, rfl, hok, rfl⟩ | ⟨k, nd, m, out, rfl, hn, hout, rfl⟩ |
      ⟨k, nd, d, pos, cause, seen, hn, -, hl, rfl⟩ := Sys.step_cases hstep
    · obtain rfl : left = [] := (hP _ _ hp).1
      have hlog : (s.change members [] join boot).log = s.log ++ [.confchg members [] join] := rfl
      have htrace : (s.change members [] join boot).trace = s.trace := List.append_nil _
      rw [htrace, ih, Sys.numbers, Sys.numbers, hlog, keysOf_change]
      congr 1
      show _ = ((s.nodesAfter [] join boot n).map _).getD []
      cases hj : join.find? fun x => x.nodeid = n with
      | none => simp [Sys.nodesAfter, hj]
      | some x =>
        have hx : x.nodeid = n := by simpa using List.find?_some hj
        have hnone := hs.nodes_join hok (List.mem_of_find?_eq_some hj)
        rw [hx] at hnone
        simp [Sys.nodesAfter, hj, hnone, Daemon.start, Daemon.sendJoin, Daemon.sendLockMsg,
          Daemon.lockNumbers, CpgLockMsg.blank]
    · have hlog : (s.orderNext k nd m out).log = s.log ++ [.msg ⟨k, nd.d.myPid⟩ m] := rfl
      have hown := (((Runs.heard hP hr).2 k nd hn).sent m (Node.mem_view hout)).1
      refine ih.trans ?_
      rw [Sys.numbers, Sys.numbers, hlog]
      show _ = _ ++ ((s.setNode k { nd with d := { nd.d with out } } n).map _).getD []
      by_cases hk : n = k
      · subst hk
        rw [Sys.setNode_self, hn]
        by_cases hm : m.request = .lock
        · have hnode : m.key.nodeid = n := hown hm
          simp [keysOf_msg hm, hnode, Daemon.lockNumbers, hout, hm]
        · simp [keysOf_of_ne hm, Daemon.lockNumbers, hout, hm]
      · rw [Sys.setNode_of_ne s _ hk]
        by_cases hm : m.request = .lock
        · have hnode : m.key.nodeid ≠ n := fun h => hk (h.symm.trans (hown hm))
          simp [keysOf_msg hm, hnode]
        · rw [keysOf_of_ne hm]
    · have htrace : (s.run k nd d pos cause seen).trace.filterMap (Obs.asker n) =
          s.trace.filterMap (Obs.asker n) ++ seen.filterMap (Obs.asker n) := by
        rw [Sys.run, List.filterMap_append, List.filterMap_append, filterMap_asker_effects,
          List.append_nil]
      rw [htrace, ih, Sys.numbers, Sys.numbers, List.append_assoc]
      congr 1
      show _ = ((s.setNode k { nd with d, pos } n).map _).getD []
      by_cases hk : n = k
      · subst hk
        rw [Sys.setNode_self, hn]
        exact (Runs.lockNumbers_local hP hr hp hn hl).symm
      · have hseen : seen.filterMap (Obs.asker n) = [] :=
          List.filterMap_eq_nil_iff.2 fun o ho =>
            Obs.asker_of_ne fun he => hk (he.symm.trans (hl.node_seen o ho))
        rw [Sys.setNode_of_ne s _ hk, hseen, List.append_nil]

/-- The numbers that a daemon read differ. -/
theorem Runs.asker_nodup {s : Sys} (h : Runs P .init s) (n : UInt32) :
    (s.trace.filterMap (Obs.asker n)).Nodup := by
  refine h.invariant (I := fun s => (s.trace.filterMap (Obs.asker n)).Nodup) List.nodup_nil ?_
  intro s s' a hi hp hstep
  obtain ⟨members, left, join, boot, rfl, -, rfl⟩ | ⟨k, nd, m, out, rfl, -, -, rfl⟩ |
    ⟨k, nd, d, pos, cause, seen, -, -, hl, rfl⟩ := Sys.step_cases hstep
  · obtain rfl : left = [] := (hP _ _ hp).1
    rwa [show (s.change members [] join boot).trace = s.trace from List.append_nil _]
  · exact hi
  · rw [Sys.run, List.filterMap_append, List.filterMap_append, filterMap_asker_effects,
      List.append_nil]
    cases hl with
    | @recv fd m _ =>
      have hfresh := (hP _ _ hp).2.2.2.1
      by_cases hm : k = n ∧ m.request = .lock
      · obtain ⟨rfl, hm⟩ := hm
        rw [List.filterMap_cons, show Obs.asker k (.recv k fd m) = some (m.ownerPid, m.ownerTid) by
          simp [Obs.asker, hm]]
        refine List.nodup_append.2 ⟨hi, List.nodup_singleton _, ?_⟩
        rintro x hx y hy rfl
        rw [List.mem_singleton.1 hy] at hx
        exact hfresh hm hx
      · simpa [Obs.asker, hm] using hi
    | close => exact ((hP _ _ hp).2.1 : False).elim
    | _ => simpa using hi

/-- No two LOCKs of a node have the same number. -/
theorem Runs.numbers_nodup {s : Sys} (h : Runs P .init s) (n : UInt32) :
    (((keysOf .lock s.log).filter fun k => k.nodeid = n).map (·.number)).Nodup := by
  have hnd := h.asker_nodup hP n
  rw [h.numbers hP] at hnd
  exact (List.nodup_append.1 hnd).1

/-- No two LOCKs have the same identity. -/
theorem Runs.locks_nodup {s : Sys} (h : Runs P .init s) : (keysOf .lock s.log).Nodup := by
  rw [List.nodup_iff_count_le_one]
  intro k
  have hn := (List.Nodup.of_map _ (h.numbers_nodup hP k.nodeid))
  rw [List.nodup_iff_count_le_one] at hn
  have := hn k
  rwa [List.count_filter (by simp)] at this

/-- A LOCK's identity is new. -/
theorem Runs.lock_fresh {s : Sys} (h : Runs P .init s) :
    Ordered (fun done _ m => m.request = .lock → ¬Locked done m.key) s.log := by
  intro j x m hj hm
  rw [locked_iff]
  exact keysOf_fresh (h.locks_nodup hP) hj hm

end

end Cpglock
