import Cpglock.Daemon.Proof.Frame

/-!
# What is written to clients

Only the delivery of an own GRANT for a known lock and of an own NAK for a queued request writes to a
client, and only the former hands out a lock id (`Writes`, `writes_deliver`). Everything else is
`Silent`: the replies, the lock ids and their counter stay.
-/

namespace Cpglock

namespace Daemon

/-- The lock id of the entry for `r`, 0 if there is no entry. -/
def lockId (d : Daemon) (r : Resource) : UInt64 := ((d.locks.get r).map (·.localId)).getD 0

structure Silent (d d' : Daemon) : Prop where
  lockId : ∀ r, d'.lockId r = d.lockId r
  counter : d'.localLockid = d.localLockid
  replies : d'.replies = d.replies

/-- The GRANT written to the client whose request `m` grants. -/
def grantReply (d : Daemon) (m : CpgLockMsg) : CpgLockMsg :=
  { CpgLockMsg.blank .grant with
    resource := m.resource
    ownerNodeid := d.myNodeId
    ownerPid := m.ownerPid
    ownerTid := m.ownerTid
    lockid := d.localLockid + 1 }

/-- The NAK written to the client whose request `m` refuses. -/
def nakReply (d : Daemon) (m : CpgLockMsg) : CpgLockMsg :=
  { CpgLockMsg.blank .nak with
    resource := m.resource
    ownerNodeid := d.myNodeId
    ownerPid := m.ownerPid
    ownerTid := m.ownerTid }

/-- What is written for process `pid`: the message goes to its first client, if it has one. -/
def written (d : Daemon) (pid : UInt32) (m : CpgLockMsg) : List (Nat × CpgLockMsg) :=
  (d.findClient pid).toList.map fun c => (c.fd, m)

namespace Silent

theorem refl (d : Daemon) : Silent d d := ⟨fun _ => rfl, rfl, rfl⟩

theorem trans {d d' d'' : Daemon} (h : Silent d d') (h' : Silent d' d'') : Silent d d'' :=
  ⟨fun r => (h'.lockId r).trans (h.lockId r), h'.counter.trans h.counter,
    h'.replies.trans h.replies⟩

/-- An assignment that leaves the lock table, the counter and the replies alone. -/
theorem assign (d : Daemon) (g : Membership) (requests : List RequestItem)
    (clients : List ClientItem) (history : History) (out : List CpgLockMsg) :
    Silent d { d with toMembership := g, requests, clients, history, out } :=
  ⟨fun _ => rfl, rfl, rfl⟩

theorem send (d : Daemon) (m : CpgLockMsg) : Silent d (d.sendLockMsg m) :=
  ⟨fun _ => rfl, rfl, rfl⟩

theorem setLock (d : Daemon) (r : Resource) (f : CpgLock → CpgLock)
    (hf : ∀ l, (f l).localId = l.localId) : Silent d (d.setLock r f) := by
  refine ⟨fun k => ?_, rfl, rfl⟩
  by_cases hk : k = r
  · subst hk
    cases hl : d.locks.get k <;> simp [Daemon.lockId, Daemon.setLock, hl, hf]
  · simp [Daemon.lockId, Daemon.setLock, hk]

theorem putLock (d : Daemon) {r : Resource} (l : CpgLock) (hn : d.locks.get r = none)
    (hl : l.localId = 0) : Silent d (d.putLock r l) := by
  refine ⟨fun k => ?_, rfl, rfl⟩
  by_cases hk : k = r
  · subst hk
    simp [Daemon.lockId, Daemon.putLock, hn, hl]
  · simp [Daemon.lockId, Daemon.putLock, hk]

theorem grantNext {d d' : Daemon} {m : CpgLockMsg} (h : d.grantNext m = some d') : Silent d d' := by
  obtain ⟨p, -, rfl⟩ := Option.map_eq_some_iff.1 h
  exact ⟨fun _ => rfl, rfl, rfl⟩

theorem grantNextElse {d : Daemon} {m : CpgLockMsg} {k : Daemon → Daemon} (hk : Silent d (k d)) :
    Silent d (d.grantNextElse m k) := by
  unfold Daemon.grantNextElse
  cases h : d.grantNext m with
  | none => exact hk
  | some d' => exact grantNext h

theorem grantNextElse_sendUnlock (d : Daemon) (m m' : CpgLockMsg) :
    Silent d (d.grantNextElse m (·.sendUnlock m')) := grantNextElse (send d _)

theorem iter {f : Daemon → Resource → CpgLock → Daemon} (hf : ∀ d r l, Silent d (f d r l))
    (m : SortedMap Resource CpgLock) (d : Daemon) : Silent d (m.iter f d) :=
  m.iter_induction (I := Silent d) (refl d) fun d' r l _ h => h.trans (hf d' r l)

end Silent

/-! ## Clients -/

theorem silent_delClient (d : Daemon) (fd : Nat) : Silent d (d.delClient fd) := by
  have hu : Silent d (d.unlinkClient fd) := ⟨fun _ => rfl, rfl, rfl⟩
  unfold delClient
  split
  · exact hu
  · refine hu.trans ?_
    unfold recoverClient
    have hp : Silent (d.unlinkClient fd)
        (((d.unlinkClient fd).purgeRequests (d.unlinkClient fd).myNodeId (d.clientPid fd)).sendLockMsg
          { CpgLockMsg.blank .purge with
            ownerNodeid := (d.unlinkClient fd).myNodeId, ownerPid := d.clientPid fd }) :=
      ⟨fun _ => rfl, rfl, rfl⟩
    refine hp.trans (Silent.iter (fun d r l => ?_) _ _)
    unfold recoverClientLock
    split
    · exact (Silent.setLock d r _ fun _ => by rfl).trans (Silent.grantNextElse_sendUnlock _ _ _)
    · exact .refl d

theorem silent_clientActivityCb (d : Daemon) (fd : Nat) (m : CpgLockMsg) :
    Silent d (d.clientActivityCb fd m) := by
  unfold clientActivityCb
  split
  · exact ⟨fun _ => rfl, rfl, rfl⟩
  · cases d.findLockById m with
    | none => exact .refl d
    | some m' => exact Silent.grantNextElse_sendUnlock d m' m'
  · exact ⟨fun _ => rfl, rfl, rfl⟩
  · exact .refl d

/-! ## Departed nodes -/

theorem silent_delNode (d : Daemon) (nodeid : UInt32) : Silent d (d.delNode nodeid) := by
  unfold delNode
  split
  · refine Silent.iter (fun d r l => ?_) _ _
    unfold reassignLock
    split
    · exact .setLock d r _ fun _ => by rfl
    · exact .refl d
  · unfold recoverNode
    have hp : Silent d ((d.purgeRequests nodeid 0).sendLockMsg
        { CpgLockMsg.blank .purge with ownerNodeid := nodeid, ownerPid := 0 }) :=
      ⟨fun _ => rfl, rfl, rfl⟩
    refine hp.trans (Silent.iter (fun d r l => ?_) _ _)
    unfold recoverNodeLock
    dsimp only
    split
    · refine (Silent.setLock d r _ fun _ => by rfl).trans (Silent.grantNextElse ?_)
      exact (Silent.setLock _ r _ fun _ => by rfl).trans (Silent.send _ _)
    · split
      · exact Silent.grantNextElse (Silent.setLock d r _ fun _ => by rfl)
      · exact .refl d

theorem silent_cpgConfigChange (d : Daemon) (members left join : List MemberItem) :
    Silent d (d.cpgConfigChange members left join) := by
  have key : ∀ (left : List MemberItem) (p : Daemon × Int), Silent p.1 (left.foldl dropLeft p).1 := by
    intro left
    induction left with
    | nil => exact fun p => .refl p.1
    | cons x left ih =>
      intro p
      refine Silent.trans ?_ (ih (dropLeft p x))
      unfold dropLeft
      split
      · exact .refl _
      · split
        · split
          · exact ⟨fun _ => rfl, rfl, rfl⟩
          · have herase : Silent p.1 { p.1 with groupMembers := p.1.groupMembers.erase x } :=
              ⟨fun _ => rfl, rfl, rfl⟩
            exact herase.trans (silent_delNode _ _)
        · exact .refl _
  have h0 : Silent d { d with
      history := d.history.oldMsg { CpgLockMsg.blank .confchg with resource := .none }
      toMembership := d.toMembership.setUp members join } := ⟨fun _ => rfl, rfl, rfl⟩
  have h1 := h0.trans (key left (_, 0))
  exact ⟨h1.lockId, h1.counter, h1.replies⟩

/-! ## Delivered messages -/

theorem silent_grantFree (d : Daemon) (m : CpgLockMsg) : Silent d (d.grantFree m) :=
  (Silent.setLock d m.resource _ fun _ => by rfl).trans
    (Silent.grantNextElse (Silent.setLock _ m.resource _ fun _ => by rfl))

theorem silent_processLock (d : Daemon) (m : CpgLockMsg) (now : Nat) :
    Silent d (d.processLock m now) := by
  unfold processLock
  split
  · exact .refl d
  · have hq : Silent d (d.queueRequest m now) := ⟨fun _ => rfl, rfl, rfl⟩
    refine hq.trans ?_
    dsimp only
    split
    · split
      · split
        · exact silent_grantFree _ m
        · split
          · exact .send _ _
          · exact .refl _
      · exact .refl _
    · next hl =>
      refine (Silent.putLock _ .blank hl rfl).trans ?_
      split
      · exact silent_grantFree _ m
      · exact .refl _

theorem silent_regrantNonMember (d : Daemon) (m : CpgLockMsg) :
    Silent d (d.regrantNonMember m) := by
  unfold regrantNonMember
  split
  · exact (Silent.setLock d _ _ fun _ => by rfl).trans (Silent.grantNextElse_sendUnlock _ _ _)
  · exact .refl d

theorem silent_processUnlock (d : Daemon) (m : CpgLockMsg) : Silent d (d.processUnlock m) := by
  unfold processUnlock
  split
  · exact .refl d
  · refine Silent.iter (fun d r l => ?_) _ _
    unfold unlockEntry
    split
    · have hs : Silent d (d.setLock r fun l => { l with state := .free }) :=
        Silent.setLock d r _ fun _ => by rfl
      refine hs.trans ?_
      dsimp only
      split
      · cases h : (d.setLock r fun l => { l with state := .free }).grantNext m with
        | none => exact .refl _
        | some d' => exact (Silent.grantNext h).trans (Silent.setLock d' r _ fun _ => by rfl)
      · exact .refl _
    · exact .refl d

/-- What the delivery of `m` does to the replies and the lock ids. -/
inductive Writes (d : Daemon) (m : CpgLockMsg) (d' : Daemon) : Prop
  | silent : Silent d d' → Writes d m d'
  | grant : d.joined = true → m.request = .grant → m.ownerNodeid = d.myNodeId →
      d.locks.get m.resource ≠ none →
      (∀ r, d'.lockId r = if r = m.resource then d.localLockid + 1 else d.lockId r) →
      d'.localLockid = d.localLockid + 1 →
      d'.replies = d.replies ++ d.written m.ownerPid (d.grantReply m) → Writes d m d'
  | nak : d.joined = true → m.request = .nak → m.ownerNodeid = d.myNodeId →
      (∃ q ∈ d.requests, q.key = m.key) → (∀ r, d'.lockId r = d.lockId r) →
      d'.localLockid = d.localLockid →
      d'.replies = d.replies ++ d.written m.ownerPid (d.nakReply m) → Writes d m d'

theorem notifyClient_replies (d : Daemon) (pid : UInt32) (m : CpgLockMsg) :
    (d.notifyClient pid m).1.replies = d.replies ++ d.written pid m := by
  unfold notifyClient written
  cases d.findClient pid <;> simp

theorem notifyClient_lockId (d : Daemon) (pid : UInt32) (m : CpgLockMsg) (r : Resource) :
    (d.notifyClient pid m).1.lockId r = d.lockId r ∧
      (d.notifyClient pid m).1.localLockid = d.localLockid := by
  unfold notifyClient
  cases d.findClient pid <;> exact ⟨rfl, rfl⟩

theorem writes_processGrant (d : Daemon) {m : CpgLockMsg} (hm : m.request = .grant) :
    Writes d m (d.processGrant m) := by
  unfold processGrant
  split
  · exact .silent (.refl d)
  · next hj =>
    split
    · next l hl =>
      split
      · exact .silent (.refl d)
      · have hs : Silent d ((d.setLock m.resource (granted m)).unlinkRequest m) :=
          (Silent.setLock d m.resource _ fun _ => by rfl).trans ⟨fun _ => rfl, rfl, rfl⟩
        dsimp only
        split
        · next hme =>
          -- the entry is numbered and its process's client written to
          let e := (d.setLock m.resource (granted m)).unlinkRequest m
          have hg : (e.grantClient m.resource (granted m l)).1.replies =
              d.replies ++ d.written m.ownerPid (d.grantReply m) := notifyClient_replies _ _ _
          have hid := fun r => notifyClient_lockId (e.numberLock m.resource) (granted m l).ownerPid
            (d.grantReply m) r
          have hnum : ∀ r, (e.numberLock m.resource).lockId r =
              if r = m.resource then d.localLockid + 1 else d.lockId r := by
            intro r
            by_cases hr : r = m.resource
            · subst hr
              simp [numberLock, lockId, Daemon.setLock, unlinkRequest, hl, e]
            · simp [numberLock, lockId, Daemon.setLock, unlinkRequest, hr, e]
          have hrest : Silent (e.grantClient m.resource (granted m l)).1 (e.grantLocal m (granted m l)) := by
            unfold grantLocal
            dsimp only
            split
            · exact silent_regrantNonMember _ m
            · refine Silent.trans ?_ (Silent.grantNextElse_sendUnlock _ _ _)
              exact ⟨fun _ => rfl, rfl, rfl⟩
          refine .grant (by simpa using hj) hm hme (by simp [hl]) (fun r => ?_) ?_ ?_
          · exact (hrest.lockId r).trans ((hid r).1.trans (hnum r))
          · exact hrest.counter.trans (hid m.resource).2
          · exact hrest.replies.trans hg
        · exact .silent (hs.trans (silent_regrantNonMember _ m))
    · next hl => exact .silent (Silent.putLock d _ hl rfl)

theorem writes_processNak (d : Daemon) {m : CpgLockMsg} (hm : m.request = .nak) :
    Writes d m (d.processNak m) := by
  unfold processNak
  split
  · exact .silent (.refl d)
  · next hj =>
    split
    · exact .silent (.refl d)
    · next q hf =>
      have hk : q.key = m.key := by simpa using List.find?_some hf
      have hn : q.ownerNodeid = m.ownerNodeid := congrArg RequestKey.nodeid hk
      have hp : q.ownerPid = m.ownerPid := congrArg RequestKey.pid hk
      have ht : q.ownerTid = m.ownerTid := congrArg RequestKey.tid hk
      have hr : q.resource = m.resource := congrArg RequestKey.resource hk
      dsimp only
      split
      · next hme =>
        let e := d.unlinkRequest m
        have hreply : (e.nakClient q).1.replies =
            d.replies ++ d.written m.ownerPid (d.nakReply m) := by
          rw [nakClient, notifyClient_replies, hp, ht, hr]
          rfl
        have hid := fun r => notifyClient_lockId e q.ownerPid { CpgLockMsg.blank .nak with
          resource := q.resource, ownerNodeid := e.myNodeId, ownerPid := q.ownerPid,
          ownerTid := q.ownerTid } r
        have hrest : Silent (e.nakClient q).1 (if (e.nakClient q).2 = true then (e.nakClient q).1
            else (e.nakClient q).1.purgeRequests e.myNodeId q.ownerPid) := by
          split
          · exact .refl _
          · exact ⟨fun _ => rfl, rfl, rfl⟩
        refine .nak (by simpa using hj) hm (hn.symm.trans hme) ⟨q, List.mem_of_find?_eq_some hf, hk⟩
          (fun r => ?_) ?_ ?_
        · exact (hrest.lockId r).trans (hid r).1
        · exact hrest.counter.trans (hid m.resource).2
        · exact hrest.replies.trans hreply
      · exact .silent ⟨fun _ => rfl, rfl, rfl⟩

theorem writes_deliver (d : Daemon) (now : Nat) (x : MemberItem) (m : CpgLockMsg) :
    Writes d m (d.deliver now (.msg x m)) := by
  let e : Daemon := { d with history := d.history.oldMsg m }
  have he : ∀ {d'}, Silent e d' → Writes d m d' := fun h => .silent ⟨h.lockId, h.counter, h.replies⟩
  simp only [deliver, processRequest]
  split
  · exact .silent ⟨fun _ => rfl, rfl, rfl⟩
  · exact he (silent_processLock e m now)
  · next hm =>
    cases writes_processNak e hm with
    | silent h => exact he h
    | grant _ hg => rw [hm] at hg; cases hg
    | nak h₁ h₂ h₃ h₄ h₅ h₆ h₇ => exact .nak h₁ h₂ h₃ h₄ h₅ h₆ h₇
  · next hm =>
    cases writes_processGrant e hm with
    | silent h => exact he h
    | grant h₁ h₂ h₃ h₄ h₅ h₆ h₇ => exact .grant h₁ h₂ h₃ h₄ h₅ h₆ h₇
    | nak _ hg => rw [hm] at hg; cases hg
  · exact he (silent_processUnlock e m)
  · exact .silent ⟨fun _ => rfl, rfl, rfl⟩
  · exact .silent ⟨fun _ => rfl, rfl, rfl⟩
  · exact .silent ⟨fun _ => rfl, rfl, rfl⟩

end Daemon

end Cpglock
