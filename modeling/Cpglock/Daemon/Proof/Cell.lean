import Cpglock.Daemon.Cell
import Cpglock.Daemon.Proof.Frame

/-!
# The handlers, one resource at a time

For every handler, what it does to the cell of a resource: the cell function of the same name on the
cell of the message's resource (`cell_processLock`, `cell_processGrant`, ...), nothing or a purge on
the others.
-/

namespace Cpglock.Daemon

variable {r : Resource}

/-! ## Assignments -/

theorem cell_sendLockMsg (d : Daemon) (m : CpgLockMsg) : (d.sendLockMsg m).cell r =
    if m.concerns r then (d.cell r).send m else d.cell r := by
  by_cases h : m.concerns r <;> simp [cell, sendLockMsg, Cell.send, h]

theorem cell_send {m : CpgLockMsg} (d : Daemon) (h : m.concerns r = true) :
    (d.sendLockMsg m).cell r = (d.cell r).send m := by
  rw [cell_sendLockMsg, if_pos h]

theorem cell_setLock (d : Daemon) (f : CpgLock → CpgLock) :
    (d.setLock r f).cell r = (d.cell r).set f := by
  simp [cell, setLock, Cell.set]

theorem cell_setLock_of_ne (d : Daemon) {r' : Resource} (f : CpgLock → CpgLock) (h : r ≠ r') :
    (d.setLock r' f).cell r = d.cell r := by
  simp [cell, setLock, h]

theorem cell_putLock (d : Daemon) (l : CpgLock) :
    (d.putLock r l).cell r = { d.cell r with lock := some l } := by
  simp [cell, putLock]

theorem cell_putLock_of_ne (d : Daemon) {r' : Resource} (l : CpgLock) (h : r ≠ r') :
    (d.putLock r' l).cell r = d.cell r := by
  simp [cell, putLock, h]

theorem cell_purgeRequests (d : Daemon) (n p : UInt32) :
    (d.purgeRequests n p).cell r = (d.cell r).purge n p := by
  simp only [cell, purgeRequests, Cell.purge, List.filter_filter]
  congr 1
  exact List.filter_congr fun q _ => Bool.and_comm _ _

theorem cell_queueRequest (d : Daemon) {m : CpgLockMsg} (now : Nat) (h : m.resource = r) :
    (d.queueRequest m now).cell r = (d.cell r).enqueue m now := by
  simp [cell, queueRequest, Cell.enqueue, h]

theorem cell_queueRequest_of_ne (d : Daemon) {m : CpgLockMsg} (now : Nat) (h : m.resource ≠ r) :
    (d.queueRequest m now).cell r = d.cell r := by
  simp [cell, queueRequest, h]

/-- Unlinking the first request with an identity, among the requests of one resource. -/
theorem filter_eraseP_key (l : List RequestItem) (k : RequestKey) :
    (l.eraseP fun q => q.key = k).filter (fun q => q.resource = r) =
      if k.resource = r then (l.filter fun q => q.resource = r).eraseP fun q => q.key = k
      else l.filter fun q => q.resource = r := by
  induction l with
  | nil => simp
  | cons q l ih =>
    by_cases hk : q.key = k
    · have hr : q.resource = k.resource := by rw [← hk]; rfl
      by_cases h : k.resource = r <;> simp [hk, hr, h]
    · by_cases hq : q.resource = r <;> by_cases h : k.resource = r <;> simp_all

theorem cell_unlinkRequest (d : Daemon) {m : CpgLockMsg} (h : m.resource = r) :
    (d.unlinkRequest m).cell r = (d.cell r).unlink m.key := by
  have := filter_eraseP_key (r := r) d.requests m.key
  rw [show m.key.resource = m.resource from rfl, if_pos h] at this
  simp only [cell, unlinkRequest, Cell.unlink, this]

theorem cell_unlinkRequest_of_ne (d : Daemon) {m : CpgLockMsg} (h : m.resource ≠ r) :
    (d.unlinkRequest m).cell r = d.cell r := by
  have := filter_eraseP_key (r := r) d.requests m.key
  rw [show m.key.resource = m.resource from rfl, if_neg h] at this
  simp only [cell, unlinkRequest, this]

theorem cell_notifyClient (d : Daemon) (pid : UInt32) (m : CpgLockMsg) :
    (d.notifyClient pid m).1.cell r = d.cell r := by
  unfold notifyClient
  cases d.findClient pid <;> rfl

theorem cell_numberLock (d : Daemon) : (d.numberLock r).cell r =
    (d.cell r).set fun l => { l with localId := d.localLockid + 1 } := by
  rw [← cell_setLock]
  rfl

theorem cell_numberLock_of_ne (d : Daemon) {r' : Resource} (h : r ≠ r') :
    (d.numberLock r').cell r = d.cell r :=
  cell_setLock_of_ne d _ h

/-! ## `grant_next` -/

theorem pickPending_filter (l : List RequestItem) :
    pickPending r (l.filter fun q => q.resource = r) =
      (pickPending r l).map fun p => (p.1, p.2.filter fun q => q.resource = r) := by
  induction l with
  | nil => rfl
  | cons q l ih =>
    by_cases hq : q.resource = r
    · by_cases hs : q.state = .pending
      · simp [pickPending, hq, hs]
      · simp only [List.filter_cons, hq, decide_true, if_true, pickPending, hs, and_false, if_false,
          ih, Option.map_map]
        refine congrArg (Option.map · _) (funext fun p => ?_)
        simp [hq]
    · have hne : ¬(r = q.resource ∧ q.state = .pending) := fun h => hq h.1.symm
      simp only [List.filter_cons, hq, decide_false, Bool.false_eq_true, if_false, pickPending, hne,
        ih, Option.map_map]
      refine congrArg (Option.map · _) (funext fun p => ?_)
      simp [hq]

theorem pickPending_resource {l : List RequestItem} {p : RequestItem × List RequestItem}
    (h : pickPending r l = some p) : p.1.resource = r ∧
      ∀ r', r' ≠ r → p.2.filter (fun q => q.resource = r') = l.filter fun q => q.resource = r' := by
  induction l generalizing p with
  | nil => cases h
  | cons q l ih =>
    simp only [pickPending] at h
    split at h
    · next hq =>
      obtain rfl := Option.some.inj h
      exact ⟨hq.1.symm, fun r' hr' => by simp [show ¬q.resource = r' from fun h => hr' (by rw [← h, hq.1])]⟩
    · obtain ⟨p', hp', rfl⟩ := Option.map_eq_some_iff.1 h
      obtain ⟨h1, h2⟩ := ih hp'
      exact ⟨h1, fun r' hr' => by simp only [List.filter_cons, h2 r' hr']⟩

theorem cell_grantNext (d : Daemon) {m : CpgLockMsg} (h : m.resource = r) :
    (d.grantNext m).map (·.cell r) = (d.cell r).grantNext r := by
  subst h
  simp only [grantNext, Cell.grantNext, Option.map_map]
  rw [show (d.cell m.resource).waiting = d.requests.filter fun q => q.resource = m.resource from rfl,
    pickPending_filter, Option.map_map]
  cases hp : pickPending m.resource d.requests with
  | none => rfl
  | some p =>
    have hc : (grantMsg p.1).concerns m.resource = true := by
      simp [CpgLockMsg.concerns, grantMsg, (pickPending_resource hp).1]
    exact congrArg some (cell_send { d with requests := p.2 } hc)

theorem cell_grantNext_of_ne {d d' : Daemon} {m : CpgLockMsg} (h : d.grantNext m = some d')
    (hr : r ≠ m.resource) : d'.cell r = d.cell r := by
  obtain ⟨p, hp, rfl⟩ := Option.map_eq_some_iff.1 h
  obtain ⟨h1, h2⟩ := pickPending_resource hp
  have hc : (grantMsg p.1).concerns r = false := by
    simpa [CpgLockMsg.concerns, grantMsg, CpgLockMsg.blank, h1] using hr.symm
  rw [sendGrant, cell_sendLockMsg, hc]
  simp [cell, h2 r hr]

theorem cell_grantNextElse (d : Daemon) {m : CpgLockMsg} {k : Daemon → Daemon} {f : Cell → Cell}
    (h : m.resource = r) (hk : (k d).cell r = f (d.cell r)) :
    (d.grantNextElse m k).cell r = (d.cell r).grantNextElse r f := by
  have := cell_grantNext d h
  unfold grantNextElse Cell.grantNextElse
  cases hd : d.grantNext m with
  | none => rw [hd] at this; rw [← this]; exact hk
  | some d' => rw [hd] at this; rw [← this]; rfl

theorem cell_grantNextElse_of_ne (d : Daemon) {m : CpgLockMsg} {k : Daemon → Daemon}
    (h : r ≠ m.resource) (hk : (k d).cell r = d.cell r) :
    (d.grantNextElse m k).cell r = d.cell r := by
  unfold grantNextElse
  cases hd : d.grantNext m with
  | none => exact hk
  | some d' => exact cell_grantNext_of_ne hd h

theorem cell_sendUnlock (d : Daemon) {m : CpgLockMsg} (h : m.resource = r) :
    (d.sendUnlock m).cell r = (d.cell r).send { m with request := .unlock } :=
  cell_send d (by simp [CpgLockMsg.concerns, h])

theorem cell_sendUnlock_of_ne (d : Daemon) {m : CpgLockMsg} (h : r ≠ m.resource) :
    (d.sendUnlock m).cell r = d.cell r := by
  rw [sendUnlock, cell_sendLockMsg, if_neg (by simpa [CpgLockMsg.concerns] using h.symm)]

theorem cell_grantNextOrUnlock (d : Daemon) {m : CpgLockMsg} (h : m.resource = r) :
    (d.grantNextElse m (·.sendUnlock m)).cell r = (d.cell r).grantNextOrUnlock r m :=
  cell_grantNextElse d h (cell_sendUnlock d h)

theorem cell_grantNextOrUnlock_of_ne (d : Daemon) {m : CpgLockMsg} (h : r ≠ m.resource) :
    (d.grantNextElse m (·.sendUnlock m)).cell r = d.cell r :=
  cell_grantNextElse_of_ne d h (cell_sendUnlock_of_ne d h)

/-! ## Iterations over the lock table -/

/-- An iteration whose step acts on the cell of its key alone. -/
theorem cell_iter {f : Daemon → Resource → CpgLock → Daemon} {I : Daemon → Prop}
    {g : Resource → CpgLock → Cell → Cell} (hI : ∀ d k l, I d → I (f d k l))
    (hf : ∀ d k l k', k' ≠ k → (f d k l).cell k' = d.cell k')
    (hg : ∀ d k l, I d → (f d k l).cell k = g k l (d.cell k)) {d : Daemon} (hd : I d) :
    (d.locks.iter f d).cell r = match (d.cell r).lock with
      | some l => g r l (d.cell r)
      | none => d.cell r := by
  rw [show (d.cell r).lock = d.locks.get r from rfl,
    SortedMap.view_iter (w := fun k d => cell d k) hI hf hg d.locks hd r]
  cases d.locks.get r <;> rfl

/-! ## Clients -/

theorem cell_recoverClient (d : Daemon) (pid : UInt32) :
    (d.recoverClient pid).cell r = (d.cell r).recoverClient r d.myNodeId pid := by
  have hpurge : ((d.purgeRequests d.myNodeId pid).sendLockMsg
      { CpgLockMsg.blank .purge with ownerNodeid := d.myNodeId, ownerPid := pid }).cell r =
      ((d.cell r).purge d.myNodeId pid).send
        { CpgLockMsg.blank .purge with ownerNodeid := d.myNodeId, ownerPid := pid } := by
    rw [cell_send _ (by simp [CpgLockMsg.concerns, CpgLockMsg.blank]), cell_purgeRequests]
  have hiter := cell_iter (r := r) (f := recoverClientLock pid)
    (I := fun d' => d'.myNodeId = d.myNodeId)
    (g := fun k l c =>
      if l.ownerNodeid = d.myNodeId ∧ l.ownerPid = pid ∧ l.state = .held then
        (c.setState .free).grantNextOrUnlock k
          { CpgLockMsg.blank .purge with resource := k, ownerNodeid := d.myNodeId, ownerPid := pid }
      else c)
    (fun d' k l hd' => (congrArg Membership.myNodeId
      (frame_recoverClientLock pid d' k l).membership).trans hd') ?_ ?_
    (d := (d.purgeRequests d.myNodeId pid).sendLockMsg
      { CpgLockMsg.blank .purge with ownerNodeid := d.myNodeId, ownerPid := pid }) rfl
  · rw [hpurge] at hiter
    exact hiter
  · intro d' k l k' hk
    unfold recoverClientLock
    dsimp only
    split
    · rw [cell_grantNextOrUnlock_of_ne _ hk, cell_setLock_of_ne _ _ hk]
    · rfl
  · intro d' k l hd'
    unfold recoverClientLock
    dsimp only
    rw [hd']
    split
    · rw [cell_grantNextOrUnlock _ rfl, cell_setLock]
      rfl
    · rfl

theorem cell_delClient (d : Daemon) (fd : Nat) : (d.delClient fd).cell r =
    if d.clientPid fd = 0 then d.cell r
    else (d.cell r).recoverClient r d.myNodeId (d.clientPid fd) := by
  unfold delClient
  split
  · rfl
  · exact cell_recoverClient _ _

/-- The entry that a lock id names. -/
theorem findLockById_some {d : Daemon} {m m' : CpgLockMsg} (h : d.findLockById m = some m') :
    ∃ l, d.locks.get m'.resource = some l ∧ l.localId = m.lockid ∧
      m'.ownerNodeid = l.ownerNodeid ∧ m'.ownerPid = l.ownerPid ∧ m'.ownerTid = l.ownerTid ∧
      m'.request = m.request := by
  obtain ⟨e, he, rfl⟩ := Option.map_eq_some_iff.1 h
  have hid : m.lockid = e.2.localId := by simpa using List.find?_some he
  exact ⟨e.2, SortedMap.mem_entries.1 (List.mem_of_find?_eq_some he), hid.symm, rfl, rfl, rfl, rfl⟩

theorem cell_clientActivityCb (d : Daemon) (fd : Nat) (m : CpgLockMsg) :
    (d.clientActivityCb fd m).cell r =
      if m.request = .lock ∧ m.resource = r then (d.cell r).send { m with ownerNodeid := d.myNodeId }
      else if m.request = .unlock then
        match d.findLockById m with
        | some m' => if m'.resource = r then (d.cell r).grantNextOrUnlock r m' else d.cell r
        | none => d.cell r
      else d.cell r := by
  unfold clientActivityCb
  split
  · next hm =>
    have : (d.setClientPid fd m.ownerPid).cell r = d.cell r := rfl
    rw [sendLock, cell_sendLockMsg, this]
    by_cases hr : m.resource = r <;> simp [CpgLockMsg.concerns, hm, hr, setClientPid]
  · next hm =>
    simp only [hm]
    cases d.findLockById m with
    | none => rfl
    | some m' =>
      by_cases hr : m'.resource = r
      · simpa [hr] using cell_grantNextOrUnlock d hr
      · simpa [hr] using cell_grantNextOrUnlock_of_ne d (Ne.symm hr)
  · next hm => simp [hm, unlinkClient, cell]
  · next h₁ h₂ _ => rw [if_neg fun h => h₁ h.1, if_neg h₂]

/-! ## Departed nodes -/

theorem cell_delNode (d : Daemon) (nodeid : UInt32) : (d.delNode nodeid).cell r =
    (d.cell r).delNode r d.myNodeId d.myPid d.getOldestNode nodeid := by
  unfold delNode Cell.delNode
  split
  · refine cell_iter (I := fun _ => True) (f := reassignLock nodeid d.getOldestNode)
      (g := fun _ l c => if l.ownerNodeid = nodeid then
        c.set fun l => { l with
          ownerNodeid := d.getOldestNode.nodeid, ownerPid := d.getOldestNode.pid } else c)
      (fun _ _ _ h => h) ?_ ?_ trivial
    · intro d' k l k' hk
      unfold reassignLock
      split
      · exact cell_setLock_of_ne _ _ hk
      · rfl
    · intro d' k l _
      unfold reassignLock
      split
      · exact cell_setLock _ _
      · rfl
  · have hpurge : ((d.purgeRequests nodeid 0).sendLockMsg
        { CpgLockMsg.blank .purge with ownerNodeid := nodeid, ownerPid := 0 }).cell r =
        ((d.cell r).purge nodeid 0).send
          { CpgLockMsg.blank .purge with ownerNodeid := nodeid, ownerPid := 0 } := by
      rw [cell_send _ (by simp [CpgLockMsg.concerns, CpgLockMsg.blank]), cell_purgeRequests]
    have hiter := cell_iter (r := r) (f := recoverNodeLock nodeid)
      (I := fun d' => d'.myNodeId = d.myNodeId ∧ d'.myPid = d.myPid)
      (g := fun k l c =>
        if l.ownerNodeid = nodeid ∧ l.state = .held then
          (c.setState .free).grantNextElse k fun c =>
            (c.take d.myNodeId d.myPid).send { CpgLockMsg.blank .unlock with
              resource := k, ownerNodeid := d.myNodeId, ownerPid := d.myPid }
        else if l.ownerNodeid = nodeid ∧ l.state = .free then
          c.grantNextElse k (·.take d.myNodeId d.myPid)
        else c)
      (fun d' k l hd' => ?_) ?_ ?_
      (d := (d.purgeRequests nodeid 0).sendLockMsg
        { CpgLockMsg.blank .purge with ownerNodeid := nodeid, ownerPid := 0 }) ⟨rfl, rfl⟩
    · rw [hpurge] at hiter
      exact hiter
    · have := (frame_recoverNodeLock nodeid d' k l).membership
      exact ⟨(congrArg Membership.myNodeId this).trans hd'.1,
        (congrArg Membership.myPid this).trans hd'.2⟩
    · intro d' k l k' hk
      unfold recoverNodeLock
      dsimp only
      split
      · rw [cell_grantNextElse_of_ne _ hk, cell_setLock_of_ne _ _ hk]
        exact (cell_sendUnlock_of_ne _ hk).trans (cell_setLock_of_ne _ _ hk)
      · split
        · exact cell_grantNextElse_of_ne _ hk (cell_setLock_of_ne _ _ hk)
        · rfl
    · intro d' k l hd'
      unfold recoverNodeLock
      dsimp only
      split
      · rw [cell_grantNextElse (f := fun c => (c.take d.myNodeId d.myPid).send
          { CpgLockMsg.blank .unlock with
            resource := k, ownerNodeid := d.myNodeId, ownerPid := d.myPid }) _ rfl, cell_setLock]
        · rfl
        · rw [cell_sendUnlock _ rfl, takeLock, cell_setLock]
          simp only [setLock, hd'.1, hd'.2]
          rfl
      · split
        · refine cell_grantNextElse _ rfl ?_
          rw [takeLock, cell_setLock, hd'.1, hd'.2]
          rfl
        · rfl

theorem cell_removeMember (d : Daemon) (x : MemberItem) : (d.removeMember x).cell r =
    (d.cell r).delNode r d.myNodeId d.myPid
      (({ d with groupMembers := d.groupMembers.erase x } : Daemon).getOldestNode) x.nodeid :=
  cell_delNode { d with groupMembers := d.groupMembers.erase x } x.nodeid

/-! ## Delivered messages -/

theorem cell_grantFree (d : Daemon) {m : CpgLockMsg} (h : m.resource = r) :
    (d.grantFree m).cell r = (d.cell r).grantFree r := by
  subst h
  exact (cell_grantNextElse _ rfl (cell_setLock _ _)).trans
    (congrArg (Cell.grantNextElse m.resource · _) (cell_setLock d _))

theorem cell_grantFree_of_ne (d : Daemon) {m : CpgLockMsg} (h : r ≠ m.resource) :
    (d.grantFree m).cell r = d.cell r :=
  (cell_grantNextElse_of_ne _ h (cell_setLock_of_ne _ _ h)).trans (cell_setLock_of_ne d _ h)

theorem cell_processLock (d : Daemon) {m : CpgLockMsg} (now : Nat) (hj : d.joined = true)
    (h : m.resource = r) : (d.processLock m now).cell r =
      (d.cell r).processLock r d.myNodeId (d.getOldestNode.nodeid = d.myNodeId) m now := by
  have hq := cell_queueRequest d now h
  have hlock : (d.queueRequest m now).locks.get m.resource = (d.cell r).lock := by rw [h]; rfl
  have hme : (d.queueRequest m now).toMembership = d.toMembership := rfl
  unfold processLock Cell.processLock
  simp only [hj, Bool.not_true, Bool.false_eq_true, if_false, hlock, hme]
  rw [show ((d.cell r).enqueue m now).lock = (d.cell r).lock from rfl]
  cases (d.cell r).lock with
  | some l =>
    simp only
    split
    · split
      · rw [cell_grantFree _ h, hq]
      · split
        · rw [sendNak, cell_send _ (by simp [CpgLockMsg.concerns, h]), hq]
        · exact hq
    · exact hq
  | none =>
    have hp : ((d.queueRequest m now).putLock m.resource .blank).cell r =
        { (d.cell r).enqueue m now with lock := some .blank } := by
      rw [h, cell_putLock, hq]
    have ho : ((d.queueRequest m now).putLock m.resource .blank).getOldestNode =
      d.getOldestNode := rfl
    have hme : ((d.queueRequest m now).putLock m.resource .blank).toMembership =
      d.toMembership := rfl
    simp only [decide_eq_true_eq, ho, hme]
    split
    · rw [cell_grantFree _ h, hp]
    · exact hp

theorem cell_processLock_of_ne (d : Daemon) {m : CpgLockMsg} (now : Nat) (h : r ≠ m.resource) :
    (d.processLock m now).cell r = d.cell r := by
  have hq := cell_queueRequest_of_ne d now h.symm
  unfold processLock
  split
  · rfl
  · dsimp only
    split
    · split
      · split
        · rw [cell_grantFree_of_ne _ h, hq]
        · split
          · rw [sendNak, cell_sendLockMsg, if_neg (by simpa [CpgLockMsg.concerns] using h.symm), hq]
          · exact hq
      · exact hq
    · split
      · rw [cell_grantFree_of_ne _ h, cell_putLock_of_ne _ _ h, hq]
      · rw [cell_putLock_of_ne _ _ h, hq]

/-- The daemon is first on its list, which does not have the node. -/
def lost (d : Daemon) (nodeid : UInt32) : Bool :=
  d.getOldestNode.nodeid = d.myNodeId ∧ !d.isMember nodeid

/-- The process has a client here. -/
def connected (d : Daemon) (pid : UInt32) : Bool := (d.findClient pid).isSome

theorem notifyClient_snd (d : Daemon) (pid : UInt32) (m : CpgLockMsg) :
    (d.notifyClient pid m).2 = d.connected pid := by
  unfold notifyClient connected
  cases d.findClient pid <;> rfl

theorem cell_regrantNonMember (d : Daemon) {m : CpgLockMsg} (h : m.resource = r) :
    (d.regrantNonMember m).cell r = (d.cell r).regrantNonMember r (d.lost m.ownerNodeid) m := by
  subst h
  unfold regrantNonMember Cell.regrantNonMember lost
  simp only [decide_eq_true_eq]
  split
  · rw [cell_grantNextOrUnlock _ rfl, cell_setLock]
    rfl
  · rfl

theorem cell_regrantNonMember_of_ne (d : Daemon) {m : CpgLockMsg} (h : r ≠ m.resource) :
    (d.regrantNonMember m).cell r = d.cell r := by
  unfold regrantNonMember
  split
  · rw [cell_grantNextOrUnlock_of_ne _ h, cell_setLock_of_ne _ _ h]
  · rfl

theorem cell_grantLocal (d : Daemon) {m : CpgLockMsg} {l : CpgLock} (h : m.resource = r)
    (hl : l.ownerPid = m.ownerPid) : (d.grantLocal m l).cell r =
      if d.connected m.ownerPid then
        ((d.cell r).set fun l => { l with localId := d.localLockid + 1 }).regrantNonMember r
          (d.lost m.ownerNodeid) m
      else
        (((d.cell r).set fun l => { l with localId := d.localLockid + 1 }).purge d.myNodeId
          m.ownerPid).grantNextOrUnlock r m := by
  subst h
  have hc : (d.grantClient m.resource l).1.cell m.resource =
      (d.cell m.resource).set fun l => { l with localId := d.localLockid + 1 } := by
    rw [grantClient, cell_notifyClient, cell_numberLock]
  have hs : (d.grantClient m.resource l).2 = d.connected m.ownerPid :=
    (notifyClient_snd _ _ _).trans (by rw [hl]; rfl)
  have hlost : (d.grantClient m.resource l).1.lost m.ownerNodeid = d.lost m.ownerNodeid := by
    have hf := Frame.notifyClient (d.numberLock m.resource) l.ownerPid
      { CpgLockMsg.blank .grant with
        resource := m.resource
        ownerNodeid := d.myNodeId
        ownerPid := l.ownerPid
        ownerTid := l.ownerTid
        lockid := d.localLockid + 1 }
    have hm := hf.membership
    have ho : ((d.grantClient m.resource l).1).stray = d.stray := hf.stray
    simp only [lost, getOldestNode, grantClient, hm]
    rw [show (notifyClient _ _ _).1.stray = d.stray from ho]
    rfl
  unfold grantLocal
  simp only [hs]
  split
  · rw [cell_regrantNonMember _ rfl, hc, hlost]
  · rw [cell_grantNextOrUnlock _ rfl, cell_purgeRequests, hc]

theorem cell_grantLocal_of_ne (d : Daemon) {m : CpgLockMsg} {l : CpgLock} (h : r ≠ m.resource)
    (hl : l.ownerPid = m.ownerPid) : (d.grantLocal m l).cell r =
      if d.connected m.ownerPid then d.cell r else (d.cell r).purge d.myNodeId m.ownerPid := by
  have hc : (d.grantClient m.resource l).1.cell r = d.cell r := by
    rw [grantClient, cell_notifyClient, cell_numberLock_of_ne _ h]
  have hs : (d.grantClient m.resource l).2 = d.connected m.ownerPid :=
    (notifyClient_snd _ _ _).trans (by rw [hl]; rfl)
  unfold grantLocal
  simp only [hs]
  split
  · rw [cell_regrantNonMember_of_ne _ h, hc]
  · rw [cell_grantNextOrUnlock_of_ne _ h, cell_purgeRequests, hc]

theorem cell_processGrant (d : Daemon) {m : CpgLockMsg} (hj : d.joined = true)
    (h : m.resource = r) : (d.processGrant m).cell r =
      (d.cell r).processGrant r d.myNodeId (d.lost m.ownerNodeid) (d.connected m.ownerPid)
        (d.localLockid + 1) m := by
  subst h
  have hlock : d.locks.get m.resource = (d.cell m.resource).lock := rfl
  have hc : ((d.setLock m.resource (granted m)).unlinkRequest m).cell m.resource =
      ((d.cell m.resource).set (granted m)).unlink m.key := by
    rw [cell_unlinkRequest _ rfl, cell_setLock]
  unfold processGrant Cell.processGrant
  simp only [hj, Bool.not_true, Bool.false_eq_true, if_false, hlock]
  cases (d.cell m.resource).lock with
  | some l =>
    have hme : ((d.setLock m.resource (granted m)).unlinkRequest m).toMembership =
      d.toMembership := rfl
    simp only [hme]
    split
    · rfl
    · split
      · rw [cell_grantLocal (l := granted m l) _ rfl rfl, hc]
        rfl
      · rw [cell_regrantNonMember _ rfl, hc]
        rfl
  | none => exact cell_putLock d _

/-- A GRANT for another resource: the requests of its process go if that has no client here. -/
theorem cell_processGrant_of_ne (d : Daemon) {m : CpgLockMsg} (h : r ≠ m.resource) :
    (d.processGrant m).cell r = d.cell r ∨ m.ownerNodeid = d.myNodeId ∧
      d.connected m.ownerPid = false ∧
      (d.processGrant m).cell r = (d.cell r).purge d.myNodeId m.ownerPid := by
  have hc : ((d.setLock m.resource (granted m)).unlinkRequest m).cell r = d.cell r := by
    rw [cell_unlinkRequest_of_ne _ h.symm, cell_setLock_of_ne _ _ h]
  unfold processGrant
  split
  · exact .inl rfl
  · split
    · split
      · exact .inl rfl
      · dsimp only
        split
        · next hme =>
          rw [cell_grantLocal_of_ne _ h (by rfl), hc]
          cases hcon : d.connected m.ownerPid with
          | true => exact .inl (if_pos hcon)
          | false =>
            refine .inr ⟨hme, rfl, if_neg fun hc => ?_⟩
            exact absurd (hcon.symm.trans hc) (by decide)
        · exact .inl ((cell_regrantNonMember_of_ne _ h).trans hc)
    · exact .inl (cell_putLock_of_ne d _ h)

theorem find_key {d : Daemon} {m : CpgLockMsg} (h : m.resource = r) :
    (d.cell r).waiting.any (fun q => q.key = m.key) =
      (d.requests.find? fun q => q.key = m.key).isSome := by
  rw [Bool.eq_iff_iff, List.any_eq_true, List.find?_isSome]
  constructor
  · rintro ⟨q, hq, hk⟩
    exact ⟨q, (List.mem_filter.1 hq).1, hk⟩
  · rintro ⟨q, hq, hk⟩
    refine ⟨q, List.mem_filter.2 ⟨hq, ?_⟩, hk⟩
    have hk : q.key = m.key := by simpa using hk
    have : q.resource = m.resource := congrArg RequestKey.resource hk
    simpa [h] using this

theorem cell_processNak (d : Daemon) {m : CpgLockMsg} (hj : d.joined = true)
    (h : m.resource = r) : (d.processNak m).cell r =
      (d.cell r).processNak d.myNodeId (d.connected m.ownerPid) m := by
  have hc := cell_unlinkRequest d h
  unfold processNak Cell.processNak
  rw [find_key h]
  simp only [hj, Bool.not_true, Bool.false_eq_true, if_false]
  cases hf : d.requests.find? fun q => q.key = m.key with
  | none => rfl
  | some q =>
    have hk : q.key = m.key := by simpa using List.find?_some hf
    have hn : q.ownerNodeid = m.ownerNodeid := congrArg RequestKey.nodeid hk
    have hp : q.ownerPid = m.ownerPid := congrArg RequestKey.pid hk
    have hs : ((d.unlinkRequest m).nakClient q).2 = d.connected m.ownerPid :=
      (notifyClient_snd _ _ _).trans (by rw [hp]; rfl)
    have hcn : ((d.unlinkRequest m).nakClient q).1.cell r = (d.cell r).unlink m.key := by
      rw [nakClient, cell_notifyClient, hc]
    have hme : (d.unlinkRequest m).toMembership = d.toMembership := rfl
    simp only [Option.isSome_some, if_true, hs, hn, hp, hme]
    by_cases hmine : m.ownerNodeid = d.myNodeId
    · cases hcon : d.connected m.ownerPid with
      | true => simp [hmine, hcn]
      | false => simp [hmine, cell_purgeRequests, hcn]
    · simp [hmine, hc]

/-- A NAK for another resource: the requests of its process go if that has no client here. -/
theorem cell_processNak_of_ne (d : Daemon) {m : CpgLockMsg} (h : r ≠ m.resource) :
    (d.processNak m).cell r = d.cell r ∨ m.ownerNodeid = d.myNodeId ∧
      d.connected m.ownerPid = false ∧
      (d.processNak m).cell r = (d.cell r).purge d.myNodeId m.ownerPid := by
  have hc := cell_unlinkRequest_of_ne d h.symm
  unfold processNak
  split
  · exact .inl rfl
  · split
    · exact .inl rfl
    · next q hf =>
      have hk : q.key = m.key := by simpa using List.find?_some hf
      have hn : q.ownerNodeid = m.ownerNodeid := congrArg RequestKey.nodeid hk
      have hp : q.ownerPid = m.ownerPid := congrArg RequestKey.pid hk
      have hs : ((d.unlinkRequest m).nakClient q).2 = d.connected m.ownerPid :=
        (notifyClient_snd _ _ _).trans (by rw [hp]; rfl)
      have hcn : ((d.unlinkRequest m).nakClient q).1.cell r = d.cell r := by
        rw [nakClient, cell_notifyClient, hc]
      have hme : (d.unlinkRequest m).toMembership = d.toMembership := rfl
      simp only [hs, hn, hp, hme]
      by_cases hmine : m.ownerNodeid = d.myNodeId
      · cases hcon : d.connected m.ownerPid with
        | true => simp [hmine, hcn]
        | false => exact .inr ⟨hmine, rfl, by simp [hmine, cell_purgeRequests, hcn]⟩
      · exact .inl (by simp [hmine, hc])

theorem cell_unlockEntry_of_ne (m : CpgLockMsg) (d : Daemon) (k : Resource) (l : CpgLock)
    (h : r ≠ k) : (unlockEntry m d k l).cell r = d.cell r := by
  have hs : (d.setLock k fun l => { l with state := .free }).cell r = d.cell r :=
    cell_setLock_of_ne _ _ h
  unfold unlockEntry
  split
  · next hl =>
    dsimp only
    split
    · cases hg : (d.setLock k fun l => { l with state := .free }).grantNext m with
      | none => exact hs
      | some d' =>
        exact (cell_setLock_of_ne _ _ h).trans
          ((cell_grantNext_of_ne hg (hl.2.1 ▸ h)).trans hs)
    · exact hs
  · rfl

theorem cell_processUnlock (d : Daemon) (m : CpgLockMsg) (hj : d.joined = true) :
    (d.processUnlock m).cell r =
      if m.resource = r then (d.cell r).processUnlock r d.myNodeId m else d.cell r := by
  have hiter := cell_iter (r := r) (f := unlockEntry m) (I := fun d' => d'.myNodeId = d.myNodeId)
    (g := fun k l c =>
      if l.state = .held ∧ k = m.resource ∧ l.ownerNodeid = m.ownerNodeid ∧
          l.ownerPid = m.ownerPid then
        if l.ownerNodeid = d.myNodeId then
          ((c.setState .free).grantNext k).elim (c.setState .free) (·.setState .pending)
        else c.setState .free
      else c)
    (fun d' k l hd' => (congrArg Membership.myNodeId
      (frame_unlockEntry m d' k l).membership).trans hd')
    (fun d' k l k' hk => cell_unlockEntry_of_ne m d' k l hk) ?_ (d := d) rfl
  · unfold processUnlock
    rw [if_neg (by simp [hj]), hiter]
    unfold Cell.processUnlock
    cases (d.cell r).lock with
    | none => simp
    | some l =>
      by_cases hr : m.resource = r
      · simp [hr]
      · simp [hr, Ne.symm hr]
  · intro d' k l hd'
    have hs : (d'.setLock k fun l => { l with state := .free }).cell k =
        (d'.cell k).setState .free := cell_setLock _ _
    unfold unlockEntry
    split
    · next hl =>
      simp only [setLock, hd']
      split
      · have hg := cell_grantNext (d'.setLock k fun l => { l with state := .free }) hl.2.1.symm
        rw [hs] at hg
        rw [← hg]
        change Daemon.cell (Option.elim
          ((d'.setLock k fun l => { l with state := .free }).grantNext m) _ _) k = _
        cases (d'.setLock k fun l => { l with state := .free }).grantNext m with
        | none => exact hs
        | some d'' => exact cell_setLock _ _
      · exact hs
    · rfl

/-! ## Deliveries -/

/-- What a delivered message can do to the cell of `r`. -/
inductive CellStep (d : Daemon) (r : Resource) (now : Nat) (m : CpgLockMsg) : Cell → Prop
  | lock : d.joined = true → m.request = .lock → m.resource = r → CellStep d r now m
      ((d.cell r).processLock r d.myNodeId (d.getOldestNode.nodeid = d.myNodeId) m now)
  | grant : d.joined = true → m.request = .grant → m.resource = r → CellStep d r now m
      ((d.cell r).processGrant r d.myNodeId (d.lost m.ownerNodeid) (d.connected m.ownerPid)
        (d.localLockid + 1) m)
  | nak : d.joined = true → m.request = .nak → m.resource = r → CellStep d r now m
      ((d.cell r).processNak d.myNodeId (d.connected m.ownerPid) m)
  | unlock : d.joined = true → m.request = .unlock → m.resource = r → CellStep d r now m
      ((d.cell r).processUnlock r d.myNodeId m)
  | purge : m.request = .purge → CellStep d r now m ((d.cell r).purge m.ownerNodeid m.ownerPid)
  -- a GRANT or NAK for another resource, to a process of this node without a client
  | gone : m.request = .grant ∨ m.request = .nak → m.resource ≠ r → m.ownerNodeid = d.myNodeId →
      d.connected m.ownerPid = false → CellStep d r now m ((d.cell r).purge d.myNodeId m.ownerPid)
  | same : m.request ≠ .purge → (d.joined = true → m.resource = r → m.request ≠ .lock ∧
      m.request ≠ .grant ∧ m.request ≠ .nak ∧ m.request ≠ .unlock) → CellStep d r now m (d.cell r)

theorem cellStep_deliver (d : Daemon) (now : Nat) (s : MemberItem) (m : CpgLockMsg) :
    CellStep d r now m ((d.deliver now (.msg s m)).cell r) := by
  let d' : Daemon := { d with history := d.history.oldMsg m }
  have hjoin : d'.joined = d.joined := rfl
  simp only [deliver, processRequest]
  split
  · next hm => exact .same (by simp [hm]) fun _ _ => by simp [hm]
  · next hm =>
    by_cases hr : m.resource = r
    · cases hj : d.joined with
      | true =>
        rw [cell_processLock d' now hj hr]
        exact .lock hj hm hr
      | false =>
        rw [processLock, hjoin, hj]
        exact .same (by simp [hm]) fun h => absurd (hj.symm.trans h) (by decide)
    · rw [cell_processLock_of_ne d' now (Ne.symm hr)]
      exact .same (by simp [hm]) fun _ h => absurd h hr
  · next hm =>
    by_cases hr : m.resource = r
    · cases hj : d.joined with
      | true =>
        rw [cell_processNak d' hj hr]
        exact .nak hj hm hr
      | false =>
        rw [processNak, hjoin, hj]
        exact .same (by simp [hm]) fun h => absurd (hj.symm.trans h) (by decide)
    · rcases cell_processNak_of_ne d' (Ne.symm hr) with h | ⟨hn, hc, h⟩
      · rw [h]
        exact .same (by simp [hm]) fun _ h => absurd h hr
      · rw [h]
        exact .gone (.inr hm) hr hn hc
  · next hm =>
    by_cases hr : m.resource = r
    · cases hj : d.joined with
      | true =>
        rw [cell_processGrant d' hj hr]
        exact .grant hj hm hr
      | false =>
        rw [processGrant, hjoin, hj]
        exact .same (by simp [hm]) fun h => absurd (hj.symm.trans h) (by decide)
    · rcases cell_processGrant_of_ne d' (Ne.symm hr) with h | ⟨hn, hc, h⟩
      · rw [h]
        exact .same (by simp [hm]) fun _ h => absurd h hr
      · rw [h]
        exact .gone (.inl hm) hr hn hc
  · next hm =>
    by_cases hr : m.resource = r
    · cases hj : d.joined with
      | true =>
        rw [cell_processUnlock d' m hj, if_pos hr]
        exact .unlock hj hm hr
      | false =>
        rw [processUnlock, hjoin, hj]
        exact .same (by simp [hm]) fun h => absurd (hj.symm.trans h) (by decide)
    · cases hj : d.joined with
      | true =>
        rw [cell_processUnlock d' m hj, if_neg hr]
        exact .same (by simp [hm]) fun _ h => absurd h hr
      | false =>
        rw [processUnlock, hjoin, hj]
        exact .same (by simp [hm]) fun h => absurd (hj.symm.trans h) (by decide)
  · next hm =>
    rw [cell_purgeRequests]
    exact .purge hm
  · next hm => exact .same (by simp [hm]) fun _ _ => by simp [hm]
  · next h₁ h₂ h₃ h₄ h₅ h₆ h₇ => exact .same h₆ fun _ _ => ⟨h₂, h₄, h₃, h₅⟩

/-- What a configuration change keeps of the membership and a cell, if setting up and every removal
of a departed member keep it. -/
theorem cell_configChange_induction {I : Membership → Cell → Prop} {d : Daemon}
    {members left join : List MemberItem} (h0 : I (d.toMembership.setUp members join) (d.cell r))
    (hstop : ∀ g c, I g c → I { g with stopped := true } c)
    (htotal : ∀ g c k, I g c → I { g with totalMembers := k } c)
    (hrem : ∀ (g : Membership) (c : Cell) (x : MemberItem), I g c → x ∈ left →
      x ∈ g.groupMembers → x.nodeid ≠ g.myNodeId →
      I { g with groupMembers := g.groupMembers.erase x }
        (c.delNode r g.myNodeId g.myPid ((g.groupMembers.erase x).head?.getD d.stray) x.nodeid)) :
    I (d.toMembership.configChange members left join)
      ((d.cpgConfigChange members left join).cell r) := by
  have key : ∀ (l : List MemberItem) (p : Daemon × Int), (∀ x ∈ l, x ∈ left) →
      p.1.stray = d.stray → I p.1.toMembership (p.1.cell r) →
      I (l.foldl dropLeft p).1.toMembership ((l.foldl dropLeft p).1.cell r) := by
    intro l
    induction l with
    | nil => exact fun _ _ _ h => h
    | cons x l ih =>
      intro p hl hs h
      have hx := hl x List.mem_cons_self
      rw [List.foldl_cons]
      refine ih _ (fun y hy => hl y (List.mem_cons_of_mem _ hy)) ?_ ?_
      · have hg := (foldl_dropLeft [x] p).1.stray
        exact hg.trans hs
      · unfold dropLeft
        split
        · exact h
        · split
          · next hm =>
            split
            · exact hstop _ _ h
            · next hne =>
              simp only [removeMember_toMembership, cell_removeMember]
              have := hrem _ _ x h hx hm hne
              rwa [← hs] at this
          · exact h
  have h1 := key left ({ d with
    history := d.history.oldMsg { CpgLockMsg.blank .confchg with resource := .none }
    toMembership := d.toMembership.setUp members join }, 0) (fun _ h => h) rfl h0
  rw [← cpgConfigChange_toMembership]
  unfold cpgConfigChange
  dsimp only
  unfold Membership.settle
  split
  · exact h1
  · exact htotal _ _ _ h1

end Cpglock.Daemon
