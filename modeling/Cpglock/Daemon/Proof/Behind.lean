import Cpglock.Group.System

/-!
# Handlers do not read what waits to be ordered

`d.behind pre`: the daemon `d` with the messages `pre` waiting ahead of its own. Every handler
commutes with it (`behind_deliver`, `behind_clientActivityCb`, `behind_delClient`), so an argument
about a daemon may count the messages that CPG has ordered but not delivered as still waiting.
-/

namespace Cpglock.Daemon

/-- The daemon with `pre` ahead of its waiting messages. -/
def behind (pre : List CpgLockMsg) (d : Daemon) : Daemon := { d with out := pre ++ d.out }

variable {pre : List CpgLockMsg}

@[simp] theorem behind_nil (d : Daemon) : d.behind [] = d := rfl

/-! ## Fields and searches -/

@[simp] theorem behind_toMembership (d : Daemon) :
    (d.behind pre).toMembership = d.toMembership := rfl

@[simp] theorem behind_requests (d : Daemon) : (d.behind pre).requests = d.requests := rfl

@[simp] theorem behind_locks (d : Daemon) : (d.behind pre).locks = d.locks := rfl

@[simp] theorem behind_clients (d : Daemon) : (d.behind pre).clients = d.clients := rfl

@[simp] theorem behind_replies (d : Daemon) : (d.behind pre).replies = d.replies := rfl

@[simp] theorem behind_localLockid (d : Daemon) : (d.behind pre).localLockid = d.localLockid := rfl

@[simp] theorem behind_out (d : Daemon) : (d.behind pre).out = pre ++ d.out := rfl

@[simp] theorem behind_findClient (d : Daemon) (pid : UInt32) :
    (d.behind pre).findClient pid = d.findClient pid := rfl

@[simp] theorem behind_clientPid (d : Daemon) (fd : Nat) :
    (d.behind pre).clientPid fd = d.clientPid fd := rfl

@[simp] theorem behind_findLockById (d : Daemon) (m : CpgLockMsg) :
    (d.behind pre).findLockById m = d.findLockById m := rfl

@[simp] theorem behind_getOldestNode (d : Daemon) :
    (d.behind pre).getOldestNode = d.getOldestNode := rfl

/-! ## The assignments -/

@[simp] theorem behind_setLock (d : Daemon) (r : Resource) (f : CpgLock → CpgLock) :
    (d.behind pre).setLock r f = (d.setLock r f).behind pre := rfl

@[simp] theorem behind_putLock (d : Daemon) (r : Resource) (l : CpgLock) :
    (d.behind pre).putLock r l = (d.putLock r l).behind pre := rfl

@[simp] theorem behind_takeLock (d : Daemon) (r : Resource) :
    (d.behind pre).takeLock r = (d.takeLock r).behind pre := rfl

@[simp] theorem behind_numberLock (d : Daemon) (r : Resource) :
    (d.behind pre).numberLock r = (d.numberLock r).behind pre := rfl

@[simp] theorem behind_purgeRequests (d : Daemon) (n p : UInt32) :
    (d.behind pre).purgeRequests n p = (d.purgeRequests n p).behind pre := rfl

@[simp] theorem behind_queueRequest (d : Daemon) (m : CpgLockMsg) (now : Nat) :
    (d.behind pre).queueRequest m now = (d.queueRequest m now).behind pre := rfl

@[simp] theorem behind_unlinkRequest (d : Daemon) (m : CpgLockMsg) :
    (d.behind pre).unlinkRequest m = (d.unlinkRequest m).behind pre := rfl

@[simp] theorem behind_unlinkClient (d : Daemon) (fd : Nat) :
    (d.behind pre).unlinkClient fd = (d.unlinkClient fd).behind pre := rfl

@[simp] theorem behind_setClientPid (d : Daemon) (fd : Nat) (pid : UInt32) :
    (d.behind pre).setClientPid fd pid = (d.setClientPid fd pid).behind pre := rfl

@[simp] theorem behind_sendLockMsg (d : Daemon) (m : CpgLockMsg) :
    (d.behind pre).sendLockMsg m = (d.sendLockMsg m).behind pre := by
  simp [behind, sendLockMsg]

@[simp] theorem behind_sendUnlock (d : Daemon) (m : CpgLockMsg) :
    (d.behind pre).sendUnlock m = (d.sendUnlock m).behind pre := behind_sendLockMsg d _

@[simp] theorem behind_sendNak (d : Daemon) (m : CpgLockMsg) :
    (d.behind pre).sendNak m = (d.sendNak m).behind pre := behind_sendLockMsg d _

@[simp] theorem behind_sendLock (d : Daemon) (m : CpgLockMsg) :
    (d.behind pre).sendLock m = (d.sendLock m).behind pre := behind_sendLockMsg d _

theorem behind_grantNext (d : Daemon) (m : CpgLockMsg) :
    (d.behind pre).grantNext m = (d.grantNext m).map (behind pre) := by
  simp only [grantNext, behind_requests, Option.map_map]
  refine congrArg (Option.map · _) (funext fun p => ?_)
  exact behind_sendLockMsg { d with requests := p.2 } _

theorem behind_grantNextElse (d : Daemon) (m : CpgLockMsg) {k : Daemon → Daemon}
    (hk : ∀ d : Daemon, k (d.behind pre) = (k d).behind pre) :
    (d.behind pre).grantNextElse m k = (d.grantNextElse m k).behind pre := by
  simp only [grantNextElse, behind_grantNext, hk]
  cases d.grantNext m <;> rfl

@[simp] theorem behind_grantNextElse_sendUnlock (d : Daemon) (m m' : CpgLockMsg) :
    (d.behind pre).grantNextElse m (·.sendUnlock m') =
      (d.grantNextElse m (·.sendUnlock m')).behind pre :=
  behind_grantNextElse d m fun d => behind_sendUnlock d m'

@[simp] theorem behind_notifyClient (d : Daemon) (pid : UInt32) (m : CpgLockMsg) :
    (d.behind pre).notifyClient pid m =
      ((d.notifyClient pid m).1.behind pre, (d.notifyClient pid m).2) := by
  unfold notifyClient
  rw [behind_findClient]
  cases d.findClient pid <;> rfl

/-- An iteration commutes if its step does. -/
theorem behind_iter {K V : Type} [LinearOrder K] {f : Daemon → K → V → Daemon}
    (hf : ∀ d k v, f (d.behind pre) k v = (f d k v).behind pre) (m : SortedMap K V) (d : Daemon) :
    m.iter f (d.behind pre) = (m.iter f d).behind pre :=
  List.foldl_hom _ fun d e => hf d e.1 e.2

/-! ## Clients -/

theorem behind_recoverClientLock (pid : UInt32) (d : Daemon) (r : Resource) (l : CpgLock) :
    recoverClientLock pid (d.behind pre) r l = (recoverClientLock pid d r l).behind pre := by
  simp only [recoverClientLock, behind_toMembership, behind_setLock,
    behind_grantNextElse_sendUnlock, apply_ite (behind pre)]

theorem behind_recoverClient (d : Daemon) (pid : UInt32) :
    (d.behind pre).recoverClient pid = (d.recoverClient pid).behind pre := by
  simp [recoverClient, behind_iter (behind_recoverClientLock pid)]

theorem behind_delClient (d : Daemon) (fd : Nat) :
    (d.behind pre).delClient fd = (d.delClient fd).behind pre := by
  simp [delClient, behind_recoverClient, apply_ite (behind pre)]

theorem behind_clientActivityCb (d : Daemon) (fd : Nat) (m : CpgLockMsg) :
    (d.behind pre).clientActivityCb fd m = (d.clientActivityCb fd m).behind pre := by
  unfold clientActivityCb
  split
  · simp
  · rw [behind_findLockById]
    cases d.findLockById m with
    | none => rfl
    | some m' => exact behind_grantNextElse_sendUnlock d m' m'
  · simp
  · rfl

/-! ## Deliveries -/

theorem behind_grantFree (d : Daemon) (m : CpgLockMsg) :
    (d.behind pre).grantFree m = (d.grantFree m).behind pre := by
  rw [grantFree, behind_setLock, behind_grantNextElse _ _ fun d => behind_setLock d _ _]
  rfl

theorem behind_processLock (d : Daemon) (m : CpgLockMsg) (now : Nat) :
    (d.behind pre).processLock m now = (d.processLock m now).behind pre := by
  simp only [processLock, behind_toMembership, behind_queueRequest, behind_locks, behind_putLock,
    behind_getOldestNode, behind_grantFree, behind_sendNak]
  split
  · rfl
  · split
    · simp only [apply_ite (behind pre)]
    · simp only [apply_ite (behind pre)]

theorem behind_regrantNonMember (d : Daemon) (m : CpgLockMsg) :
    (d.behind pre).regrantNonMember m = (d.regrantNonMember m).behind pre := by
  simp only [regrantNonMember, behind_toMembership, behind_getOldestNode, behind_setLock,
    behind_grantNextElse_sendUnlock, apply_ite (behind pre)]

theorem behind_grantLocal (d : Daemon) (m : CpgLockMsg) (l : CpgLock) :
    (d.behind pre).grantLocal m l = (d.grantLocal m l).behind pre := by
  simp only [grantLocal, grantClient, behind_toMembership, behind_numberLock, behind_localLockid,
    behind_notifyClient, behind_purgeRequests, behind_grantNextElse_sendUnlock,
    behind_regrantNonMember]
  exact (apply_ite (behind pre) _ _ _).symm

theorem behind_processGrant (d : Daemon) (m : CpgLockMsg) :
    (d.behind pre).processGrant m = (d.processGrant m).behind pre := by
  simp only [processGrant, behind_toMembership, behind_locks, behind_setLock,
    behind_unlinkRequest, behind_grantLocal, behind_regrantNonMember]
  split
  · rfl
  · split
    · simp only [apply_ite (behind pre)]
    · rfl

theorem behind_nakClient (d : Daemon) (r : RequestItem) :
    (d.behind pre).nakClient r = ((d.nakClient r).1.behind pre, (d.nakClient r).2) :=
  behind_notifyClient d _ _

theorem behind_processNak (d : Daemon) (m : CpgLockMsg) :
    (d.behind pre).processNak m = (d.processNak m).behind pre := by
  simp only [processNak, behind_toMembership, behind_requests, behind_unlinkRequest,
    behind_nakClient, behind_purgeRequests]
  split
  · rfl
  · split
    · rfl
    · rw [apply_ite (behind pre), ← apply_ite (behind pre)]

theorem behind_unlockEntry (m : CpgLockMsg) (d : Daemon) (r : Resource) (l : CpgLock) :
    unlockEntry m (d.behind pre) r l = (unlockEntry m d r l).behind pre := by
  simp only [unlockEntry, behind_setLock, behind_toMembership, behind_grantNext,
    apply_ite (behind pre)]
  cases (d.setLock r fun l => { l with state := .free }).grantNext m <;> rfl

theorem behind_processUnlock (d : Daemon) (m : CpgLockMsg) :
    (d.behind pre).processUnlock m = (d.processUnlock m).behind pre := by
  simp [processUnlock, behind_iter (behind_unlockEntry m), apply_ite (behind pre)]

theorem behind_processRequest (d : Daemon) (m : CpgLockMsg) (nodeid pid : UInt32) (now : Nat) :
    (d.behind pre).processRequest m nodeid pid now =
      (d.processRequest m nodeid pid now).behind pre := by
  unfold processRequest
  cases hm : m.request
  case lock => exact behind_processLock { d with history := d.history.oldMsg m } m now
  case nak => exact behind_processNak { d with history := d.history.oldMsg m } m
  case grant => exact behind_processGrant { d with history := d.history.oldMsg m } m
  case unlock => exact behind_processUnlock { d with history := d.history.oldMsg m } m
  all_goals rfl

/-! ## Configuration changes -/

theorem behind_recoverNodeLock (nodeid : UInt32) (d : Daemon) (r : Resource) (l : CpgLock) :
    recoverNodeLock nodeid (d.behind pre) r l = (recoverNodeLock nodeid d r l).behind pre := by
  unfold recoverNodeLock
  split
  · simp only [behind_setLock]
    exact behind_grantNextElse _ _ fun d => behind_sendUnlock (d.takeLock r) _
  · split
    · exact behind_grantNextElse d _ fun d => behind_takeLock d r
    · rfl

theorem behind_reassignLock (nodeid : UInt32) (o : MemberItem) (d : Daemon) (r : Resource)
    (l : CpgLock) : reassignLock nodeid o (d.behind pre) r l =
      (reassignLock nodeid o d r l).behind pre := by
  simp [reassignLock, apply_ite (behind pre)]

theorem behind_delNode (d : Daemon) (nodeid : UInt32) :
    (d.behind pre).delNode nodeid = (d.delNode nodeid).behind pre := by
  simp [delNode, recoverNode, behind_iter (behind_reassignLock nodeid _),
    behind_iter (behind_recoverNodeLock nodeid), apply_ite (behind pre)]

theorem behind_removeMember (d : Daemon) (x : MemberItem) :
    (d.behind pre).removeMember x = (d.removeMember x).behind pre :=
  behind_delNode { d with groupMembers := d.groupMembers.erase x } x.nodeid

theorem behind_dropLeft (d : Daemon) (k : Int) (x : MemberItem) :
    dropLeft (d.behind pre, k) x = ((dropLeft (d, k) x).1.behind pre, (dropLeft (d, k) x).2) := by
  by_cases hs : d.stopped
  · simp [dropLeft, hs]
  · by_cases hx : x ∈ d.groupMembers
    · by_cases hme : x.nodeid = d.myNodeId
      · simp [dropLeft, hs, hx, hme, behind]
      · simp [dropLeft, hs, hx, hme, behind_removeMember]
    · simp [dropLeft, hs, hx]

theorem behind_foldl_dropLeft (left : List MemberItem) (d : Daemon) (k : Int) :
    left.foldl dropLeft (d.behind pre, k) =
      ((left.foldl dropLeft (d, k)).1.behind pre, (left.foldl dropLeft (d, k)).2) := by
  induction left generalizing d k with
  | nil => rfl
  | cons x left ih =>
    rw [List.foldl_cons, List.foldl_cons, behind_dropLeft]
    exact ih _ _

theorem behind_cpgConfigChange (d : Daemon) (members left join : List MemberItem) :
    (d.behind pre).cpgConfigChange members left join =
      (d.cpgConfigChange members left join).behind pre := by
  unfold cpgConfigChange
  have := @behind_foldl_dropLeft pre left
    { d with
      history := d.history.oldMsg { CpgLockMsg.blank .confchg with resource := .none }
      toMembership := d.toMembership.setUp members join } 0
  simp only [behind] at this ⊢
  rw [this]

theorem behind_deliver (d : Daemon) (now : Nat) (e : Event) :
    (d.behind pre).deliver now e = (d.deliver now e).behind pre := by
  cases e with
  | msg s m => exact behind_processRequest d m s.nodeid s.pid now
  | confchg members left join => exact behind_cpgConfigChange d _ left join

end Cpglock.Daemon
