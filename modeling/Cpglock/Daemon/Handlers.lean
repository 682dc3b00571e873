import Cpglock.Daemon.Membership

/-!
# The handlers of `bin/cpglockd.c`

Each definition is the source function of its name, as a function on the daemon's state
(`Daemon`). What the source hands to the outside is appended to a field: `out` holds the messages
given to `cpg_mcast_joined` that CPG has not ordered yet, `replies` what was written to the clients'
sockets. Reading and writing messages is atomic here, logging is left out, `qb_map_iter_create` and
`calloc` succeed. The conversion `swab_cpg_lock_msg` is the identity on decoded messages.
-/

namespace Cpglock

/-- The message history: `messages`, `message_count`, `max_saved_msgs`. -/
structure History where
  messages : List CpgLockMsg
  messageCount : UInt32
  maxSavedMsgs : UInt64

/-- `old_msg` -/
def History.oldMsg (h : History) (m : CpgLockMsg) : History :=
  let messages := h.messages ++ [m]
  if h.messageCount.toNat < h.maxSavedMsgs.toNat then
    { h with messages, messageCount := h.messageCount + 1 }
  else { h with messages := messages.drop 1 }

/-- The static variables of `cpglockd.c`. `stray` is what the memory behind an empty
`group_members` reads as when it is taken for a member (`get_oldest_node` does not check). -/
structure Daemon extends Membership where
  requests : List RequestItem
  clients : List ClientItem
  locks : SortedMap Resource CpgLock
  localLockid : UInt64
  history : History
  stray : MemberItem
  out : List CpgLockMsg
  replies : List (Nat × CpgLockMsg)

namespace Daemon

/-! ## Sending -/

/-- `send_lock_msg` -/
def sendLockMsg (d : Daemon) (m : CpgLockMsg) : Daemon := { d with out := d.out ++ [m] }

/-- `send_lock` -/
def sendLock (d : Daemon) (m : CpgLockMsg) : Daemon :=
  d.sendLockMsg { m with ownerNodeid := d.myNodeId }

/-- The message `send_grant` builds for a queued request. -/
def grantMsg (n : RequestItem) : CpgLockMsg :=
  { CpgLockMsg.blank .grant with
    resource := n.resource
    ownerNodeid := n.ownerNodeid
    ownerPid := n.ownerPid
    ownerTid := n.ownerTid }

/-- `send_grant` -/
def sendGrant (d : Daemon) (n : RequestItem) : Daemon := d.sendLockMsg (grantMsg n)

/-- `send_nak` -/
def sendNak (d : Daemon) (m : CpgLockMsg) : Daemon := d.sendLockMsg { m with request := .nak }

/-- `send_join` -/
def sendJoin (d : Daemon) : Daemon :=
  d.sendLockMsg { CpgLockMsg.blank .join with ownerNodeid := d.myNodeId }

/-- `send_unlock` -/
def sendUnlock (d : Daemon) (m : CpgLockMsg) : Daemon :=
  d.sendLockMsg { m with request := .unlock }

/-! ## Requests -/

/-- The search of `grant_next`: the first pending request for `res`, and the queue with it
marked. -/
def pickPending (res : Resource) : List RequestItem → Option (RequestItem × List RequestItem)
  | [] => none
  | r :: rs =>
    if res = r.resource ∧ r.state = .pending then some (r, { r with state := .held } :: rs)
    else (pickPending res rs).map fun p => (p.1, r :: p.2)

/-- `grant_next`; `none` when it returns 0. -/
def grantNext (d : Daemon) (m : CpgLockMsg) : Option Daemon :=
  (pickPending m.resource d.requests).map fun p => { d with requests := p.2 }.sendGrant p.1

/-- `if (grant_next(m) == 0) k` -/
def grantNextElse (d : Daemon) (m : CpgLockMsg) (k : Daemon → Daemon) : Daemon :=
  (d.grantNext m).getD (k d)

/-- `purge_requests` -/
def purgeRequests (d : Daemon) (nodeid pid : UInt32) : Daemon :=
  { d with
    requests := d.requests.filter fun r =>
      !(r.ownerNodeid = nodeid && (pid = 0 || r.ownerPid = pid)) }

/-- `queue_request`; `now` is the clock's reading. -/
def queueRequest (d : Daemon) (m : CpgLockMsg) (now : Nat) : Daemon :=
  { d with
    requests := d.requests ++
      [{ resource := m.resource, ownerNodeid := m.ownerNodeid, ownerPid := m.ownerPid,
         ownerTid := m.ownerTid, state := .pending, reqTime := now }] }

/-! ## The lock table -/

/-- Assign to fields of the entry for `r`. -/
def setLock (d : Daemon) (r : Resource) (f : CpgLock → CpgLock) : Daemon :=
  { d with locks := d.locks.update r f }

/-- `qb_map_put` -/
def putLock (d : Daemon) (r : Resource) (l : CpgLock) : Daemon :=
  { d with locks := d.locks.insert r l }

/-- `find_lock_by_id`: the message completed from the entry with its lock id, `none` when there is
none. -/
def findLockById (d : Daemon) (m : CpgLockMsg) : Option CpgLockMsg :=
  (d.locks.entries.find? fun e => m.lockid = e.2.localId).map fun e =>
    { m with
      resource := e.1
      ownerNodeid := e.2.ownerNodeid
      ownerPid := e.2.ownerPid
      ownerTid := e.2.ownerTid
      lockid := 0 }

/-! ## Clients -/

/-- `find_client` -/
def findClient (d : Daemon) (pid : UInt32) : Option ClientItem :=
  d.clients.find? fun n => n.pid = pid

/-- What `grant_client` and `nak_client` end with: the message is written to the process's client;
the flag says that there is one (they return 0). -/
def notifyClient (d : Daemon) (pid : UInt32) (m : CpgLockMsg) : Daemon × Bool :=
  match d.findClient pid with
  | none => (d, false)
  | some c => ({ d with replies := d.replies ++ [(c.fd, m)] }, true)

/-- `l->local_id = ++local_lockid` -/
def numberLock (d : Daemon) (r : Resource) : Daemon :=
  { d.setLock r (fun l => { l with localId := d.localLockid + 1 }) with
    localLockid := d.localLockid + 1 }

/-- `grant_client` on the entry `l` for `r`. -/
def grantClient (d : Daemon) (r : Resource) (l : CpgLock) : Daemon × Bool :=
  (d.numberLock r).notifyClient l.ownerPid
    { CpgLockMsg.blank .grant with
      resource := r
      ownerNodeid := d.myNodeId
      ownerPid := l.ownerPid
      ownerTid := l.ownerTid
      lockid := d.localLockid + 1 }

/-- `nak_client` -/
def nakClient (d : Daemon) (r : RequestItem) : Daemon × Bool :=
  d.notifyClient r.ownerPid
    { CpgLockMsg.blank .nak with
      resource := r.resource
      ownerNodeid := d.myNodeId
      ownerPid := r.ownerPid
      ownerTid := r.ownerTid }

/-- `insert_client` -/
def insertClient (d : Daemon) (fd : Nat) : Daemon :=
  { d with clients := d.clients ++ [⟨fd, 0⟩] }

/-- The first client with the descriptor is unlinked. -/
def unlinkClient (d : Daemon) (fd : Nat) : Daemon :=
  { d with clients := d.clients.eraseP fun n => n.fd = fd }

/-- The pid `del_client` finds for a descriptor, 0 if there is no such client. -/
def clientPid (d : Daemon) (fd : Nat) : UInt32 :=
  match d.clients.find? fun n => n.fd = fd with
  | some n => n.pid
  | none => 0

/-- One pass of `del_client`'s loop over the lock table. -/
def recoverClientLock (pid : UInt32) (d : Daemon) (r : Resource) (l : CpgLock) : Daemon :=
  let m := { CpgLockMsg.blank .purge with
    resource := r, ownerNodeid := d.myNodeId, ownerPid := pid }
  if l.ownerNodeid = d.myNodeId ∧ l.ownerPid = pid ∧ l.state = .held then
    (d.setLock r fun l => { l with state := .free }).grantNextElse m (·.sendUnlock m)
  else d

/-- What `del_client` does for a process, its pid not 0. -/
def recoverClient (d : Daemon) (pid : UInt32) : Daemon :=
  let d := d.purgeRequests d.myNodeId pid
  let d := d.sendLockMsg
    { CpgLockMsg.blank .purge with ownerNodeid := d.myNodeId, ownerPid := pid }
  d.locks.iter (recoverClientLock pid) d

/-- `del_client` -/
def delClient (d : Daemon) (fd : Nat) : Daemon :=
  if d.clientPid fd = 0 then d.unlinkClient fd
  else (d.unlinkClient fd).recoverClient (d.clientPid fd)

/-- The client of `fd` gets the pid that its LOCK names. -/
def setClientPid (d : Daemon) (fd : Nat) (pid : UInt32) : Daemon :=
  { d with clients := d.clients.map fun c => if c.fd = fd then { c with pid } else c }

/-- `client_activity_cb` on a message read from the client's socket. -/
def clientActivityCb (d : Daemon) (fd : Nat) (m : CpgLockMsg) : Daemon :=
  match m.request with
  | .lock => (d.setClientPid fd m.ownerPid).sendLock m
  | .unlock => (d.findLockById m).elim d fun m => d.grantNextElse m (·.sendUnlock m)
  | .dump => d.unlinkClient fd
  | _ => d

/-! ## Departed nodes -/

/-- `get_oldest_node` -/
def getOldestNode (d : Daemon) : MemberItem := d.groupMembers.head?.getD d.stray

/-- One pass of `del_node`'s loop on a daemon that is not the oldest. -/
def reassignLock (nodeid : UInt32) (oldest : MemberItem) (d : Daemon) (r : Resource) (l : CpgLock) :
    Daemon :=
  if l.ownerNodeid = nodeid then
    d.setLock r fun l => { l with ownerNodeid := oldest.nodeid, ownerPid := oldest.pid }
  else d

/-- `l->owner_nodeid = my_node_id; l->owner_pid = getpid();` -/
def takeLock (d : Daemon) (r : Resource) : Daemon :=
  d.setLock r fun l => { l with ownerNodeid := d.myNodeId, ownerPid := d.myPid }

/-- One pass of `del_node`'s loop on the oldest daemon. -/
def recoverNodeLock (nodeid : UInt32) (d : Daemon) (r : Resource) (l : CpgLock) : Daemon :=
  let m := { CpgLockMsg.blank .purge with resource := r }
  if l.ownerNodeid = nodeid ∧ l.state = .held then
    (d.setLock r fun l => { l with state := .free }).grantNextElse m fun d =>
      (d.takeLock r).sendUnlock { m with ownerNodeid := d.myNodeId, ownerPid := d.myPid }
  else if l.ownerNodeid = nodeid ∧ l.state = .free then
    d.grantNextElse m fun d => d.takeLock r
  else d

/-- `del_node` on the oldest daemon. -/
def recoverNode (d : Daemon) (nodeid : UInt32) : Daemon :=
  let d := d.purgeRequests nodeid 0
  let d := d.sendLockMsg { CpgLockMsg.blank .purge with ownerNodeid := nodeid, ownerPid := 0 }
  d.locks.iter (recoverNodeLock nodeid) d

/-- `del_node` -/
def delNode (d : Daemon) (nodeid : UInt32) : Daemon :=
  if d.getOldestNode.nodeid ≠ d.myNodeId then
    d.locks.iter (reassignLock nodeid d.getOldestNode) d
  else d.recoverNode nodeid

/-! ## Delivered messages -/

/-- The local owner of a lock that nobody holds grants it: its state is PENDING while the GRANT
is on its way, to avoid double grants. -/
def grantFree (d : Daemon) (m : CpgLockMsg) : Daemon :=
  (d.setLock m.resource fun l => { l with state := .pending }).grantNextElse m
    (·.setLock m.resource fun l => { l with state := .free })

/-- `process_lock` -/
def processLock (d : Daemon) (m : CpgLockMsg) (now : Nat) : Daemon :=
  if !d.joined then d
  else
    let d := d.queueRequest m now
    match d.locks.get m.resource with
    | some l =>
      if l.ownerNodeid = d.myNodeId then
        if l.state = .free then d.grantFree m
        else if m.isTry then d.sendNak m
        else d
      else d
    | none =>
      let d := d.putLock m.resource .blank
      if d.getOldestNode.nodeid = d.myNodeId then d.grantFree m else d

/-- What a GRANT makes of the entry. -/
def granted (m : CpgLockMsg) (l : CpgLock) : CpgLock :=
  { l with
    state := .held
    ownerNodeid := m.ownerNodeid
    ownerPid := m.ownerPid
    ownerTid := m.ownerTid }

/-- The first request with the identity of `m` is unlinked. -/
def unlinkRequest (d : Daemon) (m : CpgLockMsg) : Daemon :=
  { d with requests := d.requests.eraseP fun r => r.key = m.key }

/-- The end of `process_grant`: a GRANT to a node that has left goes to the next requester. -/
def regrantNonMember (d : Daemon) (m : CpgLockMsg) : Daemon :=
  if d.getOldestNode.nodeid = d.myNodeId ∧ !d.isMember m.ownerNodeid then
    (d.setLock m.resource fun l => { l with state := .free }).grantNextElse m (·.sendUnlock m)
  else d

/-- The part of `process_grant` for a request of this node; `l` is the entry. A GRANT to a process
that has no client any more goes to the next requester. -/
def grantLocal (d : Daemon) (m : CpgLockMsg) (l : CpgLock) : Daemon :=
  let p := d.grantClient m.resource l
  if p.2 then p.1.regrantNonMember m
  else (p.1.purgeRequests d.myNodeId m.ownerPid).grantNextElse m (·.sendUnlock m)

/-- `process_grant` -/
def processGrant (d : Daemon) (m : CpgLockMsg) : Daemon :=
  if !d.joined then d
  else
    match d.locks.get m.resource with
    | some l =>
      -- GRANT averted
      if l.state = .held ∧ (m.ownerPid = 0 ∨ m.ownerNodeid = 0) then d
      else
        let d := (d.setLock m.resource (granted m)).unlinkRequest m
        if m.ownerNodeid = d.myNodeId then d.grantLocal m (granted m l)
        else d.regrantNonMember m
    | none => d.putLock m.resource (granted m .blank)

/-- `process_nak` -/
def processNak (d : Daemon) (m : CpgLockMsg) : Daemon :=
  if !d.joined then d
  else
    match d.requests.find? fun r => r.key = m.key with
    | none => d
    | some r =>
      let d := d.unlinkRequest m
      if r.ownerNodeid = d.myNodeId then
        let p := d.nakClient r
        if p.2 then p.1 else p.1.purgeRequests d.myNodeId r.ownerPid
      else d

/-- One pass of `process_unlock`'s loop over the lock table. -/
def unlockEntry (m : CpgLockMsg) (d : Daemon) (r : Resource) (l : CpgLock) : Daemon :=
  if l.state = .held ∧ r = m.resource ∧ l.ownerNodeid = m.ownerNodeid ∧ l.ownerPid = m.ownerPid then
    let d := d.setLock r fun l => { l with state := .free }
    if l.ownerNodeid = d.myNodeId then
      (d.grantNext m).elim d (·.setLock r fun l => { l with state := .pending })
    else d
  else d

/-- `process_unlock` -/
def processUnlock (d : Daemon) (m : CpgLockMsg) : Daemon :=
  if !d.joined then d else d.locks.iter (unlockEntry m) d

/-- `process_join` -/
def processJoin (d : Daemon) (nodeid pid : UInt32) : Daemon :=
  { d with toMembership := d.toMembership.processJoin nodeid pid }

/-- `process_request`; `nodeid` and `pid` are the sender's. -/
def processRequest (d : Daemon) (m : CpgLockMsg) (nodeid pid : UInt32) (now : Nat) : Daemon :=
  let d := { d with history := d.history.oldMsg m }
  match m.request with
  | .halt => { d with stopped := true }
  | .lock => d.processLock m now
  | .nak => d.processNak m
  | .grant => d.processGrant m
  | .unlock => d.processUnlock m
  | .purge => d.purgeRequests m.ownerNodeid m.ownerPid
  | .join => d.processJoin nodeid pid
  | _ => d

/-! ## Configuration changes -/

/-- A listed member is unlinked and its locks are recovered. -/
def removeMember (d : Daemon) (x : MemberItem) : Daemon :=
  { d with groupMembers := d.groupMembers.erase x }.delNode x.nodeid

/-- One pass of `cpg_config_change`'s loop over `left`: the first entry with the node id and the
pid is unlinked and its locks are recovered; the process exits if it is its own. -/
def dropLeft (p : Daemon × Int) (x : MemberItem) : Daemon × Int :=
  if p.1.stopped then p
  else if x ∈ p.1.groupMembers then
    if x.nodeid = p.1.myNodeId then ({ p.1 with stopped := true }, p.2)
    else (p.1.removeMember x, p.2 + 1)
  else p

/-- `cpg_config_change` -/
def cpgConfigChange (d : Daemon) (members left join : List MemberItem) : Daemon :=
  let d := { d with
    history := d.history.oldMsg { CpgLockMsg.blank .confchg with resource := .none } }
  let d := { d with toMembership := d.toMembership.setUp members join }
  let p := left.foldl dropLeft (d, 0)
  { p.1 with toMembership := p.1.toMembership.settle p.2 }

end Daemon

end Cpglock
