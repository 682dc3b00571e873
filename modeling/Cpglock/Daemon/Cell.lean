import Cpglock.Daemon.Handlers

/-!
# One resource's share of a daemon

`d.cell r`: the entry for `r`, the queued requests for `r`, and of the waiting messages those that
concern `r` (a PURGE concerns every resource). What a handler does to a cell depends on the cell and
on little else: the functions of this file say how, under the handlers' names, and
`Proof/Cell.lean` shows that the handlers act like that.
-/

namespace Cpglock

/-- Whether a message has to do with `r`. -/
def CpgLockMsg.concerns (r : Resource) (m : CpgLockMsg) : Bool :=
  m.request = .purge || m.resource = r

structure Cell where
  lock : Option CpgLock
  waiting : List RequestItem
  sent : List CpgLockMsg

def Daemon.cell (d : Daemon) (r : Resource) : Cell :=
  { lock := d.locks.get r
    waiting := d.requests.filter fun q => q.resource = r
    sent := d.out.filter (CpgLockMsg.concerns r) }

namespace Cell

def send (c : Cell) (m : CpgLockMsg) : Cell := { c with sent := c.sent ++ [m] }

def set (c : Cell) (f : CpgLock → CpgLock) : Cell := { c with lock := c.lock.map f }

def setState (c : Cell) (st : LockState) : Cell := c.set fun l => { l with state := st }

def purge (c : Cell) (nodeid pid : UInt32) : Cell :=
  { c with
    waiting := c.waiting.filter fun r =>
      !(r.ownerNodeid = nodeid && (pid = 0 || r.ownerPid = pid)) }

def unlink (c : Cell) (k : RequestKey) : Cell :=
  { c with waiting := c.waiting.eraseP fun r => r.key = k }

def enqueue (c : Cell) (m : CpgLockMsg) (now : Nat) : Cell :=
  { c with
    waiting := c.waiting ++
      [{ resource := m.resource, ownerNodeid := m.ownerNodeid, ownerPid := m.ownerPid,
         ownerTid := m.ownerTid, state := .pending, reqTime := now }] }

/-- The first pending request is marked and its GRANT sent. -/
def grantNext (r : Resource) (c : Cell) : Option Cell :=
  (Daemon.pickPending r c.waiting).map fun p =>
    { c with waiting := p.2, sent := c.sent ++ [Daemon.grantMsg p.1] }

def grantNextElse (r : Resource) (c : Cell) (k : Cell → Cell) : Cell :=
  (c.grantNext r).getD (k c)

/-- `if (grant_next(m) == 0) send_unlock(m);` -/
def grantNextOrUnlock (r : Resource) (c : Cell) (m : CpgLockMsg) : Cell :=
  c.grantNextElse r (·.send { m with request := .unlock })

def recoverClient (r : Resource) (me pid : UInt32) (c : Cell) : Cell :=
  let c := (c.purge me pid).send
    { CpgLockMsg.blank .purge with ownerNodeid := me, ownerPid := pid }
  match c.lock with
  | some l =>
    if l.ownerNodeid = me ∧ l.ownerPid = pid ∧ l.state = .held then
      (c.setState .free).grantNextOrUnlock r
        { CpgLockMsg.blank .purge with resource := r, ownerNodeid := me, ownerPid := pid }
    else c
  | none => c

def reassign (nodeid : UInt32) (oldest : MemberItem) (c : Cell) : Cell :=
  match c.lock with
  | some l =>
    if l.ownerNodeid = nodeid then
      c.set fun l => { l with ownerNodeid := oldest.nodeid, ownerPid := oldest.pid }
    else c
  | none => c

def take (me myPid : UInt32) (c : Cell) : Cell :=
  c.set fun l => { l with ownerNodeid := me, ownerPid := myPid }

def recoverNode (r : Resource) (me myPid nodeid : UInt32) (c : Cell) : Cell :=
  let c := (c.purge nodeid 0).send
    { CpgLockMsg.blank .purge with ownerNodeid := nodeid, ownerPid := 0 }
  match c.lock with
  | some l =>
    if l.ownerNodeid = nodeid ∧ l.state = .held then
      (c.setState .free).grantNextElse r fun c =>
        (c.take me myPid).send
          { CpgLockMsg.blank .unlock with resource := r, ownerNodeid := me, ownerPid := myPid }
    else if l.ownerNodeid = nodeid ∧ l.state = .free then
      c.grantNextElse r (·.take me myPid)
    else c
  | none => c

def delNode (r : Resource) (me myPid : UInt32) (oldest : MemberItem) (nodeid : UInt32) (c : Cell) :
    Cell :=
  if oldest.nodeid ≠ me then c.reassign nodeid oldest else c.recoverNode r me myPid nodeid

def grantFree (r : Resource) (c : Cell) : Cell :=
  (c.setState .pending).grantNextElse r (·.setState .free)

/-- `head`: the daemon's node is first on its member list. -/
def processLock (r : Resource) (me : UInt32) (head : Bool) (m : CpgLockMsg) (now : Nat) (c : Cell) :
    Cell :=
  let c := c.enqueue m now
  match c.lock with
  | some l =>
    if l.ownerNodeid = me then
      if l.state = .free then c.grantFree r
      else if m.isTry then c.send { m with request := .nak }
      else c
    else c
  | none =>
    let c := { c with lock := some .blank }
    if head then c.grantFree r else c

/-- `lost`: the daemon is first on its list, which does not have the node of the GRANT. -/
def regrantNonMember (r : Resource) (lost : Bool) (m : CpgLockMsg) (c : Cell) : Cell :=
  if lost then (c.setState .free).grantNextOrUnlock r m else c

/-- `connected`: the process of the GRANT has a client here; `lockid`: the next lock id. -/
def processGrant (r : Resource) (me : UInt32) (lost connected : Bool) (lockid : UInt64)
    (m : CpgLockMsg) (c : Cell) : Cell :=
  match c.lock with
  | some l =>
    if l.state = .held ∧ (m.ownerPid = 0 ∨ m.ownerNodeid = 0) then c
    else
      let c := (c.set (Daemon.granted m)).unlink m.key
      if m.ownerNodeid = me then
        let c := c.set fun l => { l with localId := lockid }
        if connected then c.regrantNonMember r lost m
        else (c.purge me m.ownerPid).grantNextOrUnlock r m
      else c.regrantNonMember r lost m
  | none => { c with lock := some (Daemon.granted m .blank) }

def processNak (me : UInt32) (connected : Bool) (m : CpgLockMsg) (c : Cell) : Cell :=
  if c.waiting.any fun q => q.key = m.key then
    let c := c.unlink m.key
    if m.ownerNodeid = me ∧ !connected then c.purge me m.ownerPid else c
  else c

def processUnlock (r : Resource) (me : UInt32) (m : CpgLockMsg) (c : Cell) : Cell :=
  match c.lock with
  | some l =>
    if l.state = .held ∧ l.ownerNodeid = m.ownerNodeid ∧ l.ownerPid = m.ownerPid then
      let c := c.setState .free
      if l.ownerNodeid = me then (c.grantNext r).elim c (·.setState .pending) else c
    else c
  | none => c

end Cell

end Cpglock
