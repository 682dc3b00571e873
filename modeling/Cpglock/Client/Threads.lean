import Cpglock.Client.Io
import Cpglock.Daemon.Types
import Cpglock.Lib.Transition

/-!
# Threads that share a handle (`cpg_lock` in `lib/libcpglock.c`)

What `cpg_lock` does under the handle's mutex is one step: its entry up to the first unlocking of
the mutex, and each later pass of its loop. Reads take whole messages off the socket, as they do
where no time limit strikes in the middle of one (`Framing.lean`). The daemon answers a request once,
at any time after it was written. `cpg_unlock` reads nothing and is left out.
-/

namespace Cpglock

/-- The fields of `struct cpg_lock_handle` and the replies that wait in its socket. -/
structure CpgLockHandle where
  pid : UInt32
  seq : UInt32
  pending : List CpgLockMsg
  unread : List CpgLockMsg

/-- `m` is the reply to the request `l`. -/
def CpgLockMsg.Answers (l m : CpgLockMsg) : Prop :=
  l.resource = m.resource ∧ l.ownerTid = m.ownerTid

instance CpgLockMsg.decidableAnswers (l m : CpgLockMsg) : Decidable (l.Answers m) := by
  unfold CpgLockMsg.Answers
  infer_instance

/-- What `read_timeout` does: it reads a message, or fails. -/
inductive ReadRet
  | message
  | failed (e : Errno)

/-- The time limit is the only failure. -/
def ReadRet.InTime : ReadRet → Prop
  | .message => True
  | .failed e => e = .etimedout

instance (read : ReadRet) : Decidable read.InTime := by
  cases read <;> simp only [ReadRet.InTime] <;> infer_instance

/-- How a pass of the loop ends: with the thread's reply, with the thread asleep, with an error. The
message is what the thread's variable `r` holds. -/
inductive Turn
  | reply (r : CpgLockMsg)
  | sleep (r : CpgLockMsg)
  | failed (e : Errno)

/-- What `cpg_lock` returns: its value, the `errno` it leaves if it sets one, and `*lock`. -/
structure LockRet where
  ret : Int
  errno : Option Errno
  lock : CpgLock

namespace CpgLockHandle

/-- The handle after `cpg_lock_init`. -/
def init (pid : UInt32) : CpgLockHandle := { pid, seq := 0, pending := [], unread := [] }

/-- `check_pending`: the first pending reply to `exp`, unlinked. -/
def checkPending (h : CpgLockHandle) (exp : CpgLockMsg) : Option (CpgLockMsg × CpgLockHandle) :=
  (h.pending.find? fun m => exp.Answers m).map fun m =>
    (m, { h with pending := h.pending.eraseP fun m => exp.Answers m })

/-- `add_pending` -/
def addPending (h : CpgLockHandle) (m : CpgLockMsg) : CpgLockHandle :=
  { h with pending := h.pending ++ [m] }

/-- One pass of the loop of `cpg_lock`; `none` where there is no message to read. -/
def pass (h : CpgLockHandle) (l r : CpgLockMsg) (read : ReadRet) : Option (CpgLockHandle × Turn) :=
  match h.checkPending l with
  | some (m, h) => some (h, .reply m)
  | none =>
    match read with
    | .failed e => some (h, if e = .etimedout then .sleep r else .failed e)
    | .message =>
      match h.unread with
      | [] => none
      | r :: unread =>
        let h := { h with unread }
        if r.resource ≠ l.resource then some (h.addPending r, .sleep r)
        else if r.ownerTid ≠ l.ownerTid then some (h.addPending r, .sleep r)
        else some (h, .reply r)

/-- The end of `cpg_lock`, on its reply. -/
def finish (h : CpgLockHandle) (lock : CpgLock) (r : CpgLockMsg) : LockRet :=
  if r.ownerNodeid = 0 then { ret := -1, errno := none, lock }
  else if r.request = .nak then { ret := -1, errno := some .eagain, lock }
  else if r.request ≠ .grant then { ret := -1, errno := none, lock }
  else
    { ret := 0
      errno := none
      lock := { lock with
        state := .held, ownerNodeid := r.ownerNodeid, ownerPid := h.pid, localId := r.lockid } }

end CpgLockHandle

/-- A thread: not in `cpg_lock`, or in its loop with its variables `l` and `r`. -/
inductive Thread
  | out
  | waiting (l r : CpgLockMsg) (lock : CpgLock)

/-- A call that has returned: the request it wrote (or tried to), the reply it took. -/
structure Returned (ι : Type) where
  thread : ι
  request : Option CpgLockMsg
  taken : Option CpgLockMsg
  result : LockRet

/-- The handle, the threads `ι`, the requests the daemon has not answered, all replies that have
arrived and all calls that have returned. -/
structure Threads (ι : Type) where
  handle : CpgLockHandle
  threads : ι → Thread
  asked : List CpgLockMsg
  arrived : List CpgLockMsg
  returned : List (Returned ι)

/-- A step of a thread, with what the kernel answers it, or a reply of the daemon. -/
inductive ThreadAct (ι : Type)
  | call (i : ι) (getpid : UInt32) (resource : {b : List UInt8 // 0 ∉ b}) (flags : UInt32)
      (lock : CpgLock) (write : Option Errno) (read : ReadRet)
  | wake (i : ι) (read : ReadRet)
  | answer (l r : CpgLockMsg)

namespace Threads

variable {ι : Type} [DecidableEq ι]

def init (pid : UInt32) : Threads ι :=
  { handle := .init pid, threads := fun _ => .out, asked := [], arrived := [], returned := [] }

/-- Thread `i` becomes `t`. -/
def setThread (s : Threads ι) (i : ι) (t : Thread) : ι → Thread :=
  fun k => if k = i then t else s.threads k

/-- Thread `i` leaves `cpg_lock`. -/
def leave (s : Threads ι) (i : ι) (request taken : Option CpgLockMsg) (result : LockRet) :
    Threads ι :=
  { s with
    threads := s.setThread i .out
    returned := s.returned ++ [{ thread := i, request, taken, result }] }

/-- Thread `i` runs through the loop until it unlocks the mutex. -/
def pass (s : Threads ι) (i : ι) (l r : CpgLockMsg) (lock : CpgLock) (read : ReadRet) :
    Option (Threads ι) :=
  (s.handle.pass l r read).map fun p =>
    let s := { s with handle := p.1 }
    match p.2 with
    | .reply r => s.leave i (some l) (some r) (p.1.finish lock r)
    | .sleep r => { s with threads := s.setThread i (.waiting l r lock) }
    | .failed e => s.leave i (some l) none { ret := -1, errno := some e, lock }

/-- The entry of `cpg_lock`. -/
def call (s : Threads ι) (i : ι) (getpid : UInt32) (resource : {b : List UInt8 // 0 ∉ b})
    (flags : UInt32) (lock : CpgLock) (write : Option Errno) (read : ReadRet) :
    Option (Threads ι) :=
  if s.handle.pid ≠ getpid then
    some (s.leave i none none { ret := -1, errno := some .ebadf, lock })
  else if hlen : resource.1.length < 96 then
    let s := { s with handle := { s.handle with seq := s.handle.seq + 1 } }
    let l := CpgLockMsg.lockMsg ⟨resource.1, hlen, resource.2⟩ s.handle.pid s.handle.seq flags
    match write with
    | some e => some (s.leave i (some l) none { ret := -1, errno := some e, lock })
    | none => { s with asked := s.asked ++ [l] }.pass i l (.blank (.other 0)) lock read
  else some (s.leave i none none { ret := -1, errno := some .enametoolong, lock })

/-- One step, `none` where it is not enabled. -/
def step (s : Threads ι) : ThreadAct ι → Option (Threads ι)
  | .call i getpid resource flags lock write read =>
    match s.threads i with
    | .out => s.call i getpid resource flags lock write read
    | .waiting _ _ _ => none
  | .wake i read =>
    match s.threads i with
    | .out => none
    | .waiting l r lock => s.pass i l r lock read
  | .answer l r =>
    if l ∈ s.asked ∧ l.Answers r then
      some { s with
        handle := { s.handle with unread := s.handle.unread ++ [r] }
        asked := s.asked.erase l
        arrived := s.arrived ++ [r] }
    else none

/-- The replies that threads have taken. -/
def taken (s : Threads ι) : List CpgLockMsg := s.returned.filterMap (·.taken)

/-- The requests on the handle are fewer than 2^32: none gets the number 0. -/
def CountsOn (s : Threads ι) : ThreadAct ι → Prop
  | .call _ getpid resource _ _ _ _ =>
    s.handle.pid = getpid → resource.1.length < 96 → s.handle.seq + 1 ≠ 0
  | _ => True

/-- No read or write fails but for the time limit, and replies name the daemon's node. -/
def Clean : ThreadAct ι → Prop
  | .call _ _ _ _ _ write read => write = none ∧ read.InTime
  | .wake _ read => read.InTime
  | .answer _ r => r.ownerNodeid ≠ 0

omit [DecidableEq ι] in
instance (s : Threads ι) (a : ThreadAct ι) : Decidable (s.CountsOn a) := by
  refine a.casesOn ?_ ?_ ?_ <;> intros <;> dsimp only [CountsOn] <;> infer_instance

omit [DecidableEq ι] in
instance (a : ThreadAct ι) : Decidable (Clean a) := by
  refine a.casesOn ?_ ?_ ?_ <;> intros <;> dsimp only [Clean] <;> infer_instance

end Threads

end Cpglock
