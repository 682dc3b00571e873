import Cpglock.Client.Dispatch

/-!
# A program that uses the library (`cpg_lock`, `cpg_unlock` in `lib/libcpglock.c`)

A process has one handle, threads `ι` and variables `κ` of type `struct cpg_lock`, which it passes to the
library and does not write itself. What it writes to the daemon waits in `sent`, what the daemon wrote
in the handle's `unread`. A step of a thread is what it does under the handle's mutex, as in
`Threads.lean`, or a `cpg_unlock`, which does not take it.
-/

namespace Cpglock

/-- `struct cpg_lock` in a program: its `resource` and the other fields. -/
structure LockVar where
  resource : Resource
  lock : CpgLock

/-- Where a thread is: outside of `cpg_lock`, or in its loop with `l`, `r` and the variable that `lock`
points to. -/
inductive InLock (κ : Type)
  | out
  | waiting (l r : CpgLockMsg) (v : κ)

/-- What a call returned, and the `errno` it left if it set one. -/
structure CallRet where
  ret : Int
  errno : Option Errno
deriving DecidableEq

structure Process (ι κ : Type) where
  handle : CpgLockHandle
  threads : ι → InLock κ
  locks : κ → LockVar
  sent : List CpgLockMsg
  rets : ι → Option CallRet

/-- The name that `strncpy` leaves in the variable and in the request. -/
def Resource.ofString : (resource : {b : List UInt8 // 0 ∉ b}) → resource.1.length < 96 → Resource
  | ⟨bytes, noNul⟩, hlen => ⟨bytes, hlen, noNul⟩

namespace Process

variable {ι κ : Type}

/-- A process after `cpg_lock_init`, its variables zeroed. -/
def init (pid : UInt32) : Process ι κ where
  handle := .init pid
  threads _ := .out
  locks _ := ⟨.empty, .blank⟩
  sent := []
  rets _ := none

/-- The daemon writes messages to the connection. -/
def receive (p : Process ι κ) (ms : List CpgLockMsg) : Process ι κ :=
  { p with handle := { p.handle with unread := p.handle.unread ++ ms } }

/-- The variable is not HELD, and no thread waits in `cpg_lock` with it. -/
def Free (p : Process ι κ) (v : κ) : Prop :=
  (p.locks v).lock.state ≠ .held ∧ ∀ i, match p.threads i with
    | .out => True
    | .waiting _ _ w => w ≠ v

variable [DecidableEq ι] [DecidableEq κ]

instance [Fintype ι] (p : Process ι κ) (v : κ) : Decidable (p.Free v) := by
  unfold Free
  refine @instDecidableAnd _ _ _ (@Fintype.decidableForallFintype _ _ (fun i => ?_) _)
  cases p.threads i <;> dsimp only <;> infer_instance

def setThread (p : Process ι κ) (i : ι) (t : InLock κ) : Process ι κ :=
  { p with threads := Function.update p.threads i t }

def setLock (p : Process ι κ) (v : κ) (x : LockVar) : Process ι κ :=
  { p with locks := Function.update p.locks v x }

/-- Thread `i` returns to the program. -/
def leave (p : Process ι κ) (i : ι) (ret : Int) (errno : Option Errno) : Process ι κ :=
  { p.setThread i .out with rets := Function.update p.rets i (some ⟨ret, errno⟩) }

/-- Thread `i` runs through the loop of `cpg_lock` until it unlocks the mutex. -/
def pass (p : Process ι κ) (i : ι) (l r : CpgLockMsg) (v : κ) (read : ReadRet) :
    Option (Process ι κ) :=
  (p.handle.pass l r read).map fun q =>
    let p := { p with handle := q.1 }
    match q.2 with
    | .reply r =>
      let res := p.handle.finish (p.locks v).lock r
      (p.setLock v { p.locks v with lock := res.lock }).leave i res.ret res.errno
    | .sleep r => p.setThread i (.waiting l r v)
    | .failed e => p.leave i (-1) (some e)

/-- The entry of `cpg_lock`. -/
def cpgLock (p : Process ι κ) (i : ι) (getpid : UInt32) (resource : {b : List UInt8 // 0 ∉ b})
    (flags : UInt32) (v : κ) (write : Option Errno) (read : ReadRet) : Option (Process ι κ) :=
  if p.handle.pid ≠ getpid then some (p.leave i (-1) (some .ebadf))
  else if hlen : resource.1.length < 96 then
    let name := Resource.ofString resource hlen
    let p := p.setLock v { p.locks v with resource := name }
    let p := { p with handle := { p.handle with seq := p.handle.seq + 1 } }
    let l := CpgLockMsg.lockMsg name p.handle.pid p.handle.seq flags
    match write with
    | some e => some (p.leave i (-1) (some e))
    | none => { p with sent := p.sent ++ [l] }.pass i l (.blank (.other 0)) v read
  else some (p.leave i (-1) (some .enametoolong))

/-- Thread `i` calls `cpg_lock`. -/
def call (p : Process ι κ) (i : ι) (getpid : UInt32) (resource : {b : List UInt8 // 0 ∉ b})
    (flags : UInt32) (v : κ) (write : Option Errno) (read : ReadRet) : Option (Process ι κ) :=
  match p.threads i with
  | .out => p.cpgLock i getpid resource flags v write read
  | .waiting _ _ _ => none

/-- Thread `i` runs on after `usleep`. -/
def wake (p : Process ι κ) (i : ι) (read : ReadRet) : Option (Process ι κ) :=
  match p.threads i with
  | .out => none
  | .waiting l r v => p.pass i l r v read

/-- `cpg_unlock`; `write_timeout` returns the number of bytes. -/
def cpgUnlock (p : Process ι κ) (i : ι) (getpid : UInt32) (v : κ) (write : Option Errno) :
    Process ι κ :=
  let x := p.locks v
  if p.handle.pid ≠ getpid then p.leave i (-1) (some .ebadf)
  else if x.lock.state ≠ .held then p.leave i (-1) (some .einval)
  else if x.lock.localId = 0 then p.leave i (-1) (some .einval)
  else
    let l := CpgLockMsg.unlockMsg x.resource x.lock.ownerNodeid x.lock.ownerPid x.lock.localId
    let p := p.setLock v { x with lock := { x.lock with state := .free } }
    match write with
    | some e => p.leave i (-1) (some e)
    | none => { p with sent := p.sent ++ [l] }.leave i 128 none

/-- Thread `i` calls `cpg_unlock`. -/
def unlock (p : Process ι κ) (i : ι) (getpid : UInt32) (v : κ) (write : Option Errno) :
    Option (Process ι κ) :=
  match p.threads i with
  | .out => some (p.cpgUnlock i getpid v write)
  | .waiting _ _ _ => none

end Process

end Cpglock
