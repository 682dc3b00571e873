import Mathlib
import Cpglock.Lib.SortedMap

/-!
# Data of the lock daemon (`lib/cpglock.h`, `lib/cpglock-internal.h`, `bin/cpglockd.c`)

The structures keep the source's fields. Node ids, pids and thread ids are the C `uint32_t`s, lock
ids the `uint64_t`s. Two representations differ from C on purpose: a resource name is a C string
by construction (`Resource`), and a lock-table entry does not repeat the key it is stored under.
-/

namespace Cpglock

/-- A resource name: what fits `char resource[96]` with its terminating NUL. -/
structure Resource where
  bytes : List UInt8
  fits : bytes.length < 96
  noNul : 0 ∉ bytes
deriving DecidableEq

/-- The order in which the trie lists its keys. -/
instance : LinearOrder Resource :=
  LinearOrder.lift' (fun r => r.bytes.map UInt8.toNat) fun r s h => by
    obtain ⟨b, _, _⟩ := r
    obtain ⟨c, _, _⟩ := s
    have : b = c := List.map_injective_iff.2 (fun x y hxy => UInt8.toNat.inj hxy) h
    subst this
    rfl

/-- The empty name, which `memset` leaves in a message. -/
def Resource.empty : Resource := ⟨[], by decide, by decide⟩

/-- `"(none)"`, the name `cpg_config_change` records. -/
def Resource.none : Resource := ⟨[40, 110, 111, 110, 101, 41], by decide, by decide⟩

/-- The names of the locks in the runs that are given as examples. -/
def Resource.a : Resource := ⟨[97], by decide, by decide⟩
def Resource.b : Resource := ⟨[98], by decide, by decide⟩

/-- `lock_state_t` -/
inductive LockState
  | free
  | pending
  | held
deriving DecidableEq, Repr

/-- `FL_TRY` of `lock_flag_t` -/
def flTry : UInt32 := 0x1

/-- `cpg_lock_req_t`; `other` is any value outside the enumeration. -/
inductive CpgLockReq
  | lock
  | nak
  | grant
  | unlock
  | purge
  | confchg
  | join
  | dump
  | halt
  | other (code : Int)
deriving DecidableEq, Repr

/-- `struct cpg_lock_msg` (decoded: the byte order of the wire is not part of it). -/
structure CpgLockMsg where
  request : CpgLockReq
  ownerNodeid : UInt32
  ownerPid : UInt32
  flags : UInt32
  ownerTid : UInt32
  lockid : UInt64
  resource : Resource
deriving DecidableEq

/-- A message after `memset(&m, 0, sizeof(m))`, its request set. -/
def CpgLockMsg.blank (request : CpgLockReq) : CpgLockMsg :=
  { request, ownerNodeid := 0, ownerPid := 0, flags := 0, ownerTid := 0, lockid := 0,
    resource := .empty }

/-- `m->flags & FL_TRY` -/
def CpgLockMsg.isTry (m : CpgLockMsg) : Bool := m.flags &&& flTry != 0

/-- The LOCK that `cpg_lock` writes to the daemon. -/
def CpgLockMsg.lockMsg (resource : Resource) (pid tid flags : UInt32) : CpgLockMsg :=
  { CpgLockMsg.blank .lock with resource, ownerPid := pid, ownerTid := tid, flags }

/-- The UNLOCK that `cpg_unlock` writes to the daemon. -/
def CpgLockMsg.unlockMsg (resource : Resource) (nodeid pid : UInt32) (lockid : UInt64) :
    CpgLockMsg :=
  { CpgLockMsg.blank .unlock with resource, ownerNodeid := nodeid, ownerPid := pid, lockid }

/-- `struct cpg_lock` as stored in the lock table, under its `resource`. -/
structure CpgLock where
  state : LockState
  ownerNodeid : UInt32
  ownerPid : UInt32
  ownerTid : UInt32
  localId : UInt64
deriving DecidableEq

/-- An entry as `wait_calloc` leaves it: free, owned by no node. -/
def CpgLock.blank : CpgLock :=
  { state := .free, ownerNodeid := 0, ownerPid := 0, ownerTid := 0, localId := 0 }

/-- `struct request_item`: the fields of its `struct cpg_lock l` that are ever set, and the time of
its creation. -/
structure RequestItem where
  resource : Resource
  ownerNodeid : UInt32
  ownerPid : UInt32
  ownerTid : UInt32
  state : LockState
  reqTime : Nat
deriving DecidableEq

/-- `struct client_item`. A descriptor comes from a successful `accept`, so it is no negative
number. -/
structure ClientItem where
  fd : Nat
  pid : UInt32
deriving DecidableEq

/-- `struct member_item`, also the `struct cpg_address` of a configuration change. -/
@[ext]
structure MemberItem where
  nodeid : UInt32
  pid : UInt32
deriving DecidableEq

/-- Who asked for what: the fields by which daemons recognise a request. -/
structure RequestKey where
  resource : Resource
  nodeid : UInt32
  pid : UInt32
  tid : UInt32
deriving DecidableEq

/-- The identity a queued request is compared by. -/
def RequestItem.key (r : RequestItem) : RequestKey :=
  ⟨r.resource, r.ownerNodeid, r.ownerPid, r.ownerTid⟩

/-- The identity a LOCK, NAK or GRANT message carries. -/
def CpgLockMsg.key (m : CpgLockMsg) : RequestKey :=
  ⟨m.resource, m.ownerNodeid, m.ownerPid, m.ownerTid⟩

/-- The identity of the request an entry for `r` was last granted to. -/
def CpgLock.key (l : CpgLock) (r : Resource) : RequestKey :=
  ⟨r, l.ownerNodeid, l.ownerPid, l.ownerTid⟩

end Cpglock
