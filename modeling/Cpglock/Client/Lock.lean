import Cpglock.Client.Io

/-!
# The wait for a reply (`cpg_lock` in `lib/libcpglock.c`)

The loop in which the threads that share a handle read the daemon's replies: each pass runs under
the handle's mutex, so a run is a list of passes of any threads. Messages are the bytes of the packed
`struct cpg_lock_msg`, since what is read need not be a message.
-/

namespace Cpglock

/-- The bytes of a `struct cpg_lock_msg`. -/
structure Frame where
  bytes : List UInt8
  size : bytes.length = 128

/-- `owner_tid` in the bytes of a message. -/
def ownerTid (m : List UInt8) : List UInt8 := (m.drop 16).take 4

/-- `resource` in the bytes of a message, as `strcmp` reads it. -/
def resourceName (m : List UInt8) : List UInt8 := ((m.drop 28).take 96).takeWhile (· ≠ 0)

/-- `m` is the reply to the request `l`. -/
def Answers (l m : List UInt8) : Prop := resourceName l = resourceName m ∧ ownerTid l = ownerTid m

instance (l m : List UInt8) : Decidable (Answers l m) := by
  unfold Answers
  infer_instance

/-- The fields of `struct cpg_lock_handle` that the loop uses. -/
structure Handle where
  pending : List (List UInt8)
  sock : Sock
deriving DecidableEq

/-- `check_pending`: the first pending reply to `exp`, and the others. -/
def checkPending (pending : List (List UInt8)) (exp : List UInt8) :
    Option (List UInt8 × List (List UInt8)) :=
  (pending.find? fun m => Answers exp m).map fun m =>
    (m, pending.eraseP fun m => Answers exp m)

/-- `add_pending` -/
def Handle.addPending (h : Handle) (m : List UInt8) : Handle :=
  { h with pending := h.pending ++ [m] }

/-- How a pass of the loop ends: with the thread's reply, with another try, with an error. -/
inductive Wait
  | reply (m : List UInt8)
  | again
  | failed (e : Errno)

/-- A pass of the loop: the LOCK the thread has sent, its variable `r`, what `random()` returns
for the time limit and what the kernel answers. -/
structure Call where
  l : Frame
  r : Frame
  random : UInt32
  passes : List Pass

/-- `random() & 0xf` -/
def Call.timeoutMs (c : Call) : Int32 := (c.random &&& 0xf).toInt32

/-- One pass of the loop of `cpg_lock`. The message that `read_timeout` returned is given apart. -/
def Handle.wait (h : Handle) (c : Call) : Option (Handle × Option (List UInt8) × Wait) :=
  match checkPending h.pending c.l.bytes with
  | some (m, pending) => some ({ h with pending }, none, .reply m)
  | none =>
    (readTimeout h.sock c.r.bytes c.timeoutMs c.passes).map fun res =>
      let h := { h with sock := res.sock }
      match res.errno with
      | some e => (h, none, if e = .etimedout then .again else .failed e)
      | none =>
        -- another resource or another thread: the reply waits for the thread it is for
        if Answers c.l.bytes res.buf then (h, some res.buf, .reply res.buf)
        else (h.addPending res.buf, some res.buf, .again)

end Cpglock
