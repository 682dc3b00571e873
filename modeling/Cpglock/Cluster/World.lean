import Cpglock.Client.Process
import Cpglock.Group.Proof.Fifo

/-!
# Programs, daemons and CPG together

A `World` is the system of the daemons (`Sys`) with the processes at the other ends of their
connections. A daemon reads from a connection what its process has written, in that order, and what it
writes to the connection waits unread in the process's handle. `World.Calm` are the rules of a run
without failures: no daemon leaves and no connection is closed, a process has one handle, issues
fewer than 2^32 requests on it, and passes to `cpg_lock` a variable that is not HELD and not in use by
another thread. That UNLOCKs are sent once, and only for locks that were given, is up to the library.
-/

namespace Cpglock

/-- `pids n` are the pids of node `n`'s processes. -/
structure World (ι κ : Type) where
  sys : Sys
  procs : UInt32 → Nat → Option (Process ι κ)
  pids : UInt32 → List UInt32

/-- A step of CPG or of a daemon, or a step of a process with what the kernel answers it. `init` is
`cpg_lock_init` with the connection accepted, `connect` and `dump` are those of `cpg_lock_dump`. -/
inductive WorldAct (ι κ : Type)
  | confchg (members : UInt32 → List MemberItem) (left join : List MemberItem)
      (boot : UInt32 → Boot)
  | order (n : UInt32)
  | deliver (n : UInt32)
  | connect (n : UInt32) (fd : Nat)
  | dump (n : UInt32) (fd : Nat)
  | init (n : UInt32) (fd : Nat) (pid : UInt32)
  | read (n : UInt32) (fd : Nat)
  | call (n : UInt32) (fd : Nat) (i : ι) (getpid : UInt32) (resource : {b : List UInt8 // 0 ∉ b})
      (flags : UInt32) (v : κ) (write : Option Errno) (read : ReadRet)
  | wake (n : UInt32) (fd : Nat) (i : ι) (read : ReadRet)
  | unlock (n : UInt32) (fd : Nat) (i : ι) (getpid : UInt32) (v : κ) (write : Option Errno)

/-- What an observation writes to connection `fd` of daemon `n`. -/
def Obs.replyOn (n : UInt32) (fd : Nat) : Obs → Option CpgLockMsg
  | .reply k f g => if k = n ∧ f = fd then some g else none
  | _ => none

namespace World

variable {ι κ : Type}

/-- No daemon and no process. -/
def init : World ι κ := { sys := .init, procs := fun _ _ => none, pids := fun _ => [] }

/-- A step of the daemons; what they write to a connection is there for its process. -/
def daemon (w : World ι κ) (a : Act) : Option (World ι κ) :=
  (w.sys.step a).map fun s =>
    { w with
      sys := s
      procs := fun n fd => (w.procs n fd).map fun p =>
        p.receive ((s.trace.drop w.sys.trace.length).filterMap (Obs.replyOn n fd)) }

/-- The process on connection `fd` of daemon `n` becomes `p`. -/
def setProc (w : World ι κ) (n : UInt32) (fd : Nat) (p : Process ι κ) : World ι κ :=
  { w with procs := fun k f => if k = n ∧ f = fd then some p else w.procs k f }

/-- A step of the process on connection `fd` of daemon `n`. -/
def process (w : World ι κ) (n : UInt32) (fd : Nat) (f : Process ι κ → Option (Process ι κ)) :
    Option (World ι κ) :=
  (w.procs n fd).bind fun p => (f p).map (w.setProc n fd)

variable [DecidableEq ι] [DecidableEq κ]

/-- One step, `none` where it is not enabled. -/
def step (w : World ι κ) : WorldAct ι κ → Option (World ι κ)
  | .confchg members left join boot => w.daemon (.confchg members left join boot)
  | .order n => w.daemon (.order n)
  | .deliver n => w.daemon (.deliver n)
  | .connect n fd => if (w.procs n fd).isSome then none else w.daemon (.connect n fd)
  | .dump n fd =>
    if (w.procs n fd).isSome then none else w.daemon (.recv n fd (.blank .dump))
  | .init n fd pid =>
    (w.daemon (.connect n fd)).map fun w =>
      { w.setProc n fd (.init pid) with
        pids := fun k => if k = n then pid :: w.pids k else w.pids k }
  | .read n fd =>
    (w.procs n fd).bind fun p =>
      match p.sent with
      | [] => none
      | m :: sent => (w.setProc n fd { p with sent }).daemon (.recv n fd m)
  | .call n fd i getpid resource flags v write read =>
    w.process n fd fun p => p.call i getpid resource flags v write read
  | .wake n fd i read => w.process n fd fun p => p.wake i read
  | .unlock n fd i getpid v write => w.process n fd fun p => p.unlock i getpid v write

omit [DecidableEq ι] [DecidableEq κ] in
/-- The daemons' step that a step of the world is, if it is one. -/
def act (w : World ι κ) : WorldAct ι κ → Option Act
  | .confchg members left join boot => some (.confchg members left join boot)
  | .order n => some (.order n)
  | .deliver n => some (.deliver n)
  | .connect n fd => some (.connect n fd)
  | .dump n fd => some (.recv n fd (.blank .dump))
  | .init n fd _ => some (.connect n fd)
  | .read n fd => (w.procs n fd).bind fun p => p.sent.head?.map (.recv n fd)
  | _ => none

omit [DecidableEq ι] [DecidableEq κ] in
/-- The rules of a run without failures. -/
def Calm (w : World ι κ) : WorldAct ι κ → Prop
  | .confchg _ left _ _ => left = []
  | .init n _ pid => pid ≠ 0 ∧ pid ∉ w.pids n
  | .call n fd _ _ _ _ v _ _ => ∀ p ∈ w.procs n fd, p.Free v ∧ p.handle.seq + 1 ≠ 0
  | _ => True

omit [DecidableEq ι] [DecidableEq κ] in
/-- No FL_TRY, and the first daemon joins before others enter. -/
def Patient (w : World ι κ) : WorldAct ι κ → Prop
  | .confchg members left join boot => w.sys.FirstAlone (.confchg members left join boot)
  | .call _ _ _ _ _ flags _ _ _ => flags &&& flTry = 0
  | _ => True

omit [DecidableEq ι] [DecidableEq κ] in
/-- Reads fail by their time limit only, and writes do not fail. -/
def Steady (_ : World ι κ) : WorldAct ι κ → Prop
  | .call _ _ _ _ _ _ _ write read => write = none ∧ read.InTime
  | .wake _ _ _ read => read.InTime
  | .unlock _ _ _ _ _ write => write = none
  | _ => True

omit [DecidableEq ι] in
instance [Fintype ι] (w : World ι κ) (a : WorldAct ι κ) : Decidable (w.Calm a) := by
  refine a.casesOn ?_ ?_ ?_ ?_ ?_ ?_ ?_ ?_ ?_ ?_ <;> intros <;> dsimp only [Calm] <;> infer_instance

omit [DecidableEq ι] [DecidableEq κ] in
instance (w : World ι κ) (a : WorldAct ι κ) : Decidable (w.Patient a) := by
  refine a.casesOn ?_ ?_ ?_ ?_ ?_ ?_ ?_ ?_ ?_ ?_ <;> intros <;> dsimp only [Patient] <;> infer_instance

omit [DecidableEq ι] [DecidableEq κ] in
instance (w : World ι κ) (a : WorldAct ι κ) : Decidable (w.Steady a) := by
  refine a.casesOn ?_ ?_ ?_ ?_ ?_ ?_ ?_ ?_ ?_ ?_ <;> intros <;> dsimp only [Steady] <;> infer_instance

end World

end Cpglock
