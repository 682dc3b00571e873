import Cpglock.Client.Io
import Cpglock.Group.System
import Cpglock.Lib.Descriptors

/-!
# The main loop of the daemon and its end (`main` in `bin/cpglockd.c`)

A `Server` is a daemon with the flags `shutdown_pending` and `stop_requested` (of the loop) and its
calls on the descriptors of its clients. A step is a callback with what the kernel answers it.
`qb_loop_stop` lets the callbacks that are due in the same pass of the loop run, so steps go on
after it. `teardown` is what `main` does after `qb_loop_run`, until it closes the socket it listens
on. A process that has exited in `cpg_config_change`, or sleeps in `process_request` for ever, makes
no step and has no teardown. The text of a dump is left out, and reads and writes of messages are
atomic.
-/

namespace Cpglock

/-- `accept` -/
inductive AcceptRet
  | client (fd : Nat)
  | failed (e : Errno)
deriving DecidableEq

/-- The descriptor, if there is one. -/
def AcceptRet.fd : AcceptRet → Option Nat
  | client fd => some fd
  | failed _ => none

structure Server where
  d : Daemon
  shutdownPending : Bool
  stopRequested : Bool
  calls : List (FdCall CpgLockMsg)

/-- A callback of the loop. `err` says that `revents` has POLLERR or POLLNVAL, `read` is what was
read, `none` where `read_timeout` fails, `opened` whether `fdopen` succeeds; `events` are what
`cpg_dispatch` delivers, with the time. -/
inductive Callback
  | signal
  | listen (err : Bool) (accepts : List AcceptRet)
  | client (fd : Nat) (err : Bool) (read : Option CpgLockMsg) (opened : Bool)
  | cpg (err pollin : Bool) (events : List (Nat × Event)) (ok : Bool)

namespace Server

/-- The daemon as it enters the loop. -/
def start (x : MemberItem) (b : Boot) : Server :=
  { d := .start x b, shutdownPending := false, stopRequested := false, calls := [] }

/-- The handlers make `d` of the daemon; what they write goes to the clients' descriptors. -/
def run (s : Server) (d : Daemon) : Server :=
  { s with
    d
    calls := s.calls ++ (d.replies.drop s.d.replies.length).map fun p => .uses p.1 p.2 }

/-- `close` of a client's descriptor. -/
def close (s : Server) (fd : Nat) : Server := { s with calls := s.calls ++ [.closes fd] }

/-- `qb_loop_stop` -/
def loopStop (s : Server) : Server := { s with stopRequested := true }

/-- `flag_shutdown` -/
def flagShutdown (s : Server) : Server :=
  if s.d.clients ≠ [] then s else { s.loopStop with shutdownPending := true }

/-- `client_connect_cb`; `none` while `accept` is interrupted only. -/
def clientConnectCb (s : Server) (err : Bool) (accepts : List AcceptRet) : Option Server :=
  if err then some s
  else if s.shutdownPending then some s
  else (accepts.find? (· ≠ .failed .eintr)).map fun
    | .failed _ => s
    | .client fd => { s with d := s.d.insertClient fd, calls := s.calls ++ [.opens fd] }

/-- `del_client` -/
def delClient (s : Server) (fd : Nat) : Server := (s.close fd).run (s.d.delClient fd)

/-- `client_activity_cb` -/
def clientActivityCb (s : Server) (fd : Nat) (err : Bool) (read : Option CpgLockMsg)
    (opened : Bool) : Server :=
  if err then s.delClient fd
  else
    match read with
    | none => s.delClient fd
    | some m =>
      let s := s.run (s.d.clientActivityCb fd m)
      if m.request = .dump then
        -- `fclose` has closed the descriptor
        if opened then (s.close fd).close fd else s.close fd
      else s

/-- One event of `cpg_dispatch`. -/
def deliver (s : Server) (e : Nat × Event) : Server :=
  if s.d.stopped then s else s.run (s.d.deliver e.1 e.2)

/-- `cpg_event_cb` -/
def cpgEventCb (s : Server) (err pollin : Bool) (events : List (Nat × Event)) (ok : Bool) :
    Server :=
  if err then s.loopStop
  else if pollin then
    let s := events.foldl deliver s
    if ok then s else s.loopStop
  else s

/-- What the kernel cannot answer: `accept` gives no descriptor that is open, and only clients'
descriptors are polled. -/
def Enabled (s : Server) : Callback → Prop
  | .listen _ accepts => ∀ a ∈ accepts, ∀ fd ∈ a.fd, fd ∉ FdCall.openAfter s.calls
  | .client fd _ _ _ => fd ∈ s.d.clients.map (·.fd)
  | _ => True

instance (s : Server) (c : Callback) : Decidable (s.Enabled c) := by
  cases c <;> unfold Enabled <;> infer_instance

/-- One callback. -/
def step (s : Server) (c : Callback) : Option Server :=
  if s.d.stopped ∨ ¬s.Enabled c then none
  else
    match c with
    | .signal => some s.flagShutdown
    | .listen err accepts => s.clientConnectCb err accepts
    | .client fd err read opened => some (s.clientActivityCb fd err read opened)
    | .cpg err pollin events ok => some (s.cpgEventCb err pollin events ok)

/-! ## The end -/

/-- `drop_all_locks` -/
def dropAllLocks (s : Server) : Server := { s with d := { s.d with locks := .empty } }

/-- One pass of the loop of `drop_all_requests`. -/
def dropRequest (s : Server) (r : RequestItem) : Server :=
  let s := if r.ownerNodeid = s.d.myNodeId then s.run (s.d.nakClient r).1 else s
  { s with d := { s.d with requests := s.d.requests.erase r } }

/-- `drop_all_requests` -/
def dropAllRequests (s : Server) : Server := s.d.requests.foldl dropRequest s

/-- One pass of the loop of `drop_all_clients`. -/
def dropClient (s : Server) (c : ClientItem) : Server :=
  { s with d := { s.d with clients := s.d.clients.erase c } }.close c.fd

/-- `drop_all_clients` -/
def dropAllClients (s : Server) : Server := s.d.clients.foldl dropClient s

/-- `drop_all_saved_msgs` -/
def dropAllSavedMsgs (s : Server) : Server :=
  { s with d := { s.d with history := { s.d.history with messages := [] } } }

/-- `drop_all_members` -/
def dropAllMembers (s : Server) : Server := { s with d := { s.d with groupMembers := [] } }

/-- What `main` does after `qb_loop_run`. -/
def teardown (s : Server) : Server :=
  s.dropAllLocks.dropAllRequests.dropAllClients.dropAllSavedMsgs.dropAllMembers

end Server

end Cpglock
