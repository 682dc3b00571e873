import Cpglock.Daemon.Handlers
import Cpglock.Lib.Transition

/-!
# The daemons, their clients and CPG

A state (`Sys`) holds the order CPG has agreed on so far (`log`), and for each live daemon its state
and how much of the order it has been delivered (`Node.pos`). Daemons run at their own pace: between
two deliveries at one daemon anything may happen at the others. What a daemon multicasts waits in
its `out` until CPG puts it into the order (`Act.order`), per sender first in, first out; the sender
is delivered its own messages like everybody else.

A configuration change (`Act.confchg`) takes its place in the order too. A member that has left runs
no further and its unordered messages are lost. A daemon that enters is delivered the order from the
change that announces it; the array `members` it is handed lists the group in any order.

`Sys.trace` records what could be observed, in the order of time.
-/

namespace Cpglock

/-- What CPG delivers. `members n` is the array handed to daemon `n`. -/
inductive Event
  | msg (sender : MemberItem) (m : CpgLockMsg)
  | confchg (members : UInt32 → List MemberItem) (left join : List MemberItem)

/-- A daemon handles the next event of the order, `now` on its clock. -/
def Daemon.deliver (d : Daemon) (now : Nat) : Event → Daemon
  | .msg sender m => d.processRequest m sender.nodeid sender.pid now
  | .confchg members left join => d.cpgConfigChange (members d.myNodeId) left join

/-- Observations, with the node id of the daemon: a client's message read, a client's connection
removed by `del_client`, a message written to a client, a message multicast (and the delivery that
caused it, as an index of the order, if one did), a node's leave. -/
inductive Obs
  | recv (n : UInt32) (fd : Nat) (m : CpgLockMsg)
  | closed (n : UInt32) (fd : Nat)
  | reply (n : UInt32) (fd : Nat) (m : CpgLockMsg)
  | mcast (n : UInt32) (cause : Option Nat) (m : CpgLockMsg)
  | left (n : UInt32)
deriving DecidableEq

/-- A live daemon: `since` is the index of the change that announced it, `pos` the number of events
of the order that are behind it. -/
structure Node where
  d : Daemon
  since : Nat
  pos : Nat

/-- A state of the system; `group` is CPG's membership at the end of the order. -/
structure Sys where
  group : List MemberItem
  log : List Event
  nodes : UInt32 → Option Node
  trace : List Obs

/-- What a daemon finds when it starts, besides its identity: the memory behind its empty member
list and its `-m` option. -/
structure Boot where
  stray : MemberItem
  maxSavedMsgs : UInt64

/-- The daemon at the start of its main loop, its JOIN multicast. -/
def Daemon.start (x : MemberItem) (b : Boot) : Daemon :=
  { Membership.init x.nodeid x.pid with
    requests := []
    clients := []
    locks := .empty
    localLockid := 0
    history := { messages := [], messageCount := 0, maxSavedMsgs := b.maxSavedMsgs }
    stray := b.stray
    out := []
    replies := [] : Daemon }.sendJoin

inductive Act
  | confchg (members : UInt32 → List MemberItem) (left join : List MemberItem)
      (boot : UInt32 → Boot)
  | order (n : UInt32)
  | deliver (n : UInt32)
  | connect (n : UInt32) (fd : Nat)
  | recv (n : UInt32) (fd : Nat) (m : CpgLockMsg)
  | close (n : UInt32) (fd : Nat)

namespace Sys

/-- No daemon, nothing ordered. -/
def init : Sys := { group := [], log := [], nodes := fun _ => none, trace := [] }

/-- The group after a change. -/
def groupAfter (s : Sys) (left join : List MemberItem) : List MemberItem :=
  (s.group.filter fun x => x ∉ left) ++ join

/-- The changes CPG announces: members leave, processes of other nodes enter, node ids are not 0,
and every array lists the new group. -/
def ConfOk (s : Sys) (members : UInt32 → List MemberItem) (left join : List MemberItem) : Prop :=
  left.Nodup ∧ (∀ x ∈ left, x ∈ s.group) ∧ (join.map (·.nodeid)).Nodup ∧
    (∀ x ∈ join, x.nodeid ≠ 0 ∧ ∀ y ∈ s.group, y.nodeid ≠ x.nodeid) ∧
    ∀ x ∈ s.groupAfter left join, (members x.nodeid).Perm (s.groupAfter left join)

instance (s : Sys) (members : UInt32 → List MemberItem) (left join : List MemberItem) :
    Decidable (s.ConfOk members left join) := by
  unfold ConfOk
  infer_instance

/-- The daemons after a change. -/
def nodesAfter (s : Sys) (left join : List MemberItem) (boot : UInt32 → Boot) (n : UInt32) :
    Option Node :=
  if n ∈ left.map (·.nodeid) then none
  else
    match join.find? fun x => x.nodeid = n with
    | some x => some { d := .start x (boot n), since := s.log.length, pos := s.log.length }
    | none => s.nodes n

/-- What daemon `n` sent and wrote while its state went from `d` to `d'`. -/
def effects (n : UInt32) (cause : Option Nat) (d d' : Daemon) : List Obs :=
  (d'.out.drop d.out.length).map (.mcast n cause) ++
    (d'.replies.drop d.replies.length).map fun p => .reply n p.1 p.2

/-- Node `n` becomes `nd`. -/
def setNode (s : Sys) (n : UInt32) (nd : Node) : UInt32 → Option Node :=
  fun k => if k = n then some nd else s.nodes k

/-- Daemon `n`, now `nd`, goes to state `d` at position `pos`, after the observation `seen`. -/
def run (s : Sys) (n : UInt32) (nd : Node) (d : Daemon) (pos : Nat) (cause : Option Nat)
    (seen : List Obs) : Sys :=
  { s with
    nodes := s.setNode n { nd with d, pos }
    trace := s.trace ++ seen ++ effects n cause nd.d d }

/-- A configuration change takes its place in the order. -/
def change (s : Sys) (members : UInt32 → List MemberItem) (left join : List MemberItem)
    (boot : UInt32 → Boot) : Sys :=
  { group := s.groupAfter left join
    log := s.log ++ [.confchg members left join]
    nodes := s.nodesAfter left join boot
    trace := s.trace ++ left.map fun x => .left x.nodeid }

/-- The message `m`, the first that waits at daemon `n`, takes its place in the order. -/
def orderNext (s : Sys) (n : UInt32) (nd : Node) (m : CpgLockMsg) (out : List CpgLockMsg) : Sys :=
  { s with
    log := s.log ++ [.msg ⟨n, nd.d.myPid⟩ m]
    nodes := s.setNode n { nd with d := { nd.d with out } } }

/-- One step, `none` where it is not enabled. -/
def step (s : Sys) : Act → Option Sys
  | .confchg members left join boot =>
    if s.ConfOk members left join then some (s.change members left join boot) else none
  | .order n =>
    (s.nodes n).bind fun nd =>
      match nd.d.out with
      | [] => none
      | m :: out => some (s.orderNext n nd m out)
  | .deliver n =>
    (s.nodes n).bind fun nd =>
      if nd.d.stopped then none
      else (s.log[nd.pos]?).map fun e =>
        s.run n nd (nd.d.deliver nd.pos e) (nd.pos + 1) (some nd.pos) []
  | .connect n fd =>
    (s.nodes n).bind fun nd =>
      if nd.d.stopped ∨ fd ∈ nd.d.clients.map (·.fd) then none
      else some (s.run n nd (nd.d.insertClient fd) nd.pos none [])
  | .recv n fd m =>
    (s.nodes n).bind fun nd =>
      if nd.d.stopped ∨ fd ∉ nd.d.clients.map (·.fd) then none
      else some (s.run n nd (nd.d.clientActivityCb fd m) nd.pos none [.recv n fd m])
  | .close n fd =>
    (s.nodes n).bind fun nd =>
      if nd.d.stopped ∨ fd ∉ nd.d.clients.map (·.fd) then none
      else some (s.run n nd (nd.d.delClient fd) nd.pos none [.closed n fd])

/-- No CPG message is in flight: everything multicast is ordered, everything ordered is
delivered. -/
def Quiescent (s : Sys) : Prop :=
  ∀ n nd, s.nodes n = some nd → nd.d.out = [] ∧ nd.pos = s.log.length

end Sys

/-- The runs whose steps satisfy `P`. -/
abbrev Runs (P : Sys → Act → Prop) : Sys → Sys → Prop := Transition.Run Sys.step P

end Cpglock
