import Cpglock.Daemon.Proof.MemberList
import Cpglock.Group.System

/-!
# What the order alone determines

`Ledger.of log`: the state after a prefix of CPG's order that every daemon could compute. It keeps
the membership part of each live daemon (`views`; the handlers of other messages do not touch it,
nor do clients), and for each resource the node of the last GRANT, while that node has not left
since (`cand`). `Granter` names the one daemon that may act for a resource: the node the resource
was last granted to, else the daemon at the head of its own member list.
-/

namespace Cpglock

structure Ledger where
  views : UInt32 → Option Membership
  cand : Resource → Option UInt32

namespace Ledger

def init : Ledger := { views := fun _ => none, cand := fun _ => none }

/-- The memberships after an event. -/
def viewsAfter (G : Ledger) (e : Event) (n : UInt32) : Option Membership :=
  match e with
  | .msg s m =>
    match m.request with
    | .join => (G.views n).map (·.processJoin s.nodeid s.pid)
    | .halt => (G.views n).map fun g => { g with stopped := true }
    | _ => G.views n
  | .confchg members left join =>
    if n ∈ left.map (·.nodeid) then none
    else
      match join.find? fun x => x.nodeid = n with
      | some x => some ((Membership.init x.nodeid x.pid).configChange (members n) left join)
      | none => (G.views n).map (·.configChange (members n) left join)

/-- `n` is a live daemon whose JOIN it was delivered. -/
def Joined (G : Ledger) (n : UInt32) : Prop := ∃ g, G.views n = some g ∧ g.joined = true

/-- `n` is a joined daemon at the head of its own member list. -/
def Oldest (G : Ledger) (n : UInt32) : Prop :=
  ∃ g, G.views n = some g ∧ g.joined = true ∧ g.ids.head? = some n

/-- The node of the last GRANT, after an event. -/
def candAfter (G : Ledger) (e : Event) (r : Resource) : Option UInt32 :=
  match e with
  | .msg _ m =>
    if m.request = .grant ∧ m.resource = r then
      if (G.views m.ownerNodeid).any (·.joined) then some m.ownerNodeid else none
    else G.cand r
  | .confchg _ left _ => (G.cand r).filter fun c => c ∉ left.map (·.nodeid)

def step (G : Ledger) (e : Event) : Ledger := { views := G.viewsAfter e, cand := G.candAfter e }

/-- The ledger of a prefix of the order. -/
def of (log : List Event) : Ledger := log.foldl step init

@[simp] theorem of_nil : of [] = init := rfl

@[simp] theorem of_append (log : List Event) (e : Event) : of (log ++ [e]) = (of log).step e := by
  simp [of]

/-- The daemon that acts for `r`: the node it was last granted to, the oldest daemon if there is
no such node. -/
def Granter (G : Ledger) (r : Resource) (n : UInt32) : Prop :=
  G.cand r = some n ∨ G.cand r = none ∧ G.Oldest n

end Ledger

end Cpglock
