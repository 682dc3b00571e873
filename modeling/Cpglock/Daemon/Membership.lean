import Cpglock.Daemon.Types

/-!
# Membership: `group_members`, `joined`, `total_members`

The part of the daemon's state that only configuration changes and JOIN messages touch, and what
`process_join` and `cpg_config_change` do to it. The recovery of locks that `cpg_config_change`
runs in between (`del_node`) is in `Handlers.lean`; it reads this part and does not write it.
-/

namespace Cpglock

/-- The static variables about the group, `my_node_id` and `getpid()`. `stopped`: the process has
called `exit`, or sleeps for ever after MSG_HALT. -/
structure Membership where
  myNodeId : UInt32
  myPid : UInt32
  groupMembers : List MemberItem
  totalMembers : Int
  joined : Bool
  stopped : Bool
deriving DecidableEq

namespace Membership

/-- The state in which `main` enters its loop. -/
def init (nodeid pid : UInt32) : Membership :=
  { myNodeId := nodeid, myPid := pid, groupMembers := [], totalMembers := 0, joined := false,
    stopped := false }

/-- `is_member` -/
def isMember (g : Membership) (nodeid : UInt32) : Bool :=
  g.groupMembers.any fun n => n.nodeid = nodeid

/-- `process_join`: a listed node with the sender's pid moves to the tail, one with another pid
makes the JOIN ignored, an unlisted one is appended. -/
def processJoin (g : Membership) (nodeid pid : UInt32) : Membership :=
  match g.groupMembers.find? fun n => n.nodeid = nodeid with
  | some n =>
    if n.pid = pid then
      { g with groupMembers := g.groupMembers.eraseP (fun n => n.nodeid = nodeid) ++ [n] }
    else g
  | none =>
    { g with
      joined := g.joined || nodeid = g.myNodeId
      groupMembers := g.groupMembers ++ [⟨nodeid, pid⟩]
      totalMembers := g.totalMembers + 1 }

/-- The two nested loops over `members` and `join` that set up the initial node list. -/
def initialMembers (me : UInt32) (members join : List MemberItem) : List MemberItem :=
  members.flatMap fun x => join.flatMap fun y =>
    if y.nodeid = x.nodeid then [] else if x.nodeid = me then [] else [x]

/-- The branch `total_members == 0` of `cpg_config_change`. -/
def setUp (g : Membership) (members join : List MemberItem) : Membership :=
  if g.totalMembers = 0 then
    { g with
      groupMembers := g.groupMembers ++ initialMembers g.myNodeId members join
      totalMembers := members.length }
  else g

/-- One pass of `cpg_config_change`'s loop over `left`, with the count of removed members. -/
def dropLeft (p : Membership × Int) (x : MemberItem) : Membership × Int :=
  if p.1.stopped then p
  else if x ∈ p.1.groupMembers then
    if x.nodeid = p.1.myNodeId then ({ p.1 with stopped := true }, p.2)
    else ({ p.1 with groupMembers := p.1.groupMembers.erase x }, p.2 + 1)
  else p

/-- The end of `cpg_config_change`: `total_members` without the removed members, never below 0. -/
def settle (g : Membership) (removed : Int) : Membership :=
  if g.stopped then g
  else { g with totalMembers := max 0 (g.totalMembers - removed) }

/-- `cpg_config_change`, as far as the membership goes. -/
def configChange (g : Membership) (members left join : List MemberItem) : Membership :=
  let p := left.foldl dropLeft (g.setUp members join, 0)
  p.1.settle p.2

end Membership

end Cpglock
