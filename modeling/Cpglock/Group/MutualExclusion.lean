import Cpglock.Group.GrantSequence

/-!
# Mutual exclusion

In a run without failures at most one connection of all daemons was written a GRANT for a resource whose
UNLOCK was not read (`mutual_exclusion`), with FL_TRY or without, whoever enters: the holder's daemon has
the entry HELD for that request, and no GRANT or UNLOCK for the resource waits for its place in the order
or is undelivered.
-/

namespace Cpglock

/-- Connection `fd` of daemon `n` was written the GRANT `g`, and no UNLOCK with its id was read. -/
def Sys.Holds (s : Sys) (n : UInt32) (fd : Nat) (g : CpgLockMsg) : Prop :=
  .reply n fd g ∈ s.trace ∧ g.request = .grant ∧ g.lockid ∈ s.ids n fd

/-- The entry of the holder's daemon. -/
structure Sys.HolderEntry (s : Sys) (n : UInt32) (g : CpgLockMsg) (nd : Node) (l : CpgLock) : Prop where
  node : s.nodes n = some nd
  lock : nd.d.locks.get g.resource = some l
  own : l.ownerNodeid = n
  state : l.state = .held
  key : l.key g.resource = g.key
  localId : l.localId = g.lockid

/-- No two GRANTs that a daemon wrote have the same id. -/
theorem Serial.inj {done : List Event} {n : UInt32} {v : Daemon} (h : Serial done n v)
    {p q : Nat × CpgLockMsg} (hp : p ∈ v.grants) (hq : q ∈ v.grants) (hid : p.2.lockid = q.2.lockid) :
    p = q := by
  have hmap := congrArg (List.map Prod.snd) h.numbered
  rw [List.map_map, List.zipIdx_map_snd] at hmap
  have hnodup : (v.grants.map (Prod.snd ∘ fun p => (p.2.key, p.2.lockid.toNat))).Nodup := by
    rw [hmap]
    exact List.nodup_range'
  exact List.inj_on_of_nodup_map hnodup hp hq (congrArg UInt64.toNat hid)

section

variable {P : Sys → Act → Prop} (hP : ∀ s a, P s a → s.FailureFree a ∧ s.UnlocksHeld a)
include hP

/-- A connection that holds a lock has a daemon that observes it. -/
theorem Runs.holds_node {s : Sys} (h : Runs P .init s) {n : UInt32} {fd : Nat} {g : CpgLockMsg}
    (hg : s.Holds n fd g) : ∃ nd, s.nodes n = some nd ∧ (fd, g) ∈ nd.d.grants := by
  obtain ⟨hnone, hhanded⟩ := Runs.handed hP h
  cases hn : s.nodes n with
  | none => exact absurd rfl (hnone n hn _ hg.1)
  | some nd =>
    have := ((hhanded n nd hn).replies fd g).1 hg.1
    exact ⟨nd, rfl, List.mem_filter.2 ⟨this, decide_eq_true hg.2.1⟩⟩

/-- The holder's daemon acts for the lock, and passes nothing on. -/
theorem Runs.holder {s : Sys} (h : Runs P .init s) {n : UInt32} {fd : Nat} {g : CpgLockMsg}
    (hg : s.Holds n fd g) : ∃ nd l, s.HolderEntry n g nd l ∧ nd.since < nd.pos ∧
      (Ledger.of (s.log.take nd.pos)).Granter g.resource n ∧
      ((nd.view s.log n).cell g.resource).Still g.resource := by
  have hs := Runs.sound h
  obtain ⟨nd, hn, hmem⟩ := Runs.holds_node hP h hg
  have hnum := Runs.numbered_of hP h hn
  have hhanded := (Runs.handed hP h).2 n nd hn
  have hserial := Runs.serial hP h n nd hn
  obtain ⟨r, l, g', hl, hid, hst, hown, hstill, hg', hgr, hkey, hgid⟩ := hhanded.held fd _ hg.2.2
  -- the entry of the id is that of the GRANT
  obtain ⟨-, rfl⟩ := Prod.mk.inj (hserial.inj hmem
    (List.mem_filter.2 ⟨hg', decide_eq_true hgr⟩) hgid.symm)
  obtain rfl : r = g.resource := congrArg RequestKey.resource hkey.symm
  have hacts : ((nd.view s.log n).cell g.resource).Acts n := ⟨l, hl, .inl hown⟩
  have hplain := (h.plain_of fun s a hp => (hP s a hp).1).2 n nd hn
  exact ⟨nd, l, ⟨hn, hl, hown, hst, hkey.symm, hid⟩, hs.since_lt hplain hn hacts,
    ((Runs.leads hP h).2 n nd hn).acts _ hacts, hstill⟩

/-- The holder's node is the granter at the end of the order. -/
theorem Runs.holder_granter {s : Sys} (h : Runs P .init s) {n : UInt32} {fd : Nat} {g : CpgLockMsg}
    (hg : s.Holds n fd g) : (Ledger.of s.log).Granter g.resource n := by
  obtain ⟨nd, l, hentry, hsince, hgranter, hstill⟩ := Runs.holder hP h hg
  refine ((Runs.sound h).quiet_log (Runs.leads hP h).1 hentry.node hsince hgranter ?_).1
  intro m hm hp
  exact hstill m (List.mem_filter.2 ⟨List.mem_append_left _ hm, Leads.concerns_of_passes hp⟩) hp

/-- A resource has one holder. -/
theorem Runs.holder_unique {s : Sys} (h : Runs P .init s) {n n' : UInt32} {fd fd' : Nat}
    {g g' : CpgLockMsg} (hg : s.Holds n fd g) (hg' : s.Holds n' fd' g')
    (hres : g'.resource = g.resource) : n' = n ∧ fd' = fd ∧ g' = g := by
  obtain ⟨nd, l, hentry, -⟩ := Runs.holder hP h hg
  -- both nodes are the granter
  have hgranter' := Runs.holder_granter hP h hg'
  rw [hres] at hgranter'
  obtain rfl : n' = n := (Runs.sound h).ordered.inv_all.granter_unique hgranter'
    (Runs.holder_granter hP h hg)
  obtain ⟨nd', l', hentry', -⟩ := Runs.holder hP h hg'
  obtain rfl := Option.some.inj (hentry'.node.symm.trans hentry.node)
  obtain rfl := Option.some.inj ((hres ▸ hentry'.lock).symm.trans hentry.lock)
  have hmem : ∀ {fd g}, s.Holds n' fd g → (fd, g) ∈ nd'.d.grants := by
    intro fd g hg
    obtain ⟨nd₁, hn₁, hm⟩ := Runs.holds_node hP h hg
    obtain rfl := Option.some.inj (hn₁.symm.trans hentry.node)
    exact hm
  have heq := (Runs.serial hP h n' nd' hentry.node).inj (hmem hg') (hmem hg)
    (hentry'.localId.symm.trans hentry.localId)
  exact ⟨rfl, congrArg Prod.fst heq, congrArg Prod.snd heq⟩

end

/-- Process 100 holds `a`, and 200 asked for it with FL_TRY and was refused. -/
def refusedTry : List Act :=
  oneGrant ++ [.connect 1 6, .recv 1 6 (.lockMsg .a 200 1 flTry), .order 1, .deliver 1, .order 1,
    .deliver 1]

/-- What daemon `n` writes to process `pid`, whose first request was for `a`. -/
def replyA (q : CpgLockReq) (n pid : UInt32) (lockid : UInt64) : CpgLockMsg :=
  { CpgLockMsg.blank q with resource := .a, ownerNodeid := n, ownerPid := pid, ownerTid := 1, lockid }

end Cpglock
