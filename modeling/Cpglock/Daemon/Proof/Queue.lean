import Cpglock.Daemon.Proof.Requests

/-!
# The queue as a sequence of identities

`d.keys`: who waits, over all resources, in the queue's order. Marking a request does not change it,
so `grant_next` does not. `keys_deliver`: a message makes of it what it says
(`CpgLockMsg.requeue`), but for a GRANT or NAK to a process of this node without a client: that may
also take the requests of the process away.
-/

namespace Cpglock

/-- The identities without those `purge_requests` removes. -/
def purgeKeys (nodeid pid : UInt32) (ks : List RequestKey) : List RequestKey :=
  ks.filter fun k => !(k.nodeid = nodeid && (pid = 0 || k.pid = pid))

/-- What a message says about who waits. -/
def CpgLockMsg.requeue (m : CpgLockMsg) (ks : List RequestKey) : List RequestKey :=
  match m.request with
  | .lock => ks ++ [m.key]
  | .grant => ks.erase m.key
  | .nak => ks.erase m.key
  | .purge => purgeKeys m.ownerNodeid m.ownerPid ks
  | _ => ks

namespace Daemon

def keys (d : Daemon) : List RequestKey := d.requests.map (·.key)

theorem keys_cell (d : Daemon) (r : Resource) :
    (d.cell r).waiting.map (·.key) = d.keys.filter fun k => k.resource = r := by
  rw [keys, List.filter_map]
  rfl

@[simp] theorem keys_sendLockMsg (d : Daemon) (m : CpgLockMsg) : (d.sendLockMsg m).keys = d.keys :=
  rfl

@[simp] theorem keys_sendUnlock (d : Daemon) (m : CpgLockMsg) : (d.sendUnlock m).keys = d.keys :=
  rfl

@[simp] theorem keys_setLock (d : Daemon) (r : Resource) (f : CpgLock → CpgLock) :
    (d.setLock r f).keys = d.keys := rfl

@[simp] theorem keys_putLock (d : Daemon) (r : Resource) (l : CpgLock) :
    (d.putLock r l).keys = d.keys := rfl

theorem keys_purgeRequests (d : Daemon) (n p : UInt32) :
    (d.purgeRequests n p).keys = purgeKeys n p d.keys := by
  rw [purgeKeys, keys, keys, List.filter_map]
  rfl

theorem map_key_eraseP (l : List RequestItem) (k : RequestKey) :
    (l.eraseP fun q => q.key = k).map (·.key) = (l.map (·.key)).erase k := by
  induction l with
  | nil => rfl
  | cons q l ih =>
    by_cases hk : q.key = k
    · simp [hk]
    · rw [List.eraseP_cons_of_neg (by simpa using hk), List.map_cons, List.map_cons,
        List.erase_cons_tail (by simpa using hk), ih]

theorem keys_unlinkRequest (d : Daemon) (m : CpgLockMsg) :
    (d.unlinkRequest m).keys = d.keys.erase m.key := map_key_eraseP _ _

theorem keys_queueRequest (d : Daemon) (m : CpgLockMsg) (now : Nat) :
    (d.queueRequest m now).keys = d.keys ++ [m.key] := by
  simp [keys, queueRequest, CpgLockMsg.key, RequestItem.key]

theorem keys_grantNext {d d' : Daemon} {m : CpgLockMsg} (h : d.grantNext m = some d') :
    d'.keys = d.keys := by
  obtain ⟨p, hp, rfl⟩ := Option.map_eq_some_iff.1 h
  obtain ⟨l₁, l₂, hl, hw, -⟩ := pickPending_some hp
  change p.2.map (·.key) = d.requests.map (·.key)
  rw [hl, hw]
  simp [RequestItem.key]

theorem keys_grantNextElse (d : Daemon) (m : CpgLockMsg) {k : Daemon → Daemon}
    (hk : (k d).keys = d.keys) : (d.grantNextElse m k).keys = d.keys := by
  unfold grantNextElse
  cases h : d.grantNext m with
  | none => exact hk
  | some d' => exact keys_grantNext h

theorem keys_notifyClient (d : Daemon) (pid : UInt32) (m : CpgLockMsg) :
    (d.notifyClient pid m).1.keys = d.keys := by
  unfold notifyClient
  split <;> rfl

theorem keys_iter (d : Daemon) {f : Daemon → Resource → CpgLock → Daemon}
    (hf : ∀ d r l, (f d r l).keys = d.keys) : (d.locks.iter f d).keys = d.keys :=
  SortedMap.iter_induction (I := fun d' => d'.keys = d.keys) _ rfl
    fun d' r l _ hd => (hf d' r l).trans hd

/-! ## Clients -/

theorem keys_delClient (d : Daemon) (fd : Nat) : (d.delClient fd).keys =
    if d.clientPid fd = 0 then d.keys else purgeKeys d.myNodeId (d.clientPid fd) d.keys := by
  unfold delClient
  split
  · rfl
  · rw [recoverClient, keys_iter, keys_sendLockMsg, keys_purgeRequests]
    · rfl
    · intro d r l
      unfold recoverClientLock
      dsimp only
      split
      · exact keys_grantNextElse _ _ rfl
      · rfl

theorem keys_clientActivityCb (d : Daemon) (fd : Nat) (m : CpgLockMsg) :
    (d.clientActivityCb fd m).keys = d.keys := by
  unfold clientActivityCb
  split
  · rfl
  · cases d.findLockById m with
    | none => rfl
    | some m' => exact keys_grantNextElse (k := (·.sendUnlock m')) d m' rfl
  · rfl
  · rfl

/-! ## Deliveries -/

theorem keys_grantFree (d : Daemon) (m : CpgLockMsg) : (d.grantFree m).keys = d.keys :=
  keys_grantNextElse _ _ rfl

theorem keys_processLock (d : Daemon) (m : CpgLockMsg) (now : Nat) (hj : d.joined = true) :
    (d.processLock m now).keys = d.keys ++ [m.key] := by
  have hq := keys_queueRequest d m now
  unfold processLock
  simp only [hj, Bool.not_true, Bool.false_eq_true, if_false]
  split
  · split
    · split
      · rw [keys_grantFree, hq]
      · split
        · exact hq
        · exact hq
    · exact hq
  · split
    · rw [keys_grantFree]
      exact hq
    · exact hq

theorem keys_regrantNonMember (d : Daemon) (m : CpgLockMsg) : (d.regrantNonMember m).keys = d.keys := by
  unfold regrantNonMember
  split
  · exact keys_grantNextElse _ _ rfl
  · rfl

theorem keys_processGrant (d : Daemon) (m : CpgLockMsg) (hj : d.joined = true)
    (hl : d.locks.get m.resource ≠ none) (hp : m.ownerPid ≠ 0) (hn : m.ownerNodeid ≠ 0) :
    (d.processGrant m).keys = d.keys.erase m.key ∨ m.ownerNodeid = d.myNodeId ∧
      d.connected m.ownerPid = false ∧
      (d.processGrant m).keys = purgeKeys d.myNodeId m.ownerPid (d.keys.erase m.key) := by
  have hu : ((d.setLock m.resource (granted m)).unlinkRequest m).keys = d.keys.erase m.key :=
    keys_unlinkRequest _ _
  unfold processGrant
  simp only [hj, Bool.not_true, Bool.false_eq_true, if_false]
  split
  · next l _ =>
    rw [if_neg fun h => h.2.elim hp hn]
    split
    · next hme =>
      have hg : ∀ l : CpgLock, (((d.setLock m.resource (granted m)).unlinkRequest m).grantClient
          m.resource l).1.keys = d.keys.erase m.key := fun l => (keys_notifyClient _ _ _).trans hu
      unfold grantLocal
      dsimp only
      split
      · left
        rw [keys_regrantNonMember, hg]
      · next hf =>
        refine .inr ⟨hme, ?_, ?_⟩
        · have hf := Bool.eq_false_iff.2 hf
          rw [grantClient, notifyClient_snd] at hf
          exact hf
        · rw [keys_grantNextElse _ _ rfl, keys_purgeRequests, hg]
          rfl
    · left
      rw [keys_regrantNonMember, hu]
  · next h => exact absurd h hl

theorem keys_processNak (d : Daemon) (m : CpgLockMsg) (hj : d.joined = true) :
    (d.processNak m).keys = d.keys.erase m.key ∨ m.ownerNodeid = d.myNodeId ∧
      d.connected m.ownerPid = false ∧
      (d.processNak m).keys = purgeKeys d.myNodeId m.ownerPid (d.keys.erase m.key) := by
  have hu := keys_unlinkRequest d m
  unfold processNak
  simp only [hj, Bool.not_true, Bool.false_eq_true, if_false]
  split
  · next hf =>
    left
    refine (List.erase_of_not_mem ?_).symm
    intro hk
    obtain ⟨q, hq, hqk⟩ := List.mem_map.1 hk
    have := List.find?_eq_none.1 hf q hq
    simp [hqk] at this
  · next q hf =>
    have hk : q.key = m.key := by simpa using List.find?_some hf
    have hn : q.ownerNodeid = m.ownerNodeid := congrArg RequestKey.nodeid hk
    have hp : q.ownerPid = m.ownerPid := congrArg RequestKey.pid hk
    split
    · next hme =>
      have hg : ((d.unlinkRequest m).nakClient q).1.keys = d.keys.erase m.key :=
        (keys_notifyClient _ _ _).trans hu
      split
      · exact .inl hg
      · next hf =>
        refine .inr ⟨hn.symm.trans hme, ?_, ?_⟩
        · have hf := Bool.eq_false_iff.2 hf
          rw [nakClient, notifyClient_snd, hp] at hf
          exact hf
        · rw [keys_purgeRequests, hg, hp]
          rfl
    · exact .inl hu

theorem keys_processUnlock (d : Daemon) (m : CpgLockMsg) : (d.processUnlock m).keys = d.keys := by
  unfold processUnlock
  split
  · rfl
  · refine keys_iter d fun d r l => ?_
    unfold unlockEntry
    split
    · dsimp only
      split
      · cases h : (d.setLock r fun l => { l with state := .free }).grantNext m with
        | none => rfl
        | some d' => exact (keys_grantNext h : d'.keys = _)
      · rfl
    · rfl

/-- A delivered message, as far as the queue goes. -/
theorem keys_deliver (d : Daemon) (now : Nat) (x : MemberItem) (m : CpgLockMsg)
    (hj : m.request = .lock ∨ m.request = .grant ∨ m.request = .nak → d.joined = true)
    (hg : m.request = .grant →
      d.locks.get m.resource ≠ none ∧ m.ownerPid ≠ 0 ∧ m.ownerNodeid ≠ 0) :
    (d.deliver now (.msg x m)).keys = m.requeue d.keys ∨
      (m.request = .grant ∨ m.request = .nak) ∧ m.ownerNodeid = d.myNodeId ∧
      d.connected m.ownerPid = false ∧
      (d.deliver now (.msg x m)).keys = purgeKeys d.myNodeId m.ownerPid (m.requeue d.keys) := by
  let d' : Daemon := { d with history := d.history.oldMsg m }
  simp only [deliver, processRequest, CpgLockMsg.requeue]
  split
  · next hm =>
    simp only [hm]
    exact .inl rfl
  · next hm =>
    simp only [hm]
    exact .inl (keys_processLock d' m now (hj (.inl hm)))
  · next hm =>
    simp only [hm]
    exact (keys_processNak d' m (hj (.inr (.inr hm)))).imp id fun h => ⟨by simp, h⟩
  · next hm =>
    obtain ⟨hl, hp, hn⟩ := hg hm
    simp only [hm]
    exact (keys_processGrant d' m (hj (.inr (.inl hm))) hl hp hn).imp id fun h => ⟨by simp, h⟩
  · next hm =>
    simp only [hm]
    exact .inl (keys_processUnlock d' m)
  · next hm =>
    simp only [hm]
    exact .inl (keys_purgeRequests d' _ _)
  · next hm =>
    simp only [hm]
    exact .inl rfl
  · next h₁ h₂ h₃ h₄ h₅ h₆ h₇ =>
    left
    split <;> first | rfl | contradiction

end Daemon

end Cpglock
