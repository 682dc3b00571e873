import Cpglock.Group.Proof.Follows

/-!
# Which entries are HELD

A delivery makes an entry HELD by a GRANT only, in the name of the GRANT's request; other entries that
are HELD after it were so before, and the message did not settle them (`CellStep.held`). A GRANT to a
process of this node that has no client is passed on at once (`CellStep.passed_on`).
-/

namespace Cpglock

namespace Cell

variable {r : Resource} {c : Cell} {l : CpgLock}

theorem regrantNonMember_held {b : Bool} {m : CpgLockMsg}
    (hl : (c.regrantNonMember r b m).lock = some l) (hs : l.state = .held) : c.lock = some l := by
  unfold regrantNonMember at hl
  split at hl
  · rw [grantNextOrUnlock_lock, setState_lock] at hl
    obtain ⟨l₀, -, rfl⟩ := Option.map_eq_some_iff.1 hl
    cases hs
  · exact hl

/-- An entry that is neither FREE nor PENDING after a new request is as it was. -/
theorem processLock_held {me : UInt32} {b : Bool} {m : CpgLockMsg} {now : Nat}
    (hl : (c.processLock r me b m now).lock = some l) (hs : l.state = .held) : c.lock = some l := by
  have hfree : ∀ c : Cell, (c.grantFree r).lock = some l → False := by
    intro c h
    unfold grantFree at h
    revert h
    refine grantNextElse_induction (I := fun c => c.lock = some l → False) (fun c' hc h => ?_)
      fun _ h => ?_
    · rw [grantNext_lock hc, setState_lock] at h
      obtain ⟨l₀, -, rfl⟩ := Option.map_eq_some_iff.1 h
      cases hs
    · rw [setState_lock, setState_lock] at h
      obtain ⟨l₀, -, rfl⟩ := Option.map_eq_some_iff.1 h
      cases hs
  unfold processLock at hl
  dsimp only at hl
  split at hl
  · split at hl
    · split at hl
      · exact (hfree _ hl).elim
      · split at hl
        · exact hl
        · exact hl
    · exact hl
  · split at hl
    · exact (hfree _ hl).elim
    · obtain rfl := Option.some.inj hl
      cases hs

/-- After a GRANT the entry is HELD by its request, if HELD at all. -/
theorem processGrant_held {me : UInt32} {lost connected : Bool} {id : UInt64} {m : CpgLockMsg}
    (hp : m.ownerPid ≠ 0) (hn : m.ownerNodeid ≠ 0) (hr : m.resource = r)
    (hl : (c.processGrant r me lost connected id m).lock = some l) (hs : l.state = .held) :
    l.key r = m.key := by
  have key : ∀ f : CpgLock → CpgLock, (∀ l, (f l).key r = l.key r) →
      (c.lock.map (Daemon.granted m)).map f = some l → l.key r = m.key := by
    intro f hf h
    obtain ⟨l₁, h₁, rfl⟩ := Option.map_eq_some_iff.1 h
    obtain ⟨l₀, -, rfl⟩ := Option.map_eq_some_iff.1 h₁
    rw [hf]
    simp [CpgLock.key, CpgLockMsg.key, Daemon.granted, hr]
  have havert : ∀ l₀ : CpgLock, ¬(l₀.state = .held ∧ (m.ownerPid = 0 ∨ m.ownerNodeid = 0)) :=
    fun l₀ h => h.2.elim hp hn
  unfold processGrant at hl
  split at hl
  · next l₀ hl₀ =>
    rw [if_neg (havert l₀)] at hl
    dsimp only at hl
    split at hl
    · split at hl
      · have h := regrantNonMember_held hl hs
        rw [set_lock, unlink_lock, set_lock] at h
        exact key (fun l => { l with localId := id }) (fun _ => rfl) h
      · rw [grantNextOrUnlock_lock, purge_lock, set_lock, unlink_lock, set_lock] at hl
        exact key (fun l => { l with localId := id }) (fun _ => rfl) hl
    · have h := regrantNonMember_held hl hs
      rw [unlink_lock, set_lock] at h
      exact key (fun l => l) (fun _ => rfl) (by simpa using h)
  · obtain rfl := Option.some.inj hl
    simp [CpgLock.key, CpgLockMsg.key, Daemon.granted, hr]

/-- An UNLOCK that names the holder frees the entry. -/
theorem processUnlock_held {me : UInt32} {m : CpgLockMsg}
    (hl : (c.processUnlock r me m).lock = some l) (hs : l.state = .held) :
    c.lock = some l ∧ ¬m.Releases l := by
  unfold processUnlock at hl
  split at hl
  · next l₀ hl₀ =>
    split at hl
    · exfalso
      dsimp only at hl
      split at hl
      · cases hg : (c.setState .free).grantNext r with
        | none =>
          rw [hg, Option.elim_none, setState_lock] at hl
          obtain ⟨l₁, -, rfl⟩ := Option.map_eq_some_iff.1 hl
          cases hs
        | some c' =>
          rw [hg, Option.elim_some, setState_lock] at hl
          obtain ⟨l₁, -, rfl⟩ := Option.map_eq_some_iff.1 hl
          cases hs
      · rw [setState_lock] at hl
        obtain ⟨l₁, -, rfl⟩ := Option.map_eq_some_iff.1 hl
        cases hs
    · next hno =>
      obtain rfl := Option.some.inj (hl₀.symm.trans hl)
      exact ⟨hl₀, fun h => hno ⟨hs, h⟩⟩
  · next hl₀ =>
    rw [hl₀] at hl
    cases hl

theorem recoverClient_held {me pid : UInt32} (hl : (c.recoverClient r me pid).lock = some l)
    (hs : l.state = .held) : c.lock = some l ∧ ¬(l.ownerNodeid = me ∧ l.ownerPid = pid) := by
  unfold recoverClient at hl
  simp only [send_lock, purge_lock] at hl
  split at hl
  · next l₀ hl₀ =>
    split at hl
    · rw [grantNextOrUnlock_lock, setState_lock, send_lock, purge_lock, hl₀] at hl
      obtain rfl := Option.some.inj hl
      cases hs
    · next hno =>
      rw [send_lock, purge_lock, hl₀] at hl
      obtain rfl := Option.some.inj hl
      exact ⟨hl₀, fun h => hno ⟨h.1, h.2, hs⟩⟩
  · next hl₀ =>
    rw [send_lock, purge_lock, hl₀] at hl
    cases hl

end Cell

/-- A client's message changes no entry. -/
theorem Daemon.lock_clientActivityCb (d : Daemon) (r : Resource) (fd : Nat) (m : CpgLockMsg) :
    ((d.clientActivityCb fd m).cell r).lock = (d.cell r).lock := by
  rw [cell_clientActivityCb]
  split
  · rfl
  · split
    · cases d.findLockById m with
      | none => rfl
      | some m' =>
        show Cell.lock (if m'.resource = r then _ else _) = _
        split
        · exact Cell.grantNextOrUnlock_lock ..
        · rfl
    · rfl

namespace Daemon.CellStep

variable {d : Daemon} {r : Resource} {now : Nat} {m : CpgLockMsg} {c : Cell} {l : CpgLock}

/-- Only what concerns the entry changes it. -/
theorem lock_of_ne (h : d.CellStep r now m c) (hm : m.resource ≠ r ∨ m.request = .purge) :
    c.lock = (d.cell r).lock := by
  have hno : ∀ {q : CpgLockReq}, m.resource = r → m.request = q → q ≠ .purge → False := by
    intro q hr hq hne
    rcases hm with hm | hm
    · exact hm hr
    · exact hne (hq.symm.trans hm)
  cases h with
  | lock _ hq hr => exact (hno hr hq (by decide)).elim
  | grant _ hq hr => exact (hno hr hq (by decide)).elim
  | nak _ hq hr => exact (hno hr hq (by decide)).elim
  | unlock _ hq hr => exact (hno hr hq (by decide)).elim
  | purge => rfl
  | gone => rfl
  | same => rfl

theorem held (h : d.CellStep r now m c) (hj : (d.cell r).lock ≠ none → d.joined = true)
    (hreal : m.request = .grant → m.ownerPid ≠ 0 ∧ m.ownerNodeid ≠ 0) (hl : c.lock = some l)
    (hs : l.state = .held) :
    (d.cell r).lock = some l ∧ ¬m.Settles r l ∨
      d.joined = true ∧ m.request = .grant ∧ m.resource = r ∧ l.key r = m.key := by
  have hno : m.request ≠ .grant → m.request ≠ .unlock → ¬m.Settles r l := by
    rintro hg hu ⟨-, h | ⟨h, -⟩⟩
    · exact hg h
    · exact hu h
  cases h with
  | lock _ hq _ =>
    exact .inl ⟨Cell.processLock_held hl hs, hno (by rw [hq]; decide) (by rw [hq]; decide)⟩
  | grant hj hq hr =>
    obtain ⟨hp, hn⟩ := hreal hq
    exact .inr ⟨hj, hq, hr, Cell.processGrant_held hp hn hr hl hs⟩
  | nak _ hq _ =>
    rw [Cell.processNak_lock] at hl
    exact .inl ⟨hl, hno (by rw [hq]; decide) (by rw [hq]; decide)⟩
  | unlock _ hq _ =>
    obtain ⟨hl, hrel⟩ := Cell.processUnlock_held hl hs
    refine .inl ⟨hl, ?_⟩
    rintro ⟨-, h | ⟨-, h⟩⟩
    · rw [hq] at h
      cases h
    · exact hrel h
  | purge hq => exact .inl ⟨hl, hno (by rw [hq]; decide) (by rw [hq]; decide)⟩
  | gone _ hr _ _ => exact .inl ⟨hl, fun h => hr h.1⟩
  | same _ hsame =>
    refine .inl ⟨hl, ?_⟩
    rintro ⟨hr, h | ⟨h, -⟩⟩
    · exact (hsame (hj (by rw [hl]; simp)) hr).2.1 h
    · exact (hsame (hj (by rw [hl]; simp)) hr).2.2.2 h

/-- A GRANT to a process of this node that has no client here is followed by a message that ends the
holding. -/
theorem passed_on (h : d.CellStep r now m c) (hj : d.joined = true) (hq : m.request = .grant)
    (hr : m.resource = r) (hp : m.ownerPid ≠ 0) (hn : m.ownerNodeid ≠ 0)
    (hme : m.ownerNodeid = d.myNodeId) (hc : d.connected m.ownerPid = false)
    (hentry : (d.cell r).lock ≠ none) (hl : c.lock = some l) (hs : l.state = .held) :
    ∃ g ∈ c.sent, g.Settles r l := by
  cases h with
  | grant _ _ _ =>
    have hkey := Cell.processGrant_held hp hn hr hl hs
    obtain ⟨l₀, hl₀⟩ := Option.ne_none_iff_exists'.1 hentry
    have havert : ¬(l₀.state = .held ∧ (m.ownerPid = 0 ∨ m.ownerNodeid = 0)) :=
      fun h => h.2.elim hp hn
    unfold Cell.processGrant
    simp only [hl₀, if_neg havert, if_pos hme, hc, Bool.false_eq_true, if_false]
    rcases Cell.grantNextOrUnlock_ends (r := r) (Cell.purge ((((d.cell r).set
      (Daemon.granted m)).unlink m.key).set fun l => { l with localId := d.localLockid + 1 })
      d.myNodeId m.ownerPid) m with ⟨q, hqr, hg⟩ | ⟨hu, -⟩
    · exact ⟨_, hg, hqr, .inl rfl⟩
    · refine ⟨_, hu, hr, .inr ⟨rfl, ?_, ?_⟩⟩
      · exact congrArg RequestKey.nodeid hkey
      · exact congrArg RequestKey.pid hkey
  | lock _ h _ => rw [hq] at h; cases h
  | nak _ h _ => rw [hq] at h; cases h
  | unlock _ h _ => rw [hq] at h; cases h
  | purge h => rw [hq] at h; cases h
  | gone _ h _ _ => exact absurd hr h
  | same _ h => exact absurd hq (h hj hr).2.1

end Daemon.CellStep

end Cpglock
