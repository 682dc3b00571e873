import Cpglock.Daemon.Proof.Moves

/-!
# One message at a time passes a lock on

`Cell.Turn`: of the GRANTs and UNLOCKs a daemon sends for a resource at most one is undelivered, and
while it is, the daemon's own entry is HELD or PENDING. Smooth deliveries keep it
(`Turn.move`), and so does a client's UNLOCK if no such message is on its way (`Turn.write`).
-/

namespace Cpglock

/-- A GRANT or an UNLOCK for `r`. -/
def CpgLockMsg.Passes (r : Resource) (m : CpgLockMsg) : Prop :=
  (m.request = .grant ∨ m.request = .unlock) ∧ m.resource = r

instance (r : Resource) (m : CpgLockMsg) : Decidable (m.Passes r) := by
  unfold CpgLockMsg.Passes
  infer_instance

namespace Cell

/-- No GRANT or UNLOCK for `r` is on its way. -/
def Still (r : Resource) (c : Cell) : Prop := ∀ m ∈ c.sent, ¬m.Passes r

/-- Node `n` decides about the lock: it owns the entry, or its GRANT for it is on the way. -/
def Acts (n : UInt32) (c : Cell) : Prop :=
  ∃ l, c.lock = some l ∧ (l.ownerNodeid = n ∨ l.state = .pending)

structure Turn (r : Resource) (n : UInt32) (c : Cell) : Prop where
  one : c.sent.countP (·.Passes r) ≤ 1
  busy : ∀ m ∈ c.sent, m.Passes r → ∃ l, c.lock = some l ∧
    (l.state = .held ∧ l.ownerNodeid = n ∨ l.state = .pending)
  pending : ∀ l, c.lock = some l → l.state = .pending →
    ∃ m ∈ c.sent, m.request = .grant ∧ m.resource = r
  unlock : ∀ m ∈ c.sent, m.request = .unlock → m.resource = r → ∃ l, c.lock = some l ∧
    l.state = .held ∧ l.ownerNodeid = n ∧ m.ownerNodeid = n ∧ m.ownerPid = l.ownerPid

variable {r : Resource} {n : UInt32} {c c' : Cell} {m : CpgLockMsg} {l : CpgLock}

theorem Still.countP (h : c.Still r) : c.sent.countP (·.Passes r) = 0 := by
  rw [List.countP_eq_zero]
  intro m hm
  simpa using h m hm

namespace Turn

/-- Nothing is on its way, and the entry does not wait for anything. -/
theorem of_still (h : c.Still r) (hl : ∀ l, c.lock = some l → l.state ≠ .pending) :
    c.Turn r n where
  one := by
    have := h.countP
    omega
  busy m hm hp := absurd hp (h m hm)
  pending l hl' hs := absurd hs (hl l hl')
  unlock m hm hu hr := absurd ⟨.inr hu, hr⟩ (h m hm)

/-- A daemon that does not decide about the lock has nothing on its way. -/
theorem still (h : c.Turn r n) (ha : ¬c.Acts n) : c.Still r := by
  intro m hm hp
  obtain ⟨l, hl, ⟨-, hn⟩ | hs⟩ := h.busy m hm hp
  · exact ha ⟨l, hl, .inl hn⟩
  · exact ha ⟨l, hl, .inr hs⟩

theorem acts (h : c.Turn r n) (hm : m ∈ c.sent) (hp : m.Passes r) : c.Acts n := by
  by_contra ha
  exact h.still ha m hm hp

/-- A FREE entry has nothing on its way. -/
theorem still_of_free (h : c.Turn r n) (hl : c.lock = some l) (hs : l.state = .free) :
    c.Still r := by
  intro m hm hp
  obtain ⟨l', hl', h'⟩ := h.busy m hm hp
  obtain rfl := Option.some.inj (hl.symm.trans hl')
  rcases h' with ⟨h', -⟩ | h' <;> exact absurd (hs.symm.trans h') (by decide)

theorem still_of_none (h : c.Turn r n) (hl : c.lock = none) : c.Still r := by
  intro m hm hp
  obtain ⟨l, hl', -⟩ := h.busy m hm hp
  exact absurd (hl.symm.trans hl') (by simp)

/-- Messages that pass nothing on come and go. -/
theorem sub (h : c.Turn r n) (hl : c'.lock = c.lock)
    (hs : ∀ m, m.Passes r → c'.sent.count m = c.sent.count m)
    (hone : c'.sent.countP (·.Passes r) = c.sent.countP (·.Passes r)) : c'.Turn r n := by
  have hmem : ∀ m, m.Passes r → (m ∈ c'.sent ↔ m ∈ c.sent) := by
    intro m hm
    rw [← List.count_pos_iff, ← List.count_pos_iff, hs m hm]
  refine ⟨by rw [hone]; exact h.one, fun m hm hp => ?_, fun l hl' hst => ?_, fun m hm hu hr => ?_⟩
  · rw [hl]
    exact h.busy m ((hmem m hp).1 hm) hp
  · obtain ⟨m, hm, hg⟩ := h.pending l (hl ▸ hl') hst
    exact ⟨m, (hmem m ⟨.inl hg.1, hg.2⟩).2 hm, hg⟩
  · rw [hl]
    exact h.unlock m ((hmem m ⟨.inr hu, hr⟩).1 hm) hu hr

theorem send (h : c.Turn r n) (hl : c'.lock = c.lock) (hs : c'.sent = c.sent ++ [m])
    (hm : ¬m.Passes r) : c'.Turn r n := by
  refine h.sub hl (fun m' hm' => ?_) ?_
  · have hne : m ≠ m' := fun he => hm (he ▸ hm')
    rw [hs, List.count_append, List.count_singleton, if_neg (by simpa using hne), Nat.add_zero]
  · rw [hs, List.countP_append, List.countP_singleton, if_neg (by simpa using hm), Nat.add_zero]

theorem same (h : c.Turn r n) (hl : c'.lock = c.lock) (hs : c'.sent = c.sent) : c'.Turn r n :=
  h.sub hl (fun _ _ => by rw [hs]) (by rw [hs])

/-- The lock is granted: its entry waits for the one GRANT. -/
theorem grant {q : RequestItem} (h : c.Still r) (hs : c'.sent = c.sent ++ [Daemon.grantMsg q])
    (hq : q.resource = r) (hl : c'.lock = some l)
    (hst : l.state = .held ∧ l.ownerNodeid = n ∨ l.state = .pending) : c'.Turn r n := by
  have hmem : ∀ m ∈ c'.sent, m.Passes r → m = Daemon.grantMsg q := by
    intro m hm hp
    rw [hs] at hm
    rcases List.mem_append.1 hm with hm | hm
    · exact absurd hp (h m hm)
    · exact List.mem_singleton.1 hm
  refine ⟨?_, fun m hm hp => ⟨l, hl, hst⟩, fun l' hl' _ => ?_, fun m hm hu hr => ?_⟩
  · have h0 := h.countP
    rw [hs, List.countP_append, h0, List.countP_singleton]
    split <;> omega
  · exact ⟨Daemon.grantMsg q, by rw [hs]; simp, rfl, hq⟩
  · obtain rfl := hmem m hm ⟨.inr hu, hr⟩
    cases hu

/-! ## Deliveries -/

/-- Before the delivery of `m` it may have been the message on its way. -/
theorem popped {own : Prop} [Decidable own]
    (h : Cell.Turn r n { c with sent := (if own ∧ m.concerns r then [m] else []) ++ c.sent })
    (hforeign : m.Passes r → ¬own → ¬c.Acts n) :
    (m.Passes r → c.Still r) ∧ (¬m.Passes r → c.Turn r n) := by
  refine ⟨fun hp g hg hgp => ?_, fun hp => ?_⟩
  · by_cases hown : own
    · have hc : m.concerns r = true := by simp [CpgLockMsg.concerns, hp.2]
      have hone := h.one
      simp only [hown, hc, and_self, if_true, List.singleton_append, List.countP_cons, hp,
        decide_true] at hone
      have : 0 < c.sent.countP (·.Passes r) := List.countP_pos_iff.2 ⟨g, hg, by simpa using hgp⟩
      omega
    · exact hforeign hp hown (h.acts (List.mem_append_right _ hg) hgp)
  · by_cases hown : own ∧ m.concerns r = true
    · rw [if_pos hown] at h
      refine h.sub rfl (fun m' hm' => ?_) ?_
      · have hne : m ≠ m' := fun he => hp (he ▸ hm')
        simp [hne]
      · simp [hp]
    · rw [if_neg hown] at h
      exact h

/-- A smooth delivery; `own`: the daemon sent the message. A daemon that has not joined knows no
lock. -/
theorem move {d : Daemon} {now : Nat} {own : Prop} [Decidable own]
    (hs : d.CellMove r now m c)
    (h : Cell.Turn r d.myNodeId { d.cell r with
      sent := (if own ∧ m.concerns r then [m] else []) ++ (d.cell r).sent })
    (hforeign : m.Passes r → ¬own → ¬(d.cell r).Acts d.myNodeId)
    (hj : d.joined = false → (d.cell r).lock = none) : c.Turn r d.myNodeId := by
  obtain ⟨hpass, hnot⟩ := h.popped hforeign
  have hlock : m.request = .lock → ¬m.Passes r := by
    rintro hm ⟨h | h, -⟩ <;> simp [hm] at h
  have hw : ∀ q ∈ (d.cell r).waiting, q.resource = r := fun q hq => Daemon.CellStep.mem_waiting hq
  cases hs with
  | same hsame =>
    by_cases hp : m.Passes r
    · refine of_still (hpass hp) fun l hl => ?_
      cases hjoin : d.joined with
      | false => exact absurd ((hj hjoin).symm.trans hl) (by simp)
      | true =>
        obtain ⟨-, hg, -, hu⟩ := hsame hjoin hp.2
        exact (hp.1.elim hg hu).elim
    · exact hnot hp
  | asks _ hm hr _ _ =>
    have ht := hnot (hlock hm)
    cases hl : (d.cell r).lock with
    | some l => exact ht.same hl.symm rfl
    | none =>
      refine of_still (c := { d.cell r with lock := some .blank, waiting := _ })
        (ht.still_of_none hl) fun l hl' => ?_
      obtain rfl := Option.some.inj hl'
      decide
  | refused _ hm hr hl _ _ _ =>
    exact (hnot (hlock hm)).send hl.symm rfl (by simp [CpgLockMsg.Passes])
  | @granted l q ws _ hm hr hown hq =>
    have ht := hnot (hlock hm)
    have hstill : (d.cell r).Still r := by
      rcases hown with ⟨hl, -, hfree⟩ | ⟨hl, -, -⟩
      · exact ht.still_of_free hl hfree
      · exact ht.still_of_none hl
    refine grant hstill rfl ?_ rfl (.inr rfl)
    rcases List.mem_append.1 hq.mem with hq | hq
    · exact hw q hq
    · rw [List.mem_singleton.1 hq]
      exact hr
  | taken _ hm hr hl =>
    refine of_still (hpass ⟨.inl hm, hr⟩) fun l' hl' => ?_
    obtain rfl := Option.some.inj hl'
    simp [Daemon.granted]
  | learnt _ hm hr _ _ =>
    refine of_still (hpass ⟨.inl hm, hr⟩) fun l' hl' => ?_
    obtain rfl := Option.some.inj hl'
    simp [Daemon.granted]
  | dropped _ hm hr =>
    refine (hnot ?_).same rfl rfl
    rintro ⟨h | h, -⟩ <;> simp [hm] at h
  | stale _ hm hr hno =>
    refine of_still (hpass ⟨.inr hm, hr⟩) fun l hl hst => ?_
    by_cases hown : own
    · -- an own UNLOCK would find the entry it was sent for
      have hc : m.concerns r = true := by simp [CpgLockMsg.concerns, hr]
      obtain ⟨l', hl', hheld, -⟩ := h.unlock m (by simp [hown, hc]) hm hr
      obtain rfl := Option.some.inj (hl.symm.trans hl')
      exact absurd (hst.symm.trans hheld) (by decide)
    · exact hforeign ⟨.inr hm, hr⟩ hown ⟨l, hl, .inr hst⟩
  | freed _ hm hr _ _ _ _ _ =>
    refine of_still (hpass ⟨.inr hm, hr⟩) fun l' hl' => ?_
    obtain rfl := Option.some.inj hl'
    simp
  | passed _ hm hr _ _ _ _ _ hq =>
    exact grant (hpass ⟨.inr hm, hr⟩) rfl (hw _ hq.mem) rfl (.inr rfl)

/-! ## Clients -/

/-- A client's message, if an UNLOCK finds an own HELD entry that is not being passed on. -/
theorem write {d : Daemon} (h : (d.cell r).Turn r d.myNodeId) (hs : d.CellWrite r m c)
    (hunlock : m.request = .unlock → ∀ l, (d.cell r).lock = some l → l.localId = m.lockid →
      l.state = .held ∧ l.ownerNodeid = d.myNodeId ∧ (d.cell r).Still r) : c.Turn r d.myNodeId := by
  cases hs with
  | same => exact h
  | asks hm _ => exact h.send rfl rfl (by simp [CpgLockMsg.Passes, hm])
  | @passed l q _ hm hl hid hq =>
    obtain ⟨hheld, hown, hstill⟩ := hunlock hm l hl hid
    exact grant hstill rfl (Daemon.CellStep.mem_waiting hq.mem) hl (.inl ⟨hheld, hown⟩)
  | @freed l u hm hl hid _ hu hr hn hp =>
    obtain ⟨hheld, hown, hstill⟩ := hunlock hm l hl hid
    have hmem : ∀ g ∈ ((d.cell r).send u).sent, g.Passes r → g = u := by
      intro g hg hgp
      rcases List.mem_append.1 hg with hg | hg
      · exact absurd hgp (hstill g hg)
      · exact List.mem_singleton.1 hg
    refine ⟨?_, fun g _ _ => ⟨l, hl, .inl ⟨hheld, hown⟩⟩, fun l' hl' hst => ?_, fun g hg hgu hgr => ?_⟩
    · have h0 := hstill.countP
      rw [Cell.send, List.countP_append, h0, List.countP_singleton]
      split <;> omega
    · obtain rfl := Option.some.inj (hl.symm.trans hl')
      exact absurd (hst.symm.trans hheld) (by decide)
    · obtain rfl := hmem g hg ⟨.inr hgu, hgr⟩
      exact ⟨l, hl, hheld, hown, hn.trans hown, hp⟩

end Turn

end Cell

end Cpglock
