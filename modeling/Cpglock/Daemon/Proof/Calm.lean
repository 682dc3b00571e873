import Cpglock.Daemon.Proof.Claims

/-!
# The handlers while nobody leaves or disconnects

Then a GRANT makes its request the holder and takes it off the queue, and nothing else
(`processGrant_calm`). The owner of a FREE entry has no pending request (`Cell.Idle`), and answers
every LOCK that asks to try (`tries_processLock`). `c.stamps`: when each request was queued.
-/

namespace Cpglock

/-- The message is the GRANT or the NAK of request `k`. -/
def CpgLockMsg.Closes (k : RequestKey) (m : CpgLockMsg) : Prop :=
  (m.request = .grant ∨ m.request = .nak) ∧ m.key = k

instance CpgLockMsg.decidableCloses (k : RequestKey) (m : CpgLockMsg) : Decidable (m.Closes k) := by
  unfold CpgLockMsg.Closes
  infer_instance

namespace Cell

variable {r : Resource} {c c' : Cell} {me : UInt32} {m : CpgLockMsg} {l : CpgLock}

/-! ## GRANTs -/

/-- A GRANT for a known lock, to a member, of a process that is connected if it is here. -/
theorem processGrant_calm {connected : Bool} {id : UInt64} (hl : c.lock = some l)
    (hp : m.ownerPid ≠ 0) (hn : m.ownerNodeid ≠ 0)
    (hc : m.ownerNodeid = me → connected = true) :
    c.processGrant r me false connected id m =
      { c with
        lock := some { Daemon.granted m l with
          localId := if m.ownerNodeid = me then id else l.localId }
        waiting := c.waiting.eraseP fun q => q.key = m.key } := by
  unfold processGrant
  simp only [hl]
  rw [if_neg fun h => h.2.elim hp hn]
  by_cases hme : m.ownerNodeid = me
  · simp [hme, hc hme, regrantNonMember, set, unlink, hl]
  · simp [hme, regrantNonMember, set, unlink, hl, Daemon.granted]

theorem processNak_calm {connected : Bool} (hc : m.ownerNodeid = me → connected = true) :
    c.processNak me connected m =
      { c with waiting := c.waiting.eraseP fun q => q.key = m.key } := by
  unfold processNak
  split
  · have hno : ¬(m.ownerNodeid = me ∧ (!connected) = true) := by
      rintro ⟨hme, h⟩
      rw [hc hme] at h
      cases h
    simp only [hno, if_false]
    rfl
  · next h =>
    have herase : c.waiting.eraseP (fun q => q.key = m.key) = c.waiting := by
      rw [List.eraseP_of_forall_not]
      intro q hq hk
      exact h (List.any_eq_true.2 ⟨q, hq, hk⟩)
    rw [herase]

/-! ## When requests were queued -/

/-- The time and the identity of every request that waits. -/
def stamps (c : Cell) : List (Nat × RequestKey) := c.waiting.map fun q => (q.reqTime, q.key)

theorem stamps_unlink (c : Cell) (k : RequestKey) :
    (c.waiting.eraseP fun q => q.key = k).map (fun q => (q.reqTime, q.key)) =
      c.stamps.eraseP fun p => p.2 = k := by
  rw [stamps, List.eraseP_map]
  rfl

theorem stamps_enqueue (c : Cell) (m : CpgLockMsg) (now : Nat) :
    (c.enqueue m now).stamps = c.stamps ++ [(now, m.key)] := by
  simp [stamps, enqueue, RequestItem.key, CpgLockMsg.key]

/-- Marking a request keeps its time. -/
theorem stamps_grantNext (h : c.grantNext r = some c') : c'.stamps = c.stamps := by
  rcases grantNext_cases r c with ⟨hn, -⟩ | ⟨q, l₁, l₂, hw, -, -, -, heq⟩
  · rw [hn] at h
    cases h
  · obtain rfl := Option.some.inj (heq.symm.trans h)
    rw [stamps, stamps, hw]
    simp [RequestItem.key]

theorem stamps_grantNextElse {k : Cell → Cell} (hk : (k c).stamps = c.stamps) :
    (c.grantNextElse r k).stamps = c.stamps :=
  grantNextElse_induction (I := fun c' => c'.stamps = c.stamps) (fun _ h => stamps_grantNext h)
    fun _ => hk

theorem stamps_grantFree (c : Cell) : (c.grantFree r).stamps = c.stamps :=
  stamps_grantNextElse (c := c.setState .pending) rfl

theorem stamps_processLock (c : Cell) (me : UInt32) (b : Bool) (m : CpgLockMsg) (now : Nat) :
    (c.processLock r me b m now).stamps = c.stamps ++ [(now, m.key)] := by
  rw [← stamps_enqueue c m now]
  unfold processLock
  dsimp only
  split
  · split
    · split
      · exact stamps_grantFree _
      · split
        · rfl
        · rfl
    · rfl
  · split
    · exact stamps_grantFree { c.enqueue m now with lock := some .blank }
    · rfl

theorem stamps_processUnlock (c : Cell) (me : UInt32) (m : CpgLockMsg) :
    (c.processUnlock r me m).stamps = c.stamps := by
  unfold processUnlock
  split
  · split
    · dsimp only
      split
      · cases h : (c.setState .free).grantNext r with
        | none => rfl
        | some c' => exact (stamps_grantNext h : c'.stamps = _)
      · rfl
    · rfl
  · rfl

/-! ## FREE entries -/

/-- Nobody waits for a FREE entry of the daemon's own to be granted. -/
def Idle (me : UInt32) (c : Cell) : Prop :=
  ∀ l, c.lock = some l → l.ownerNodeid = me → l.state = .free → ∀ q ∈ c.waiting, q.state ≠ .pending

namespace Idle

/-- Requests may go and be marked. -/
theorem sub (h : c.Idle me) (hl : c'.lock = c.lock)
    (hw : ∀ q ∈ c'.waiting, q.state = .pending → q ∈ c.waiting) : c'.Idle me := by
  intro l hl' hn hf q hq hs
  exact h l (hl ▸ hl') hn hf q (hw q hq hs) hs

theorem of_state (hl : c.lock = some l) (hs : l.state ≠ .free) : c.Idle me := by
  intro l' hl' _ hf
  obtain rfl := Option.some.inj (hl.symm.trans hl')
  exact absurd hf hs

theorem of_owner (hl : c.lock = some l) (hn : l.ownerNodeid ≠ me) : c.Idle me := by
  intro l' hl' hn' _
  obtain rfl := Option.some.inj (hl.symm.trans hl')
  exact absurd hn' hn

theorem grantNext (h : c.Idle me) (hc : c.grantNext r = some c') : c'.Idle me := by
  rcases grantNext_cases r c with ⟨hn, -⟩ | ⟨q, l₁, l₂, hw, -, -, -, heq⟩
  · rw [hn] at hc
    cases hc
  · obtain rfl := Option.some.inj (heq.symm.trans hc)
    refine h.sub rfl fun q' hq' hs => ?_
    rw [hw]
    rcases List.mem_append.1 hq' with hq' | hq'
    · exact List.mem_append_left _ hq'
    · rcases List.mem_cons.1 hq' with rfl | hq'
      · cases hs
      · exact List.mem_append_right _ (List.mem_cons_of_mem _ hq')

theorem grantNextOrUnlock (h : c.Idle me) (m : CpgLockMsg) : (c.grantNextOrUnlock r m).Idle me :=
  grantNextElse_induction (I := fun c' => c'.Idle me) (fun _ hc => h.grantNext hc) fun _ => h

/-- The owner of a FREE entry grants what it can. -/
theorem grantFree (hr : ∀ q ∈ c.waiting, q.resource = r) : (c.grantFree r).Idle me := by
  unfold Cell.grantFree grantNextElse
  rcases grantNext_cases r (c.setState .pending) with ⟨hn, hw⟩ | ⟨q, l₁, l₂, -, -, -, -, heq⟩
  · rw [hn, Option.getD_none]
    intro l _ _ _ q hq
    exact hw q hq (hr q hq)
  · rw [heq, Option.getD_some]
    intro l hl _ hf
    obtain ⟨l₀, -, rfl⟩ := Option.map_eq_some_iff.1 hl
    cases hf

theorem processLock (h : c.Idle me) (hme : me ≠ 0) {b : Bool} {now : Nat} (hr : m.resource = r)
    (hw : ∀ q ∈ c.waiting, q.resource = r) : (c.processLock r me b m now).Idle me := by
  have hw' : ∀ q ∈ (c.enqueue m now).waiting, q.resource = r := by
    intro q hq
    rcases List.mem_append.1 hq with hq | hq
    · exact hw q hq
    · rw [List.mem_singleton.1 hq]
      exact hr
  unfold Cell.processLock
  dsimp only
  split
  · next l hl =>
    split
    · split
      · exact grantFree hw'
      · next hs =>
        split
        · exact of_state hl hs
        · exact of_state hl hs
    · next hn => exact of_owner hl hn
  · split
    · exact grantFree hw'
    · exact of_owner rfl (fun h0 => hme h0.symm)

theorem processUnlock (h : c.Idle me) (hw : ∀ q ∈ c.waiting, q.resource = r) :
    (c.processUnlock r me m).Idle me := by
  unfold Cell.processUnlock
  split
  · next l hl =>
    split
    · dsimp only
      split
      · rcases grantNext_cases r (c.setState .free) with ⟨hn, hw'⟩ | ⟨q, l₁, l₂, -, -, -, -, heq⟩
        · rw [hn, Option.elim_none]
          intro l _ _ _ q hq
          exact hw' q hq (hw q hq)
        · rw [heq, Option.elim_some]
          intro l hl _ hf
          obtain ⟨l₀, -, rfl⟩ := Option.map_eq_some_iff.1 hl
          cases hf
      · next hn =>
        refine of_owner (l := { l with state := .free }) ?_ hn
        simp [hl]
    · exact h
  · exact h

end Idle

/-! ## LOCKs that ask to try -/

theorem pickPending_append {ws l : List RequestItem} (h : ∀ q ∈ ws, q.state ≠ .pending) :
    Daemon.pickPending r (ws ++ l) =
      (Daemon.pickPending r l).map fun p => (p.1, ws ++ p.2) := by
  induction ws with
  | nil => simp
  | cons q ws ih =>
    have hq : ¬(r = q.resource ∧ q.state = .pending) := fun hp => h q List.mem_cons_self hp.2
    rw [List.cons_append, Daemon.pickPending, if_neg hq,
      ih fun q' hq' => h q' (List.mem_cons_of_mem _ hq'), Option.map_map]
    rfl

/-- What `grant_next` does when requests that are not pending come first. -/
theorem grantNext_append {q : RequestItem} {ws l : List RequestItem} (hw : c.waiting = ws ++ q :: l)
    (hws : ∀ q' ∈ ws, q'.state ≠ .pending) (hr : q.resource = r) (hs : q.state = .pending) :
    c.grantNext r = some { c with
      waiting := ws ++ { q with state := .held } :: l
      sent := c.sent ++ [Daemon.grantMsg q] } := by
  rw [grantNext, hw, pickPending_append hws, Daemon.pickPending, if_pos ⟨hr.symm, hs⟩]
  rfl

/-- The daemon that acts for the lock answers a LOCK that asks to try. -/
theorem tries_processLock {head : Bool} {now : Nat} (h : c.Idle me)
    (hno : c.lock = none → c.waiting = []) (hr : m.resource = r) (ht : m.isTry = true)
    (hact : (∃ l, c.lock = some l ∧ l.ownerNodeid = me) ∨ c.lock = none ∧ head = true) :
    ∃ g ∈ (c.processLock r me head m now).sent, g.Closes m.key := by
  -- if nobody else is pending, `grant_next` picks the new request
  have hpick : ∀ c' : Cell, c'.waiting = (c.enqueue m now).waiting →
      (∀ q ∈ c.waiting, q.state ≠ .pending) →
      ∃ g ∈ (c'.grantFree r).sent, g.Closes m.key := by
    intro c' hw hidle
    have hg := grantNext_append (c := c'.setState .pending) hw hidle hr rfl
    rw [Cell.grantFree, grantNextElse, hg, Option.getD_some]
    exact ⟨_, List.mem_append_right _ (List.mem_singleton_self _), .inl rfl, rfl⟩
  unfold processLock
  dsimp only
  rcases hact with ⟨l, hl, hn⟩ | ⟨hl, rfl⟩
  · simp only [enqueue_lock, hl, hn, if_true]
    split
    · next hf => exact hpick _ rfl (h l hl hn hf)
    · exact ⟨_, List.mem_append_right _ (List.mem_singleton_self _), .inr rfl, rfl⟩
  · simp only [enqueue_lock, hl, if_true]
    exact hpick _ rfl (by simp [hno hl])

end Cell

/-! ## Deliveries -/

/-- What a message says about who waits for `r`, and since when. -/
def CpgLockMsg.restamp (r : Resource) (now : Nat) (m : CpgLockMsg) (st : List (Nat × RequestKey)) :
    List (Nat × RequestKey) :=
  if m.resource = r then
    match m.request with
    | .lock => st ++ [(now, m.key)]
    | .grant => st.eraseP fun p => p.2 = m.key
    | .nak => st.eraseP fun p => p.2 = m.key
    | _ => st
  else st

namespace Daemon

/-- A message whose delivery is calm: the daemon has joined and knows the lock, a GRANT names a member,
and processes of the daemon's node that are answered are connected. -/
structure Calm (d : Daemon) (m : CpgLockMsg) : Prop where
  joined : m.request = .lock ∨ m.OfEntry → d.joined = true
  entry : m.request = .grant → d.locks.get m.resource ≠ none
  real : m.request = .grant → m.ownerPid ≠ 0 ∧ m.ownerNodeid ≠ 0
  member : m.request = .grant → d.lost m.ownerNodeid = false
  connected : m.request = .grant ∨ m.request = .nak → m.ownerNodeid = d.myNodeId →
    d.connected m.ownerPid = true

namespace CellStep

variable {d : Daemon} {r : Resource} {now : Nat} {m : CpgLockMsg} {c : Cell}

theorem mem_waiting {q : RequestItem} (h : q ∈ (d.cell r).waiting) : q.resource = r := by
  simpa using (List.mem_filter.1 h).2

/-- A GRANT, as `Cell.processGrant_calm` says. -/
theorem grant_calm (hc : d.Calm m) (hm : m.request = .grant) (hr : m.resource = r) :
    ∃ l, (d.cell r).lock = some l ∧ (d.cell r).processGrant r d.myNodeId (d.lost m.ownerNodeid)
        (d.connected m.ownerPid) (d.localLockid + 1) m =
      { d.cell r with
        lock := some { granted m l with
          localId := if m.ownerNodeid = d.myNodeId then d.localLockid + 1 else l.localId }
        waiting := (d.cell r).waiting.eraseP fun q => q.key = m.key } := by
  obtain ⟨l, hl⟩ := Option.ne_none_iff_exists'.1 (hc.entry hm)
  rw [hr] at hl
  refine ⟨l, hl, ?_⟩
  rw [hc.member hm]
  exact Cell.processGrant_calm hl (hc.real hm).1 (hc.real hm).2 (hc.connected (.inl hm))

theorem stamps (h : d.CellStep r now m c) (hc : d.Calm m) :
    c.stamps.Sublist (m.restamp r now (d.cell r).stamps) := by
  unfold CpgLockMsg.restamp
  cases h with
  | lock hj hm hr =>
    rw [if_pos hr, hm, Cell.stamps_processLock]
  | grant hj hm hr =>
    obtain ⟨l, -, heq⟩ := grant_calm hc hm hr
    rw [if_pos hr, hm, heq]
    simp only [Cell.stamps]
    rw [Cell.stamps_unlink]
    exact .refl _
  | nak hj hm hr =>
    rw [if_pos hr, hm, Cell.processNak_calm (hc.connected (.inr hm))]
    simp only [Cell.stamps]
    rw [Cell.stamps_unlink]
    exact .refl _
  | unlock hj hm hr => rw [if_pos hr, hm, Cell.stamps_processUnlock]
  | purge hm =>
    have hsub : ((d.cell r).purge m.ownerNodeid m.ownerPid).stamps.Sublist (d.cell r).stamps :=
      List.filter_sublist.map _
    split
    · rwa [hm]
    · exact hsub
  | gone hm hr hme hno => exact absurd (hc.connected hm hme) (by simp [hno])
  | same hp hs =>
    split
    · next hr =>
      split
      · next hm => exact absurd hm (hs (hc.joined (.inl hm)) hr).1
      · next hm => exact absurd hm (hs (hc.joined (.inr (.inl hm))) hr).2.1
      · next hm => exact absurd hm (hs (hc.joined (.inr (.inr (.inl hm)))) hr).2.2.1
      · exact .refl _
    · exact .refl _

theorem idle (h : d.CellStep r now m c) (hc : d.Calm m) (hme : d.myNodeId ≠ 0)
    (hi : (d.cell r).Idle d.myNodeId) : c.Idle d.myNodeId := by
  cases h with
  | lock _ _ hr => exact hi.processLock hme hr fun q hq => mem_waiting hq
  | grant _ hm hr =>
    obtain ⟨l, -, heq⟩ := grant_calm hc hm hr
    rw [heq]
    exact .of_state rfl (by simp [granted])
  | nak _ hm hr =>
    rw [Cell.processNak_calm (hc.connected (.inr hm))]
    exact hi.sub rfl fun q hq _ => List.mem_of_mem_eraseP hq
  | unlock => exact hi.processUnlock fun q hq => mem_waiting hq
  | purge => exact hi.sub rfl fun q hq _ => (List.mem_filter.1 hq).1
  | gone => exact hi.sub rfl fun q hq _ => (List.mem_filter.1 hq).1
  | same => exact hi

end CellStep

end Daemon

end Cpglock
