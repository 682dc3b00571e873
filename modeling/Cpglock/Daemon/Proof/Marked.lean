import Cpglock.Daemon.Proof.Requests

/-!
# A marked request has its GRANT on the way

`grant_next` marks a request and multicasts its GRANT in one step, and the GRANT takes the request
off the queue. `Cell.Marked` is what this comes to: a cell without an entry is empty, the marked
requests stand before the pending ones, and there are no more marked requests of an identity than
GRANTs with it among the waiting messages. Every handler keeps it; when the daemon is delivered its
own GRANT, the message goes and so does a marked request, if there is one (`Marked.grant`).
-/

namespace Cpglock

/-- The requests with the identity `k` that have been marked. -/
def RequestItem.MarkedAs (k : RequestKey) (q : RequestItem) : Prop := q.key = k ∧ q.state = .held

/-- The message is the GRANT of `k`. -/
def CpgLockMsg.Grants (k : RequestKey) (m : CpgLockMsg) : Prop := m.request = .grant ∧ m.key = k

instance (k : RequestKey) (q : RequestItem) : Decidable (q.MarkedAs k) := by
  unfold RequestItem.MarkedAs
  infer_instance

instance (k : RequestKey) (m : CpgLockMsg) : Decidable (m.Grants k) := by
  unfold CpgLockMsg.Grants
  infer_instance

/-- Sent by handlers that have an entry for the resource. -/
def CpgLockMsg.OfEntry (m : CpgLockMsg) : Prop :=
  m.request = .grant ∨ m.request = .nak ∨ m.request = .unlock

namespace Cell

/-- `r` is the cell's resource. -/
structure Marked (r : Resource) (c : Cell) : Prop where
  entry : c.lock = none → c.waiting = [] ∧ ∀ m ∈ c.sent, ¬m.OfEntry
  mine : ∀ q ∈ c.waiting, q.resource = r ∧ q.state ≠ .free
  sorted : c.waiting.Pairwise fun a b => a.state = .held ∨ b.state = .pending
  count : ∀ k, c.waiting.countP (·.MarkedAs k) ≤ c.sent.countP (·.Grants k)

namespace Marked

variable {r : Resource} {c c' : Cell}

/-- Requests may go, messages may come. -/
theorem sub (h : c.Marked r) (c' : Cell) {l : List CpgLockMsg}
    (hl : c'.lock = none → c.lock = none ∧ ∀ m ∈ l, ¬m.OfEntry)
    (hw : List.Sublist c'.waiting c.waiting) (hs : c'.sent = c.sent ++ l) : c'.Marked r := by
  refine ⟨fun h0 => ⟨?_, fun m hm => ?_⟩, fun q hq => h.mine q (hw.subset hq), h.sorted.sublist hw,
    fun k => ?_⟩
  · have := (h.entry (hl h0).1).1
    rw [this] at hw
    exact List.sublist_nil.1 hw
  · rw [hs] at hm
    rcases List.mem_append.1 hm with hm | hm
    · exact (h.entry (hl h0).1).2 m hm
    · exact (hl h0).2 m hm
  · calc c'.waiting.countP (·.MarkedAs k) ≤ c.waiting.countP (·.MarkedAs k) := hw.countP_le
      _ ≤ c.sent.countP (·.Grants k) := h.count k
      _ ≤ c'.sent.countP (·.Grants k) := by
        rw [hs, List.countP_append]
        omega

theorem send (h : c.Marked r) {m : CpgLockMsg} (hm : c.lock ≠ none ∨ ¬m.OfEntry) :
    (c.send m).Marked r :=
  h.sub (c.send m) (l := [m]) (fun h0 => ⟨h0, by simpa using hm.resolve_left fun h => h h0⟩)
    (List.Sublist.refl _) rfl

theorem set (h : c.Marked r) (f : CpgLock → CpgLock) : (c.set f).Marked r :=
  h.sub (c.set f) (l := []) (fun h0 => ⟨Option.map_eq_none_iff.1 h0, by simp⟩)
    (List.Sublist.refl _) (List.append_nil _).symm

theorem setState (h : c.Marked r) (st : LockState) : (c.setState st).Marked r := h.set _

theorem purge (h : c.Marked r) (n p : UInt32) : (c.purge n p).Marked r :=
  h.sub (c.purge n p) (l := []) (fun h0 => ⟨h0, by simp⟩) List.filter_sublist
    (List.append_nil _).symm

theorem unlink (h : c.Marked r) (k : RequestKey) : (c.unlink k).Marked r :=
  h.sub (c.unlink k) (l := []) (fun h0 => ⟨h0, by simp⟩) List.eraseP_sublist
    (List.append_nil _).symm

/-- A request that comes is pending, at the end. -/
theorem enqueue (h : c.Marked r) {m : CpgLockMsg} (now : Nat) (hr : m.resource = r)
    (hl : (c.enqueue m now).lock ≠ none) : (c.enqueue m now).Marked r := by
  refine ⟨fun h0 => absurd h0 hl, fun q hq => ?_, ?_, fun k => ?_⟩
  · rcases List.mem_append.1 hq with hq | hq
    · exact h.mine q hq
    · rw [List.mem_singleton.1 hq]
      exact ⟨hr, by simp⟩
  · refine List.pairwise_append.2 ⟨h.sorted, by simp, fun a _ b hb => .inr ?_⟩
    rw [List.mem_singleton.1 hb]
  · have : (c.enqueue m now).waiting.countP (·.MarkedAs k) = c.waiting.countP (·.MarkedAs k) := by
      simp [Cell.enqueue, List.countP_append, RequestItem.MarkedAs]
    rw [this]
    exact h.count k

/-- The first entry for a resource. -/
theorem create (h : c.Marked r) {m : CpgLockMsg} (now : Nat)
    (hr : m.resource = r) :
    Cell.Marked r { c.enqueue m now with lock := some .blank } := by
  have hc : Cell.Marked r { c with lock := some .blank } :=
    h.sub { c with lock := some .blank } (l := []) (by simp) (List.Sublist.refl _)
      (List.append_nil _).symm
  exact hc.enqueue now hr (by simp [Cell.enqueue])

/-- The request that `grant_next` picks is marked, and its GRANT waits. -/
theorem grantNext (h : c.Marked r) (hl : c.lock ≠ none) (hc : c.grantNext r = some c') :
    c'.Marked r := by
  rcases grantNext_cases r c with ⟨hn, -⟩ | ⟨q, l₁, l₂, hw, hqr, hqs, hb, hs⟩
  · rw [hn] at hc
    cases hc
  · obtain rfl := Option.some.inj (hc.symm.trans hs)
    have hmine := h.mine
    have hsort := h.sorted
    have hcount := h.count
    simp only [hw] at hmine hsort hcount
    rw [List.pairwise_append, List.pairwise_cons] at hsort
    obtain ⟨h₁, ⟨hq₂, h₂⟩, h₁₂⟩ := hsort
    refine ⟨fun h0 => absurd h0 hl, fun x hx => ?_, ?_, fun k => ?_⟩
    · rcases List.mem_append.1 hx with hx | hx
      · exact hmine x (List.mem_append_left _ hx)
      · rcases List.mem_cons.1 hx with rfl | hx
        · exact ⟨hqr, by simp⟩
        · exact hmine x (List.mem_append_right _ (List.mem_cons_of_mem _ hx))
    · have hheld : ∀ x ∈ l₁, x.state = .held := by
        intro x hx
        have hx' := hmine x (List.mem_append_left _ hx)
        have hp := hb x hx hx'.1
        cases hst : x.state with
        | held => rfl
        | free => exact absurd hst hx'.2
        | pending => exact absurd hst hp
      exact List.pairwise_append.2 ⟨h₁, List.pairwise_cons.2 ⟨fun _ _ => .inl rfl, h₂⟩,
        fun a ha _ _ => .inl (hheld a ha)⟩
    · have hk := hcount k
      have hgk : (Daemon.grantMsg q).Grants k ↔ q.key = k := by simp [CpgLockMsg.Grants]
      have hmk : ({ q with state := .held } : RequestItem).MarkedAs k ↔ q.key = k := by
        simp [RequestItem.MarkedAs, RequestItem.key]
      simp only [List.countP_append, List.countP_cons, List.countP_nil, hgk, hmk] at hk ⊢
      omega

theorem grantNextElse (h : c.Marked r) (hl : c.lock ≠ none) {k : Cell → Cell}
    (hk : (k c).Marked r) : (c.grantNextElse r k).Marked r :=
  grantNextElse_induction (fun _ hc => h.grantNext hl hc) fun _ => hk

theorem grantNextOrUnlock (h : c.Marked r) (hl : c.lock ≠ none) (m : CpgLockMsg) :
    (c.grantNextOrUnlock r m).Marked r :=
  h.grantNextElse hl (h.send (.inl hl))

/-! ## Clients and departed nodes -/

theorem recoverClient (h : c.Marked r) (me pid : UInt32) : (c.recoverClient r me pid).Marked r := by
  have hc := (h.purge me pid).send
    (m := { CpgLockMsg.blank .purge with ownerNodeid := me, ownerPid := pid })
    (.inr (by simp [CpgLockMsg.blank, CpgLockMsg.OfEntry]))
  unfold Cell.recoverClient
  dsimp only
  split
  · next l hl =>
    have hl : c.lock = some l := hl
    split
    · exact (hc.setState .free).grantNextOrUnlock (by simp [hl]) _
    · exact hc
  · exact hc

theorem delNode (h : c.Marked r) (me myPid nodeid : UInt32) (o : MemberItem) :
    (c.delNode r me myPid o nodeid).Marked r := by
  unfold Cell.delNode
  split
  · unfold Cell.reassign
    split
    · split
      · exact h.set _
      · exact h
    · exact h
  · have hc := (h.purge nodeid 0).send
      (m := { CpgLockMsg.blank .purge with ownerNodeid := nodeid, ownerPid := 0 })
      (.inr (by simp [CpgLockMsg.blank, CpgLockMsg.OfEntry]))
    unfold Cell.recoverNode
    dsimp only
    split
    · next l hl =>
      have hl : c.lock = some l := hl
      split
      · exact (hc.setState .free).grantNextElse (by simp [hl])
          (((hc.setState .free).set _).send (.inl (by simp [hl])))
      · split
        · exact hc.grantNextElse (by simp [hl]) (hc.set _)
        · exact hc
    · exact hc

/-! ## Deliveries -/

theorem grantFree (h : c.Marked r) (hl : c.lock ≠ none) : (c.grantFree r).Marked r :=
  (h.setState .pending).grantNextElse (by simpa using hl) ((h.setState .pending).setState .free)

theorem regrantNonMember (h : c.Marked r) (hl : c.lock ≠ none) (b : Bool) (m : CpgLockMsg) :
    (c.regrantNonMember r b m).Marked r := by
  unfold Cell.regrantNonMember
  split
  · exact (h.setState .free).grantNextOrUnlock (by simpa using hl) m
  · exact h

theorem processLock (h : c.Marked r) (me : UInt32) (head : Bool) {m : CpgLockMsg} (now : Nat)
    (hr : m.resource = r) : (c.processLock r me head m now).Marked r := by
  unfold Cell.processLock
  dsimp only
  split
  · next l hl =>
    have hne : (c.enqueue m now).lock ≠ none := by rw [hl]; simp
    have he := h.enqueue now hr hne
    split
    · split
      · exact he.grantFree hne
      · split
        · exact he.send (.inl hne)
        · exact he
    · exact he
  · next hl =>
    have he := h.create now hr
    split
    · exact he.grantFree (by simp)
    · exact he

/-- Of the requests with one identity the first is marked if any is. -/
theorem countP_eraseP {l : List RequestItem} (k : RequestKey)
    (hs : l.Pairwise fun a b => a.state = .held ∨ b.state = .pending) :
    (l.eraseP fun q => q.key = k).countP (·.MarkedAs k) = l.countP (·.MarkedAs k) - 1 := by
  induction l with
  | nil => rfl
  | cons q l ih =>
    obtain ⟨hq, hl⟩ := List.pairwise_cons.1 hs
    by_cases hk : q.key = k
    · rw [List.eraseP_cons_of_pos (by simpa using hk), List.countP_cons]
      by_cases hst : q.state = .held
      · rw [if_pos (by simp [RequestItem.MarkedAs, hk, hst])]
        rfl
      · have h0 : l.countP (·.MarkedAs k) = 0 := by
          rw [List.countP_eq_zero]
          intro x hx hm
          have hx' := (hq x hx).resolve_left hst
          simp [RequestItem.MarkedAs, hx'] at hm
        rw [h0, if_neg (by simp [RequestItem.MarkedAs, hst])]
    · have hm : ¬q.MarkedAs k := fun h => hk h.1
      rw [List.eraseP_cons_of_neg (by simpa using hk), List.countP_cons, List.countP_cons,
        if_neg (by simpa using hm), Nat.add_zero, Nat.add_zero, ih hl]

/-- The GRANT of `k` is gone, and so is a marked request. -/
theorem unlink_own {m : CpgLockMsg} (h : Cell.Marked r { c with sent := m :: c.sent })
    (hl : c.lock ≠ none) (hm : m.request = .grant) (f : CpgLock → CpgLock) :
    ((c.set f).unlink m.key).Marked r := by
  refine ⟨fun h0 => absurd h0 (by simpa using hl), fun q hq => h.mine q (List.mem_of_mem_eraseP hq),
    h.sorted.sublist List.eraseP_sublist, fun k => ?_⟩
  have hk : c.waiting.countP (·.MarkedAs k) ≤ (m :: c.sent).countP (·.Grants k) := h.count k
  rw [List.countP_cons] at hk
  change (c.waiting.eraseP fun q => q.key = m.key).countP (·.MarkedAs k) ≤
    c.sent.countP (·.Grants k)
  by_cases hmk : m.key = k
  · subst hmk
    have hs : c.waiting.Pairwise fun a b => a.state = .held ∨ b.state = .pending := h.sorted
    rw [countP_eraseP _ hs]
    rw [if_pos (by simp [CpgLockMsg.Grants, hm])] at hk
    omega
  · rw [if_neg (by simp [CpgLockMsg.Grants, hmk]), Nat.add_zero] at hk
    exact List.eraseP_sublist.countP_le.trans hk

theorem processGrant {me : UInt32} {lost connected : Bool} {id : UInt64} {m : CpgLockMsg}
    (hnone : c.lock = none → c.waiting = [])
    (hun : c.lock ≠ none → ∀ f, ((c.set f).unlink m.key).Marked r) (hp : m.ownerPid ≠ 0)
    (hn : m.ownerNodeid ≠ 0) : (c.processGrant r me lost connected id m).Marked r := by
  unfold Cell.processGrant
  split
  · next l hl =>
    have hne : c.lock ≠ none := by simp [hl]
    have hu := hun hne (Daemon.granted m)
    rw [if_neg fun h => h.2.elim hp hn]
    dsimp only
    split
    · split
      · exact (hu.set _).regrantNonMember (by simp [hl]) _ _
      · exact ((hu.set _).purge _ _).grantNextOrUnlock (by simp [hl]) _
    · exact hu.regrantNonMember (by simp [hl]) _ _
  · next hl =>
    have hw := hnone hl
    exact ⟨by simp, by simp [hw], by simp [hw], by simp [hw]⟩

theorem processNak (h : c.Marked r) (me : UInt32) (connected : Bool) (m : CpgLockMsg) :
    (c.processNak me connected m).Marked r := by
  unfold Cell.processNak
  split
  · dsimp only
    split
    · exact (h.unlink _).purge _ _
    · exact h.unlink _
  · exact h

theorem processUnlock (h : c.Marked r) (me : UInt32) (m : CpgLockMsg) :
    (c.processUnlock r me m).Marked r := by
  unfold Cell.processUnlock
  split
  · next l hl =>
    split
    · dsimp only
      split
      · cases hg : (c.setState .free).grantNext r with
        | none => exact h.setState .free
        | some c' => exact ((h.setState .free).grantNext (by simp [hl]) hg).setState .pending
      · exact h.setState .free
    · exact h
  · exact h

/-- A delivered message, in the daemon's own name (`own`) or not. -/
theorem step {d : Daemon} {now : Nat} {m : CpgLockMsg} {own : Prop} [Decidable own]
    (h : Cell.Marked r { d.cell r with
      sent := (if own ∧ m.concerns r then [m] else []) ++ (d.cell r).sent })
    (hreal : m.request = .grant → m.ownerPid ≠ 0 ∧ m.ownerNodeid ≠ 0)
    (hj : d.joined = false → (d.cell r).lock = none) (hs : d.CellStep r now m c) :
    c.Marked r := by
  -- unless an own GRANT for `r` has gone, the cell is as before
  have hother : ¬(own ∧ m.request = .grant ∧ m.resource = r) → (d.cell r).Marked r := by
    intro hno
    refine ⟨fun h0 => ?_, h.mine, h.sorted, fun k => ?_⟩
    · obtain ⟨hw, hg⟩ := h.entry h0
      exact ⟨hw, fun x hx => hg x (List.mem_append_right _ hx)⟩
    · refine (h.count k).trans_eq ?_
      change List.countP _ (_ ++ _) = _
      rw [List.countP_append]
      split
      · next ho =>
        have : ¬m.Grants k := by
          rintro ⟨hg, -⟩
          refine hno ⟨ho.1, hg, ?_⟩
          simpa [CpgLockMsg.concerns, hg] using ho.2
        rw [List.countP_cons_of_neg (by simpa using this), List.countP_nil, Nat.zero_add]
      · rw [List.countP_nil, Nat.zero_add]
  cases hs with
  | lock _ hm hr => exact (hother (by simp [hm])).processLock _ _ _ hr
  | grant _ hm hr =>
    obtain ⟨hp, hn⟩ := hreal hm
    refine processGrant (fun h0 => (h.entry h0).1) (fun hne f => ?_) hp hn
    by_cases ho : own
    · have hc : m.concerns r = true := by simp [CpgLockMsg.concerns, hr]
      simp only [ho, hc, and_self, if_true] at h
      exact h.unlink_own hne hm f
    · exact ((hother fun h => ho h.1).set f).unlink _
  | nak _ hm _ => exact (hother (by simp [hm])).processNak _ _ _
  | unlock _ hm _ => exact (hother (by simp [hm])).processUnlock _ _
  | purge hm => exact (hother (by simp [hm])).purge _ _
  | gone _ hr _ _ => exact (hother (by simp [hr])).purge _ _
  | same hp hno =>
    by_cases ho : own ∧ m.request = .grant ∧ m.resource = r
    · -- a daemon that has not joined has nothing
      have hj' : d.joined = false := by
        cases hjd : d.joined with
        | false => rfl
        | true => exact absurd ho.2.1 (hno hjd ho.2.2).2.1
      have hl := hj hj'
      obtain ⟨hw, hg⟩ := h.entry hl
      exact ⟨fun _ => ⟨hw, fun x hx => hg x (List.mem_append_right _ hx)⟩, h.mine, h.sorted,
        by simp [show (d.cell r).waiting = [] from hw]⟩
    · exact hother ho

end Marked

end Cell

end Cpglock
