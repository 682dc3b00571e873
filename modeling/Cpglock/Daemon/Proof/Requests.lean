import Cpglock.Daemon.Proof.Cell

/-!
# Where GRANTs come from

`grant_next` takes the first pending request of the queue (`pickPending_some`), marks it and sends
its GRANT. So a property of identities that every LOCK has, every queued request and every GRANT
has (`Cell.All`, kept by every handler).
-/

namespace Cpglock

/-! ## `grant_next` -/

/-- The request that is picked, between those before it, none of which could be, and the rest. -/
theorem Daemon.pickPending_some {r : Resource} {l : List RequestItem}
    {p : RequestItem × List RequestItem} (h : pickPending r l = some p) :
    ∃ l₁ l₂, l = l₁ ++ p.1 :: l₂ ∧ p.2 = l₁ ++ { p.1 with state := .held } :: l₂ ∧
      p.1.resource = r ∧ p.1.state = .pending ∧ ∀ q ∈ l₁, q.resource = r → q.state ≠ .pending := by
  induction l generalizing p with
  | nil => cases h
  | cons q l ih =>
    simp only [pickPending] at h
    split at h
    · next hq =>
      obtain rfl := Option.some.inj h
      exact ⟨[], l, rfl, rfl, hq.1.symm, hq.2, by simp⟩
    · next hq =>
      obtain ⟨p', hp', rfl⟩ := Option.map_eq_some_iff.1 h
      obtain ⟨l₁, l₂, rfl, hw, hr, hs, hb⟩ := ih hp'
      refine ⟨q :: l₁, l₂, rfl, by rw [hw]; rfl, hr, hs, fun x hx hxr hxs => ?_⟩
      rcases List.mem_cons.1 hx with rfl | hx
      · exact hq ⟨hxr.symm, hxs⟩
      · exact hb x hx hxr hxs

theorem Daemon.pickPending_none {r : Resource} {l : List RequestItem} (h : pickPending r l = none) :
    ∀ q ∈ l, q.resource = r → q.state ≠ .pending := by
  induction l with
  | nil => simp
  | cons q l ih =>
    simp only [pickPending] at h
    split at h
    · cases h
    · next hq =>
      intro x hx hxr hxs
      rcases List.mem_cons.1 hx with rfl | hx
      · exact hq ⟨hxr.symm, hxs⟩
      · exact ih (Option.map_eq_none_iff.1 h) x hx hxr hxs

@[simp] theorem Daemon.grantMsg_key (q : RequestItem) : (grantMsg q).key = q.key := rfl

@[simp] theorem Daemon.grantMsg_request (q : RequestItem) : (grantMsg q).request = .grant := rfl

namespace Cell

variable {r : Resource} {c : Cell}

/-- `grant_next` on a cell, either way. -/
theorem grantNext_cases (r : Resource) (c : Cell) :
    (c.grantNext r = none ∧ ∀ q ∈ c.waiting, q.resource = r → q.state ≠ .pending) ∨
    ∃ q l₁ l₂, c.waiting = l₁ ++ q :: l₂ ∧ q.resource = r ∧ q.state = .pending ∧
      (∀ x ∈ l₁, x.resource = r → x.state ≠ .pending) ∧
      c.grantNext r = some { c with
        waiting := l₁ ++ { q with state := .held } :: l₂
        sent := c.sent ++ [Daemon.grantMsg q] } := by
  unfold grantNext
  cases h : Daemon.pickPending r c.waiting with
  | none => exact .inl ⟨rfl, Daemon.pickPending_none h⟩
  | some p =>
    obtain ⟨l₁, l₂, hl, hw, hr, hs, hb⟩ := Daemon.pickPending_some h
    exact .inr ⟨p.1, l₁, l₂, hl, hr, hs, hb, by rw [Option.map_some, hw]⟩

/-- `grant_next` leaves the entry alone. -/
theorem grantNext_lock {c' : Cell} (h : c.grantNext r = some c') : c'.lock = c.lock := by
  obtain ⟨p, -, rfl⟩ := Option.map_eq_some_iff.1 h
  rfl

/-- What both outcomes of `grant_next` have, `grantNextElse` has. -/
theorem grantNextElse_induction {I : Cell → Prop} {k : Cell → Cell}
    (hsome : ∀ c', c.grantNext r = some c' → I c') (hnone : c.grantNext r = none → I (k c)) :
    I (c.grantNextElse r k) := by
  unfold grantNextElse
  cases h : c.grantNext r with
  | none => exact hnone h
  | some c' => exact hsome c' h

@[simp] theorem send_lock (c : Cell) (m : CpgLockMsg) : (c.send m).lock = c.lock := rfl

@[simp] theorem purge_lock (c : Cell) (n p : UInt32) : (c.purge n p).lock = c.lock := rfl

@[simp] theorem unlink_lock (c : Cell) (k : RequestKey) : (c.unlink k).lock = c.lock := rfl

@[simp] theorem enqueue_lock (c : Cell) (m : CpgLockMsg) (now : Nat) :
    (c.enqueue m now).lock = c.lock := rfl

@[simp] theorem set_lock (c : Cell) (f : CpgLock → CpgLock) : (c.set f).lock = c.lock.map f := rfl

@[simp] theorem setState_lock (c : Cell) (st : LockState) :
    (c.setState st).lock = c.lock.map fun l => { l with state := st } := rfl

theorem grantNextOrUnlock_lock (c : Cell) (m : CpgLockMsg) :
    (c.grantNextOrUnlock r m).lock = c.lock :=
  grantNextElse_induction (I := fun c' => c'.lock = c.lock) (fun _ h => grantNext_lock h)
    fun _ => rfl

/-! ## A property of identities -/

/-- Every queued request has an identity with `p`, and so has every LOCK, GRANT and NAK sent. -/
structure All (p : RequestKey → Prop) (c : Cell) : Prop where
  waiting : ∀ q ∈ c.waiting, p q.key
  sent : ∀ m ∈ c.sent, m.request = .lock ∨ m.request = .grant ∨ m.request = .nak → p m.key

namespace All

variable {p : RequestKey → Prop}

theorem mono {p' : RequestKey → Prop} (h : c.All p) (hp : ∀ k, p k → p' k) : c.All p' :=
  ⟨fun q hq => hp _ (h.waiting q hq), fun m hm hr => hp _ (h.sent m hm hr)⟩

theorem send (h : c.All p) {m : CpgLockMsg}
    (hm : m.request = .lock ∨ m.request = .grant ∨ m.request = .nak → p m.key) : (c.send m).All p := by
  refine ⟨h.waiting, fun m' hm' => ?_⟩
  rcases List.mem_append.1 hm' with hm' | hm'
  · exact h.sent m' hm'
  · rw [List.mem_singleton.1 hm']
    exact hm

theorem set (h : c.All p) (f : CpgLock → CpgLock) : (c.set f).All p := ⟨h.waiting, h.sent⟩

theorem setState (h : c.All p) (st : LockState) : (c.setState st).All p := ⟨h.waiting, h.sent⟩

theorem purge (h : c.All p) (n pid : UInt32) : (c.purge n pid).All p :=
  ⟨fun q hq => h.waiting q (List.mem_filter.1 hq).1, h.sent⟩

theorem unlink (h : c.All p) (k : RequestKey) : (c.unlink k).All p :=
  ⟨fun q hq => h.waiting q (List.mem_of_mem_eraseP hq), h.sent⟩

theorem enqueue (h : c.All p) {m : CpgLockMsg} (now : Nat) (hm : p m.key) :
    (c.enqueue m now).All p := by
  refine ⟨fun q hq => ?_, h.sent⟩
  rcases List.mem_append.1 hq with hq | hq
  · exact h.waiting q hq
  · rw [List.mem_singleton.1 hq]
    exact hm

theorem grantNext (h : c.All p) {c' : Cell} (hc : c.grantNext r = some c') : c'.All p := by
  rcases grantNext_cases r c with ⟨hn, -⟩ | ⟨q, l₁, l₂, hw, -, -, -, hs⟩
  · rw [hn] at hc
    cases hc
  · obtain rfl := Option.some.inj (hc.symm.trans hs)
    have hq : p q.key := h.waiting q (by rw [hw]; exact List.mem_append_right _ List.mem_cons_self)
    refine ⟨fun x hx => ?_, fun m hm hr => ?_⟩
    · rcases List.mem_append.1 hx with hx | hx
      · exact h.waiting x (by rw [hw]; exact List.mem_append_left _ hx)
      · rcases List.mem_cons.1 hx with rfl | hx
        · exact hq
        · exact h.waiting x (by rw [hw]; exact List.mem_append_right _ (List.mem_cons_of_mem _ hx))
    · rcases List.mem_append.1 hm with hm | hm
      · exact h.sent m hm hr
      · rw [List.mem_singleton.1 hm]
        exact hq

theorem grantNextElse (h : c.All p) {k : Cell → Cell} (hk : (k c).All p) :
    (c.grantNextElse r k).All p :=
  grantNextElse_induction (fun _ hc => h.grantNext hc) fun _ => hk

theorem grantNextOrUnlock (h : c.All p) (m : CpgLockMsg) : (c.grantNextOrUnlock r m).All p :=
  h.grantNextElse (h.send (by simp))

theorem recoverClient (h : c.All p) (me pid : UInt32) : (c.recoverClient r me pid).All p := by
  have hc := (h.purge me pid).send
    (m := { CpgLockMsg.blank .purge with ownerNodeid := me, ownerPid := pid })
    (by simp [CpgLockMsg.blank])
  unfold Cell.recoverClient
  dsimp only
  split
  · split
    · exact (hc.setState .free).grantNextOrUnlock _
    · exact hc
  · exact hc

theorem delNode (h : c.All p) (me myPid nodeid : UInt32) (o : MemberItem) :
    (c.delNode r me myPid o nodeid).All p := by
  unfold Cell.delNode
  split
  · unfold Cell.reassign
    split
    · split
      · exact h.set _
      · exact h
    · exact h
  · have hc := (h.purge nodeid 0).send
      (m := { CpgLockMsg.blank .purge with ownerNodeid := nodeid, ownerPid := 0 })
      (by simp [CpgLockMsg.blank])
    unfold Cell.recoverNode
    dsimp only
    split
    · split
      · exact (hc.setState .free).grantNextElse
          (((hc.setState .free).set _).send (by simp [CpgLockMsg.blank]))
      · split
        · exact hc.grantNextElse (hc.set _)
        · exact hc
    · exact hc

theorem grantFree (h : c.All p) : (c.grantFree r).All p :=
  (h.setState .pending).grantNextElse ((h.setState .pending).setState .free)

theorem regrantNonMember (h : c.All p) (b : Bool) (m : CpgLockMsg) :
    (c.regrantNonMember r b m).All p := by
  unfold Cell.regrantNonMember
  split
  · exact (h.setState .free).grantNextOrUnlock m
  · exact h

/-- A delivered message brings no identity but that of a LOCK. -/
theorem step {d : Daemon} {now : Nat} {m : CpgLockMsg} (h : (d.cell r).All p)
    (hs : d.CellStep r now m c) (hm : m.request = .lock → p m.key) : c.All p := by
  cases hs with
  | lock _ hlock _ =>
    have he := h.enqueue now (hm hlock)
    unfold Cell.processLock
    dsimp only
    split
    · split
      · split
        · exact he.grantFree
        · split
          · exact he.send fun _ => hm hlock
          · exact he
      · exact he
    · have he' : Cell.All p { (d.cell r).enqueue m now with lock := some .blank } :=
        ⟨he.waiting, he.sent⟩
      split
      · exact he'.grantFree
      · exact he'
  | grant _ _ _ =>
    unfold Cell.processGrant
    split
    · split
      · exact h
      · have hu := (h.set (Daemon.granted m)).unlink m.key
        dsimp only
        split
        · split
          · exact (hu.set _).regrantNonMember _ m
          · exact ((hu.set _).purge _ _).grantNextOrUnlock m
        · exact hu.regrantNonMember _ m
    · exact ⟨h.waiting, h.sent⟩
  | nak _ _ _ =>
    unfold Cell.processNak
    split
    · have hu := h.unlink m.key
      dsimp only
      split
      · exact hu.purge _ _
      · exact hu
    · exact h
  | unlock _ _ _ =>
    unfold Cell.processUnlock
    split
    · split
      · have hf := h.setState .free
        dsimp only
        split
        · cases hg : ((d.cell r).setState .free).grantNext r with
          | none => exact hf
          | some c' => exact (hf.grantNext hg).setState .pending
        · exact hf
      · exact h
    · exact h
  | purge _ => exact h.purge _ _
  | gone _ _ _ _ => exact h.purge _ _
  | same _ _ => exact h

end All

end Cell

end Cpglock
