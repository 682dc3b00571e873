import Cpglock.Daemon.Proof.Marked

/-!
# What the handlers send about a resource

Deliveries make a daemon send GRANTs, NAKs and UNLOCKs for a resource with an entry and nothing else
(`CellStep.sends`); a closed connection makes it send a PURGE first (`recoverClient_sends`).
-/

namespace Cpglock

namespace Cell

variable {r : Resource} {c c' c'' : Cell}

/-- From `c` to `c'` only GRANTs, NAKs and UNLOCKs for `r` are sent. -/
def Sends (r : Resource) (c c' : Cell) : Prop :=
  ∃ l, c'.sent = c.sent ++ l ∧ ∀ m ∈ l, m.OfEntry ∧ m.resource = r

theorem Sends.of_eq (h : c'.sent = c.sent) : Sends r c c' := ⟨[], by simp [h], by simp⟩

theorem Sends.one {m : CpgLockMsg} (h : c'.sent = c.sent ++ [m]) (hm : m.OfEntry)
    (hr : m.resource = r) : Sends r c c' := ⟨[m], h, by simp [hm, hr]⟩

theorem Sends.of_sent {c₀ : Cell} (h : Sends r c c') (h₀ : c.sent = c₀.sent) : Sends r c₀ c' := by
  obtain ⟨l, hl, hm⟩ := h
  exact ⟨l, by rw [hl, h₀], hm⟩

theorem Sends.sub (h : Sends r c c') {m : CpgLockMsg} (hm : m ∈ c.sent) : m ∈ c'.sent := by
  obtain ⟨l, hl, -⟩ := h
  rw [hl]
  exact List.mem_append_left _ hm

/-- What `grant_next` sends is the GRANT of a request for `r`. -/
theorem grantNext_sent (h : c.grantNext r = some c') :
    ∃ q ∈ c.waiting, q.resource = r ∧ q.state = .pending ∧
      c'.sent = c.sent ++ [Daemon.grantMsg q] := by
  rcases grantNext_cases r c with ⟨hn, -⟩ | ⟨q, l₁, l₂, hw, hr, hs, -, heq⟩
  · rw [hn] at h
    cases h
  · obtain rfl := Option.some.inj (h.symm.trans heq)
    exact ⟨q, by simp [hw], hr, hs, rfl⟩

theorem grantNext_sends (h : c.grantNext r = some c') : Sends r c c' := by
  obtain ⟨q, -, hr, -, hs⟩ := grantNext_sent h
  exact .one hs (.inl rfl) hr

theorem grantNextElse_sends {k : Cell → Cell} (hk : Sends r c (k c)) :
    Sends r c (c.grantNextElse r k) :=
  grantNextElse_induction (fun _ h => grantNext_sends h) fun _ => hk

theorem grantNextOrUnlock_sends {m : CpgLockMsg} (hm : m.resource = r) :
    Sends r c (c.grantNextOrUnlock r m) :=
  grantNextElse_sends (.one rfl (.inr (.inr rfl)) hm)

/-- The holding that `m` names is ended: by a GRANT, or by the UNLOCK if nobody waits. -/
theorem grantNextOrUnlock_ends (c : Cell) (m : CpgLockMsg) :
    (∃ q, q.resource = r ∧ Daemon.grantMsg q ∈ (c.grantNextOrUnlock r m).sent) ∨
      { m with request := .unlock } ∈ (c.grantNextOrUnlock r m).sent ∧
        ∀ q ∈ (c.grantNextOrUnlock r m).waiting, q.resource = r → q.state ≠ .pending := by
  rcases grantNext_cases r c with ⟨hn, hw⟩ | ⟨q, l₁, l₂, -, hr, -, -, heq⟩
  · have h : c.grantNextOrUnlock r m = c.send { m with request := .unlock } := by
      simp only [grantNextOrUnlock, grantNextElse, hn, Option.getD_none]
    rw [h]
    exact .inr ⟨List.mem_append_right _ (List.mem_singleton_self _), hw⟩
  · exact .inl ⟨q, hr, by simp [grantNextOrUnlock, grantNextElse, heq]⟩

theorem grantFree_sends : Sends r c (c.grantFree r) :=
  (grantNextElse_sends (c := c.setState .pending) (.of_eq rfl)).of_sent rfl

theorem regrantNonMember_sends {m : CpgLockMsg} (b : Bool) (hm : m.resource = r) :
    Sends r c (c.regrantNonMember r b m) := by
  unfold regrantNonMember
  split
  · exact (grantNextOrUnlock_sends hm).of_sent rfl
  · exact .of_eq rfl

/-- The PURGE that `del_client` sends. -/
def purgeMsg (me pid : UInt32) : CpgLockMsg :=
  { CpgLockMsg.blank .purge with ownerNodeid := me, ownerPid := pid }

/-- After the PURGE. -/
theorem recoverClient_sends (me pid : UInt32) :
    Sends r ((c.purge me pid).send (purgeMsg me pid)) (c.recoverClient r me pid) := by
  unfold recoverClient
  dsimp only
  split
  · split
    · refine Sends.of_sent (grantNextOrUnlock_sends ?_) ?_ <;> rfl
    · exact .of_eq rfl
  · exact .of_eq rfl

theorem processUnlock_sends (me : UInt32) (m : CpgLockMsg) :
    Sends r c (c.processUnlock r me m) := by
  unfold processUnlock
  split
  · split
    · dsimp only
      split
      · cases hg : (c.setState .free).grantNext r with
        | none => exact .of_eq rfl
        | some c' => exact (grantNext_sends hg).of_sent rfl
      · exact .of_eq rfl
    · exact .of_eq rfl
  · exact .of_eq rfl

end Cell

theorem Daemon.CellStep.sends {d : Daemon} {r : Resource} {now : Nat} {m : CpgLockMsg} {c : Cell}
    (h : d.CellStep r now m c) : Cell.Sends r (d.cell r) c := by
  cases h with
  | lock _ _ hr =>
    unfold Cell.processLock
    dsimp only
    split
    · split
      · split
        · exact Cell.grantFree_sends.of_sent rfl
        · split
          · exact .one rfl (.inr (.inl rfl)) hr
          · exact .of_eq rfl
      · exact .of_eq rfl
    · split
      · exact Cell.grantFree_sends.of_sent rfl
      · exact .of_eq rfl
  | grant _ _ hr =>
    unfold Cell.processGrant
    split
    · split
      · exact .of_eq rfl
      · dsimp only
        split
        · split
          · exact (Cell.regrantNonMember_sends _ hr).of_sent rfl
          · exact (Cell.grantNextOrUnlock_sends hr).of_sent rfl
        · exact (Cell.regrantNonMember_sends _ hr).of_sent rfl
    · exact .of_eq rfl
  | nak _ _ _ =>
    unfold Cell.processNak
    split
    · dsimp only
      split
      · exact .of_eq rfl
      · exact .of_eq rfl
    · exact .of_eq rfl
  | unlock _ _ _ => exact Cell.processUnlock_sends _ _
  | purge _ => exact .of_eq rfl
  | gone _ _ _ _ => exact .of_eq rfl
  | same _ _ => exact .of_eq rfl

end Cpglock
