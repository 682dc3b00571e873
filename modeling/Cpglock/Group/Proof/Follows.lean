import Cpglock.Daemon.Proof.Owner
import Cpglock.Daemon.Proof.Sent
import Cpglock.Group.Replica

/-!
# A daemon's entry and the replica's

A daemon's entry for a resource names the same holder as the replica's (`Follows`). Its state may be
ahead: it is FREE where the replica has HELD if the holder's connection was closed here, and PENDING
where the daemon has sent the next GRANT. Both times the message that brings the replica after it
waits to be delivered.
-/

namespace Cpglock

/-- Delivered, the message ends the holding that `t` records. -/
def CpgLockMsg.Settles (r : Resource) (t : CpgLock) (m : CpgLockMsg) : Prop :=
  m.resource = r ∧ (m.request = .grant ∨ m.request = .unlock ∧ m.Releases t)

/-- The entry `l` of node `n` follows the replica's entry `t`. -/
structure Follows (r : Resource) (n : UInt32) (t l : CpgLock) (sent : List CpgLockMsg) : Prop where
  key : l.key r = t.key r
  held : l.state = .held → t.state = .held
  pending : l.state = .pending → ∃ m ∈ sent, m.request = .grant ∧ m.resource = r
  free : l.state = .free → t.state = .held → t.ownerNodeid = n ∧ ∃ m ∈ sent, m.Settles r t
  steady : t.state ≠ .pending

/-- The same of a cell. -/
def Tracks (r : Resource) (n : UInt32) (t : Option CpgLock) (c : Cell) : Prop :=
  match t with
  | none => c.lock = none
  | some t => ∃ l, c.lock = some l ∧ Follows r n t l c.sent

section

variable {r : Resource} {n : UInt32} {t l : CpgLock} {sent : List CpgLockMsg} {c c' : Cell}

theorem CpgLock.key_eq {a b : CpgLock} : a.key r = b.key r ↔
    a.ownerNodeid = b.ownerNodeid ∧ a.ownerPid = b.ownerPid ∧ a.ownerTid = b.ownerTid := by
  simp [CpgLock.key]

theorem Follows.releases (h : Follows r n t l sent) (m : CpgLockMsg) :
    m.Releases l ↔ m.Releases t := by
  obtain ⟨hn, hp, -⟩ := CpgLock.key_eq.1 h.key
  rw [CpgLockMsg.Releases, CpgLockMsg.Releases, hn, hp]

theorem Follows.grow {sent' : List CpgLockMsg} (h : Follows r n t l sent)
    (hs : ∀ m ∈ sent, m ∈ sent') : Follows r n t l sent' where
  key := h.key
  held := h.held
  pending hp := (h.pending hp).imp fun m ⟨hm, h⟩ => ⟨hs m hm, h⟩
  free hf ht := (h.free hf ht).imp_right fun ⟨m, hm, h⟩ => ⟨m, hs m hm, h⟩
  steady := h.steady

/-- Other messages than GRANTs and UNLOCKs for `r` may go. -/
theorem Follows.pop {pre : List CpgLockMsg} (h : Follows r n t l (pre ++ sent))
    (hp : ∀ m ∈ pre, m.resource = r → m.request ≠ .grant ∧ m.request ≠ .unlock) :
    Follows r n t l sent where
  key := h.key
  held := h.held
  pending hl := by
    obtain ⟨m, hm, hg, hr⟩ := h.pending hl
    refine ⟨m, (List.mem_append.1 hm).resolve_left fun hm => (hp m hm hr).1 hg, hg, hr⟩
  free hl ht := by
    obtain ⟨ho, m, hm, hs⟩ := h.free hl ht
    refine ⟨ho, m, (List.mem_append.1 hm).resolve_left fun hm => ?_, hs⟩
    exact hs.2.elim (hp m hm hs.1).1 fun h => (hp m hm hs.1).2 h.1
  steady := h.steady

theorem Tracks.grow {t : Option CpgLock} (h : Tracks r n t c) (hl : c'.lock = c.lock)
    (hs : ∀ m ∈ c.sent, m ∈ c'.sent) : Tracks r n t c' := by
  cases t with
  | none => exact hl.trans h
  | some t =>
    obtain ⟨l, hl', hf⟩ := h
    exact ⟨l, hl.trans hl', hf.grow hs⟩

/-- A GRANT for `r` is sent, and the entry is not HELD. -/
theorem Follows.granting (h : Follows r n t l sent) (l' : CpgLock) (hk : l'.key r = l.key r)
    (hs : l'.state = .pending) {sent' : List CpgLockMsg}
    (hg : ∃ m ∈ sent', m.request = .grant ∧ m.resource = r) : Follows r n t l' sent' where
  key := hk.trans h.key
  held hl := by rw [hs] at hl; cases hl
  pending _ := hg
  free hl := by rw [hs] at hl; cases hl
  steady := h.steady

/-! ## Clients -/

theorem Tracks.recoverClient {t : Option CpgLock} (h : Tracks r n t c) (pid : UInt32) :
    Tracks r n t (c.recoverClient r n pid) := by
  cases t with
  | none =>
    have h : c.lock = none := h
    unfold Cell.recoverClient
    simp [Tracks, h]
  | some t =>
    obtain ⟨l, hl, hf⟩ := h
    unfold Cell.recoverClient
    simp only [Cell.send_lock, Cell.purge_lock, hl]
    split
    · next hheld =>
      refine ⟨{ l with state := .free }, ?_, hf.key, by simp, by simp, fun _ _ => ?_, hf.steady⟩
      · rw [Cell.grantNextOrUnlock_lock]
        simp [hl]
      · obtain ⟨hn, hp, -⟩ := CpgLock.key_eq.1 hf.key
        refine ⟨hn.symm.trans hheld.1, ?_⟩
        rcases Cell.grantNextOrUnlock_ends (r := r) (((c.purge n pid).send
          { CpgLockMsg.blank .purge with ownerNodeid := n, ownerPid := pid }).setState .free)
          { CpgLockMsg.blank .purge with resource := r, ownerNodeid := n, ownerPid := pid } with
          ⟨q, hq, hm⟩ | ⟨hm, -⟩
        · exact ⟨_, hm, hq, .inl rfl⟩
        · exact ⟨_, hm, rfl, .inr ⟨rfl, hn.symm.trans hheld.1, hp.symm.trans hheld.2.1⟩⟩
    · refine ⟨l, hl, hf.grow fun m hm => ?_⟩
      exact List.mem_append_left _ hm

/-! ## Deliveries -/

theorem Cell.grantFree_cases (hl : c.lock = some l) :
    (∃ q, q.resource = r ∧ Daemon.grantMsg q ∈ (c.grantFree r).sent ∧
      (c.grantFree r).lock = some { l with state := .pending }) ∨
    (c.grantFree r).sent = c.sent ∧ (c.grantFree r).lock = some { l with state := .free } ∧
      ∀ q ∈ c.waiting, q.resource = r → q.state ≠ .pending := by
  rcases Cell.grantNext_cases r (c.setState .pending) with ⟨hn, hw⟩ | ⟨q, l₁, l₂, -, hr, -, -, heq⟩
  · have h : c.grantFree r = (c.setState .pending).setState .free := by
      unfold grantFree grantNextElse
      rw [hn]
      rfl
    rw [h]
    exact .inr ⟨rfl, by simp [hl], hw⟩
  · exact .inl ⟨q, hr, by simp [grantFree, grantNextElse, heq],
      by simp [grantFree, grantNextElse, heq, hl]⟩

theorem Tracks.processLock {t : Option CpgLock} (h : Tracks r n t c) (head : Bool)
    {m : CpgLockMsg} (now : Nat) (hm : m.request = .lock) :
    Tracks r n (m.relock t) (c.processLock r n head m now) := by
  simp only [CpgLockMsg.relock, hm]
  unfold Cell.processLock
  cases t with
  | none =>
    have h : c.lock = none := h
    simp only [Cell.enqueue_lock, h, Option.getD_none]
    split
    · rcases Cell.grantFree_cases (r := r) (c := { c.enqueue m now with lock := some .blank }) rfl with
        ⟨q, hq, hs, hl⟩ | ⟨-, hl, -⟩
      · exact ⟨_, hl, rfl, by simp, fun _ => ⟨_, hs, rfl, hq⟩, by simp, by simp [CpgLock.blank]⟩
      · exact ⟨_, hl, rfl, by simp, by simp, by simp [CpgLock.blank], by simp [CpgLock.blank]⟩
    · exact ⟨_, rfl, rfl, by simp, by simp [CpgLock.blank], by simp [CpgLock.blank],
        by simp [CpgLock.blank]⟩
  | some t =>
    obtain ⟨l, hl, hf⟩ := h
    simp only [Cell.enqueue_lock, hl, Option.getD_some]
    split
    · split
      · next hfree =>
        rcases Cell.grantFree_cases (r := r) (c := c.enqueue m now) hl with
          ⟨q, hq, hs, hl'⟩ | ⟨hs, hl', -⟩
        · exact ⟨_, hl', hf.granting { l with state := .pending } rfl rfl ⟨_, hs, rfl, hq⟩⟩
        · refine ⟨_, hl', ?_⟩
          rw [hs]
          exact ⟨hf.key, by simp, by simp, fun _ => hf.free hfree, hf.steady⟩
      · split
        · exact ⟨l, hl, hf.grow fun _ hm => List.mem_append_left _ hm⟩
        · exact ⟨l, hl, hf⟩
    · exact ⟨l, hl, hf⟩

/-- A GRANT makes the entry HELD by its addressee, unless this is not in the group. -/
theorem Cell.processGrant_lock (hl : c.lock = some l) (me : UInt32) (connected : Bool) (id : UInt64)
    {m : CpgLockMsg} (hp : m.ownerPid ≠ 0) (hn : m.ownerNodeid ≠ 0) :
    ∃ l', (c.processGrant r me false connected id m).lock = some l' ∧ l'.state = .held ∧
      l'.ownerNodeid = m.ownerNodeid ∧ l'.ownerPid = m.ownerPid ∧ l'.ownerTid = m.ownerTid := by
  unfold processGrant
  have havert : ¬(l.state = .held ∧ (m.ownerPid = 0 ∨ m.ownerNodeid = 0)) :=
    fun h => h.2.elim hp hn
  simp only [hl, if_neg havert, regrantNonMember, Bool.false_eq_true, if_false]
  split
  · split
    · exact ⟨{ Daemon.granted m l with localId := id }, by simp [hl], rfl, rfl, rfl, rfl⟩
    · exact ⟨{ Daemon.granted m l with localId := id },
        (grantNextOrUnlock_lock _ _).trans (by simp [hl]), rfl, rfl, rfl, rfl⟩
  · exact ⟨Daemon.granted m l, by simp [hl], rfl, rfl, rfl, rfl⟩

theorem Tracks.processUnlock {t : Option CpgLock} {pre : List CpgLockMsg} {m : CpgLockMsg}
    (h : Tracks r n t { c with sent := pre ++ c.sent }) (hpre : ∀ x ∈ pre, x = m)
    (hm : m.request = .unlock) : Tracks r n (m.relock t) (c.processUnlock r n m) := by
  simp only [CpgLockMsg.relock, hm]
  unfold Cell.processUnlock
  cases t with
  | none =>
    have h : c.lock = none := h
    simp [Tracks, h]
  | some t =>
    obtain ⟨l, hl, hf⟩ := h
    have hl : c.lock = some l := hl
    have hrel := hf.releases m
    simp only [hl, Option.map_some]
    by_cases hheld : l.state = .held ∧ l.ownerNodeid = m.ownerNodeid ∧ l.ownerPid = m.ownerPid
    · have ht : t.state = .held := hf.held hheld.1
      rw [if_pos hheld, if_pos ⟨ht, hrel.1 hheld.2⟩]
      have hfree : Follows r n { t with state := .free } { l with state := .free } c.sent :=
        ⟨hf.key, by simp, by simp, by simp, by simp⟩
      split
      · rcases Cell.grantNext_cases r (c.setState .free) with
          ⟨hn, -⟩ | ⟨q, l₁, l₂, -, hr, -, -, heq⟩
        · rw [hn]
          exact ⟨_, by simp [hl], hfree⟩
        · rw [heq]
          refine ⟨{ l with state := .pending }, by simp [hl],
            hfree.granting { l with state := .pending } rfl rfl ⟨Daemon.grantMsg q, ?_, rfl, hr⟩⟩
          simp [Cell.setState, Cell.set]
      · exact ⟨_, by simp [hl], hfree⟩
    · rw [if_neg hheld]
      refine ⟨l, hl, ?_⟩
      -- the popped UNLOCK was the one that frees the replica's entry, if any is needed
      have hpend : l.state = .pending → ∃ m ∈ c.sent, m.request = .grant ∧ m.resource = r := by
        intro hst
        obtain ⟨g, hg, hgr, hgm⟩ := hf.pending hst
        refine ⟨g, (List.mem_append.1 hg).resolve_left fun hg => ?_, hgr, hgm⟩
        rw [hpre g hg, hm] at hgr
        cases hgr
      split
      · next hrelt =>
        exact ⟨hf.key, fun hst => absurd ⟨hst, hrel.2 hrelt.2⟩ hheld, hpend, by simp, by simp⟩
      · next hrelt =>
        refine ⟨hf.key, hf.held, hpend, fun hst ht => ?_, hf.steady⟩
        obtain ⟨ho, g, hg, hgs⟩ := hf.free hst ht
        refine ⟨ho, g, (List.mem_append.1 hg).resolve_left fun hg => ?_, hgs⟩
        rw [hpre g hg] at hgs
        rcases hgs.2 with h | ⟨-, h⟩
        · rw [hm] at h
          cases h
        · exact hrelt ⟨ht, h⟩

end

/-- A delivered message, in the daemon's own name (then it has waited) or not. -/
theorem Tracks.step {d : Daemon} {r : Resource} {now : Nat} {m : CpgLockMsg} {c : Cell}
    {t : Option CpgLock} {own : Prop} [Decidable own]
    (h : Tracks r d.myNodeId t { d.cell r with
      sent := (if own ∧ m.concerns r then [m] else []) ++ (d.cell r).sent })
    (hs : d.CellStep r now m c)
    (hj : m.resource = r → m.request = .lock ∨ m.OfEntry → d.joined = true)
    (hg : m.resource = r → m.request = .grant → t ≠ none ∧ d.lost m.ownerNodeid = false ∧
      m.ownerPid ≠ 0 ∧ m.ownerNodeid ≠ 0) :
    Tracks r d.myNodeId (if m.resource = r then m.relock t else t) c := by
  have hpre : ∀ x ∈ (if own ∧ m.concerns r then [m] else []), x = m := by
    intro x hx
    split at hx
    · exact List.mem_singleton.1 hx
    · cases hx
  -- a message that is no GRANT or UNLOCK for `r` is not needed
  have hpop : (m.resource = r → m.request ≠ .grant ∧ m.request ≠ .unlock) →
      Tracks r d.myNodeId t (d.cell r) := by
    intro hm
    cases t with
    | none => exact h
    | some t =>
      obtain ⟨l, hl, hf⟩ := h
      exact ⟨l, hl, hf.pop fun x hx => hpre x hx ▸ hm⟩
  have hsends := hs.sends
  cases hs with
  | lock _ hm hr =>
    rw [if_pos hr]
    exact (hpop fun _ => by simp [hm]).processLock _ now hm
  | grant _ hm hr =>
    obtain ⟨ht, hlost, hp, hn⟩ := hg hr hm
    rw [if_pos hr, hlost]
    cases t with
    | none => exact absurd rfl ht
    | some t =>
      obtain ⟨l, hl, hf⟩ := h
      obtain ⟨l', hl', hst, hn', hp', ht'⟩ := Cell.processGrant_lock (r := r) (c := d.cell r) hl
        d.myNodeId (d.connected m.ownerPid) (d.localLockid + 1) hp hn
      simp only [CpgLockMsg.relock, hm, Option.map_some]
      refine ⟨l', hl', ?_, fun _ => rfl, by simp [hst], by simp [hst], by simp [Daemon.granted]⟩
      exact CpgLock.key_eq.2 ⟨hn', hp', ht'⟩
  | nak _ hm hr =>
    rw [if_pos hr]
    simp only [CpgLockMsg.relock, hm]
    exact (hpop fun _ => by simp [hm]).grow (Cell.processNak_lock _ _ _ _) fun x hx =>
      hsends.sub hx
  | unlock _ hm hr =>
    rw [if_pos hr]
    exact h.processUnlock hpre hm
  | purge hm =>
    have : (if m.resource = r then m.relock t else t) = t := by simp [CpgLockMsg.relock, hm]
    rw [this]
    exact (hpop fun _ => by simp [hm]).grow rfl fun _ h => h
  | gone _ hr _ _ =>
    rw [if_neg hr]
    exact (hpop fun h => absurd h hr).grow rfl fun _ h => h
  | same _ hno =>
    by_cases hr : m.resource = r
    · have hnot : ¬(m.request = .lock ∨ m.OfEntry) := by
        intro hm
        obtain ⟨h₁, h₂, h₃, h₄⟩ := hno (hj hr hm) hr
        rcases hm with h | h | h | h
        · exact h₁ h
        · exact h₂ h
        · exact h₃ h
        · exact h₄ h
      have hsame : m.relock t = t := by
        unfold CpgLockMsg.relock
        split
        · next h => exact absurd (.inl h) hnot
        · next h => exact absurd (.inr (.inl h)) hnot
        · next h => exact absurd (.inr (.inr (.inr h))) hnot
        · rfl
      rw [if_pos hr, hsame]
      exact hpop fun _ => ⟨fun h => hnot (.inr (.inl h)), fun h => hnot (.inr (.inr (.inr h)))⟩
    · rw [if_neg hr]
      exact hpop fun h => absurd h hr

end Cpglock
