import Cpglock.Daemon.Proof.Queue
import Cpglock.Daemon.Proof.Sent

/-!
# How often an identity is asked for

`c.keys`: who waits in a cell. `c.claims k`: how many requests of identity `k` wait in the cell or in
LOCKs still to be delivered. A message brings a claim at most when it is a LOCK of that identity
(`CellStep.claims`), and a GRANT or NAK that finds its request takes one away (`CellStep.answered`).
Conversely a request stays queued unless a message takes it off (`CpgLockMsg.Takes`,
`CellStep.mem_keys`).
-/

namespace Cpglock

/-- The message is a LOCK of identity `k`. -/
def CpgLockMsg.Asks (k : RequestKey) (m : CpgLockMsg) : Prop := m.request = .lock ∧ m.key = k

instance CpgLockMsg.decidableAsks (k : RequestKey) (m : CpgLockMsg) : Decidable (m.Asks k) := by
  unfold CpgLockMsg.Asks
  infer_instance

theorem purgeKeys_sublist (n p : UInt32) (ks : List RequestKey) :
    (purgeKeys n p ks).Sublist ks := List.filter_sublist

theorem mem_purgeKeys {n p : UInt32} {ks : List RequestKey} {k : RequestKey} :
    k ∈ purgeKeys n p ks ↔ k ∈ ks ∧ ¬(k.nodeid = n ∧ (p = 0 ∨ k.pid = p)) := by
  simp only [purgeKeys, List.mem_filter, Bool.not_eq_true', Bool.and_eq_false_iff,
    Bool.or_eq_false_iff, decide_eq_false_iff_not]
  tauto

namespace Cell

variable {r : Resource} {c c' : Cell}

/-- The identities that wait. -/
def keys (c : Cell) : List RequestKey := c.waiting.map (·.key)

/-- How many requests of identity `k` wait or are on their way. -/
def claims (k : RequestKey) (c : Cell) : Nat := c.keys.count k + c.sent.countP (·.Asks k)

@[simp] theorem keys_send (c : Cell) (m : CpgLockMsg) : (c.send m).keys = c.keys := rfl

@[simp] theorem keys_set (c : Cell) (f : CpgLock → CpgLock) : (c.set f).keys = c.keys := rfl

@[simp] theorem keys_setState (c : Cell) (st : LockState) : (c.setState st).keys = c.keys := rfl

@[simp] theorem keys_purge (c : Cell) (n p : UInt32) : (c.purge n p).keys = purgeKeys n p c.keys := by
  rw [keys, purge, purgeKeys, keys, List.filter_map]
  rfl

@[simp] theorem keys_unlink (c : Cell) (k : RequestKey) : (c.unlink k).keys = c.keys.erase k :=
  Daemon.map_key_eraseP _ _

@[simp] theorem keys_enqueue (c : Cell) (m : CpgLockMsg) (now : Nat) :
    (c.enqueue m now).keys = c.keys ++ [m.key] := by
  simp [keys, enqueue, RequestItem.key, CpgLockMsg.key]

/-- Marking a request keeps its identity. -/
theorem keys_grantNext (h : c.grantNext r = some c') : c'.keys = c.keys := by
  rcases grantNext_cases r c with ⟨hn, -⟩ | ⟨q, l₁, l₂, hw, -, -, -, heq⟩
  · rw [hn] at h
    cases h
  · obtain rfl := Option.some.inj (heq.symm.trans h)
    rw [keys, keys, hw]
    simp [RequestItem.key]

theorem keys_grantNextElse {k : Cell → Cell} (hk : (k c).keys = c.keys) :
    (c.grantNextElse r k).keys = c.keys :=
  grantNextElse_induction (I := fun c' => c'.keys = c.keys) (fun _ h => keys_grantNext h) fun _ => hk

@[simp] theorem keys_grantNextOrUnlock (c : Cell) (m : CpgLockMsg) :
    (c.grantNextOrUnlock r m).keys = c.keys := keys_grantNextElse rfl

@[simp] theorem keys_grantFree (c : Cell) : (c.grantFree r).keys = c.keys :=
  keys_grantNextElse (c := c.setState .pending) rfl

@[simp] theorem keys_regrantNonMember (c : Cell) (b : Bool) (m : CpgLockMsg) :
    (c.regrantNonMember r b m).keys = c.keys := by
  unfold regrantNonMember
  split
  · exact keys_grantNextOrUnlock (c.setState .free) m
  · rfl

/-! ## Clients and departed nodes -/

@[simp] theorem keys_recoverClient (c : Cell) (me pid : UInt32) :
    (c.recoverClient r me pid).keys = purgeKeys me pid c.keys := by
  unfold recoverClient
  dsimp only
  split
  · split
    · rw [keys_grantNextOrUnlock, keys_setState, keys_send, keys_purge]
    · rw [keys_send, keys_purge]
  · rw [keys_send, keys_purge]

theorem keys_delNode (c : Cell) (me myPid nodeid : UInt32) (o : MemberItem) :
    (c.delNode r me myPid o nodeid).keys.Sublist c.keys := by
  unfold delNode
  split
  · unfold reassign
    split
    · split
      · exact List.Sublist.refl _
      · exact List.Sublist.refl _
    · exact List.Sublist.refl _
  · have h : (c.recoverNode r me myPid nodeid).keys = purgeKeys nodeid 0 c.keys := by
      unfold recoverNode
      dsimp only
      split
      · split
        · rw [keys_grantNextElse rfl, keys_setState, keys_send, keys_purge]
        · split
          · rw [keys_grantNextElse rfl, keys_send, keys_purge]
          · rw [keys_send, keys_purge]
      · rw [keys_send, keys_purge]
    rw [h]
    exact purgeKeys_sublist ..

/-! ## Deliveries -/

@[simp] theorem keys_processLock (c : Cell) (me : UInt32) (b : Bool) (m : CpgLockMsg) (now : Nat) :
    (c.processLock r me b m now).keys = c.keys ++ [m.key] := by
  rw [← keys_enqueue c m now]
  unfold processLock
  dsimp only
  split
  · split
    · split
      · exact keys_grantFree _
      · split
        · exact keys_send _ _
        · rfl
    · rfl
  · split
    · exact keys_grantFree { c.enqueue m now with lock := some .blank }
    · rfl

/-- A GRANT takes its request off the queue, and with a process that has no client all of its
requests. -/
theorem keys_processGrant (c : Cell) (me : UInt32) (lost connected : Bool) (id : UInt64)
    (m : CpgLockMsg) :
    (c.processGrant r me lost connected id m).keys = c.keys ∧
        (c.lock = none ∨ m.ownerPid = 0 ∨ m.ownerNodeid = 0) ∨
      (c.processGrant r me lost connected id m).keys = c.keys.erase m.key ∨
      m.ownerNodeid = me ∧ connected = false ∧
        (c.processGrant r me lost connected id m).keys =
          purgeKeys me m.ownerPid (c.keys.erase m.key) := by
  unfold processGrant
  split
  · split
    · next h => exact .inl ⟨rfl, .inr h.2⟩
    · dsimp only
      split
      · next hme =>
        split
        · refine .inr (.inl ?_)
          rw [keys_regrantNonMember, keys_set, keys_unlink, keys_set]
        · next hc =>
          refine .inr (.inr ⟨hme, by simpa using hc, ?_⟩)
          rw [keys_grantNextOrUnlock, keys_purge, keys_set, keys_unlink, keys_set]
      · refine .inr (.inl ?_)
        rw [keys_regrantNonMember, keys_unlink, keys_set]
  · next hl => exact .inl ⟨rfl, .inl hl⟩

theorem keys_processNak (c : Cell) (me : UInt32) (connected : Bool) (m : CpgLockMsg) :
    (c.processNak me connected m).keys = c.keys.erase m.key ∨
      m.ownerNodeid = me ∧ connected = false ∧
        (c.processNak me connected m).keys = purgeKeys me m.ownerPid (c.keys.erase m.key) := by
  unfold processNak
  split
  · dsimp only
    split
    · next h => exact .inr ⟨h.1, by simpa using h.2, by rw [keys_purge, keys_unlink]⟩
    · exact .inl (keys_unlink _ _)
  · next h =>
    refine .inl (List.erase_of_not_mem fun hm => h ?_).symm
    obtain ⟨q, hq, hk⟩ := List.mem_map.1 hm
    exact List.any_eq_true.2 ⟨q, hq, by simpa using hk⟩

@[simp] theorem keys_processUnlock (c : Cell) (me : UInt32) (m : CpgLockMsg) :
    (c.processUnlock r me m).keys = c.keys := by
  unfold processUnlock
  split
  · split
    · dsimp only
      split
      · cases h : (c.setState .free).grantNext r with
        | none => rfl
        | some c' => exact (keys_grantNext h : c'.keys = _)
      · rfl
    · rfl
  · rfl

/-! ## Claims -/

/-- Requests go and no LOCK is sent. -/
theorem claims_le {k : RequestKey} (hk : c'.keys.Sublist c.keys)
    (hs : c'.sent.countP (·.Asks k) = c.sent.countP (·.Asks k)) : c'.claims k ≤ c.claims k := by
  have := hk.count_le k
  unfold claims
  omega

/-- From `c` to `c'` no LOCK is sent. -/
def Mute (c c' : Cell) : Prop := ∃ l, c'.sent = c.sent ++ l ∧ ∀ m ∈ l, m.request ≠ .lock

theorem Mute.refl (c : Cell) : Mute c c := ⟨[], by simp⟩

theorem Mute.trans {c'' : Cell} (h : Mute c c') (h' : Mute c' c'') : Mute c c'' := by
  obtain ⟨l, hl, hm⟩ := h
  obtain ⟨l', hl', hm'⟩ := h'
  refine ⟨l ++ l', by rw [hl', hl, List.append_assoc], fun m hml => ?_⟩
  rcases List.mem_append.1 hml with hml | hml
  · exact hm m hml
  · exact hm' m hml

theorem Mute.send (c : Cell) {m : CpgLockMsg} (h : m.request ≠ .lock) : Mute c (c.send m) :=
  ⟨[m], rfl, by simpa using h⟩

theorem Sends.mute (h : Sends r c c') : Mute c c' := by
  obtain ⟨l, hl, hm⟩ := h
  refine ⟨l, hl, fun m hml hr => ?_⟩
  rcases (hm m hml).1 with h | h | h <;> rw [hr] at h <;> cases h

theorem Mute.countP_asks (h : Mute c c') (k : RequestKey) :
    c'.sent.countP (·.Asks k) = c.sent.countP (·.Asks k) := by
  obtain ⟨l, hl, hm⟩ := h
  rw [hl, List.countP_append, Nat.add_eq_left, List.countP_eq_zero]
  intro m hml
  simp [CpgLockMsg.Asks, hm m hml]

theorem mute_recoverClient (c : Cell) (me pid : UInt32) : Mute c (c.recoverClient r me pid) := by
  have h : Mute c ((c.purge me pid).send (purgeMsg me pid)) := Mute.send (c.purge me pid) (by simp [purgeMsg, CpgLockMsg.blank])
  exact h.trans (recoverClient_sends me pid).mute

theorem mute_delNode (c : Cell) (me myPid nodeid : UInt32) (o : MemberItem) :
    Mute c (c.delNode r me myPid o nodeid) := by
  unfold delNode
  split
  · unfold reassign
    split
    · split
      · exact ⟨[], by simp [set]⟩
      · exact .refl c
    · exact .refl c
  · unfold recoverNode
    let c₁ := (c.purge nodeid 0).send
      { CpgLockMsg.blank .purge with ownerNodeid := nodeid, ownerPid := 0 }
    have h₁ : Mute c c₁ := Mute.send (c.purge nodeid 0) (by simp [CpgLockMsg.blank])
    dsimp only
    split
    · split
      · refine h₁.trans (grantNextElse_induction (r := r) (I := fun c' => Mute c₁ c') ?_ fun _ => ?_)
        · exact fun c' h => (grantNext_sends h).mute
        · exact Mute.send ((c₁.setState .free).take me myPid) (by simp [CpgLockMsg.blank])
      · split
        · refine h₁.trans (grantNextElse_induction (r := r) (I := fun c' => Mute c₁ c') ?_ fun _ => ?_)
          · exact fun c' h => (grantNext_sends h).mute
          · exact ⟨[], by simp [Cell.take, Cell.set, c₁]⟩
        · exact h₁
    · exact h₁

theorem claims_recoverClient (c : Cell) (me pid : UInt32) (k : RequestKey) :
    (c.recoverClient r me pid).claims k ≤ c.claims k := by
  refine claims_le ?_ ((mute_recoverClient c me pid).countP_asks k)
  rw [keys_recoverClient]
  exact purgeKeys_sublist ..

theorem claims_delNode (c : Cell) (me myPid nodeid : UInt32) (o : MemberItem) (k : RequestKey) :
    (c.delNode r me myPid o nodeid).claims k ≤ c.claims k :=
  claims_le (keys_delNode ..) ((mute_delNode c me myPid nodeid o).countP_asks k)

end Cell

/-- The message takes requests of identity `k` off a queue: it answers one or purges them. -/
def CpgLockMsg.Takes (k : RequestKey) (m : CpgLockMsg) : Prop :=
  (m.request = .grant ∨ m.request = .nak) ∧ m.key = k ∨
    m.request = .purge ∧ k.nodeid = m.ownerNodeid ∧ (m.ownerPid = 0 ∨ k.pid = m.ownerPid)

namespace Daemon.CellStep

variable {d : Daemon} {r : Resource} {now : Nat} {m : CpgLockMsg} {c : Cell}

/-- What waits after a delivery waited before, but for a LOCK's request. -/
theorem keys_sublist (h : d.CellStep r now m c) : c.keys.Sublist
    ((d.cell r).keys ++ if m.request = .lock ∧ m.resource = r then [m.key] else []) := by
  have hsub : ∀ {ks : List RequestKey}, ks.Sublist (d.cell r).keys → ks.Sublist
      ((d.cell r).keys ++ if m.request = .lock ∧ m.resource = r then [m.key] else []) :=
    fun h => h.trans (List.sublist_append_left _ _)
  cases h with
  | lock _ hm hr =>
    rw [Cell.keys_processLock, if_pos ⟨hm, hr⟩]
  | grant =>
    apply hsub
    rcases Cell.keys_processGrant (r := r) (d.cell r) d.myNodeId (d.lost m.ownerNodeid)
      (d.connected m.ownerPid) (d.localLockid + 1) m with ⟨h, -⟩ | h | ⟨-, -, h⟩ <;> rw [h]
    · exact List.erase_sublist
    · exact (purgeKeys_sublist ..).trans List.erase_sublist
  | nak =>
    apply hsub
    rcases Cell.keys_processNak (d.cell r) d.myNodeId (d.connected m.ownerPid) m with
      h | ⟨-, -, h⟩ <;> rw [h]
    · exact List.erase_sublist
    · exact (purgeKeys_sublist ..).trans List.erase_sublist
  | unlock =>
    rw [Cell.keys_processUnlock]
    exact hsub (List.Sublist.refl _)
  | purge =>
    rw [Cell.keys_purge]
    exact hsub (purgeKeys_sublist ..)
  | gone =>
    rw [Cell.keys_purge]
    exact hsub (purgeKeys_sublist ..)
  | same => exact hsub (List.Sublist.refl _)

/-- Only a LOCK brings a claim. -/
theorem claims (h : d.CellStep r now m c) (k : RequestKey) :
    c.claims k ≤ (d.cell r).claims k + if m.Asks k ∧ m.resource = r then 1 else 0 := by
  have hk := h.keys_sublist.count_le k
  have hs := h.sends.mute.countP_asks k
  rw [List.count_append] at hk
  unfold Cell.claims
  have hle : (if m.request = .lock ∧ m.resource = r then [m.key] else []).count k ≤
      if m.Asks k ∧ m.resource = r then 1 else 0 := by
    by_cases hm : m.request = .lock ∧ m.resource = r
    · rw [if_pos hm, List.count_singleton]
      by_cases hk : m.key = k
      · simp [CpgLockMsg.Asks, hm.1, hm.2, hk]
      · simp [hk]
    · simp [hm]
  omega

/-- An answer that finds its request takes a claim away. -/
theorem answered (h : d.CellStep m.resource now m c) (hj : d.joined = true)
    (hm : m.request = .grant ∧ d.locks.get m.resource ≠ none ∧ m.ownerPid ≠ 0 ∧ m.ownerNodeid ≠ 0 ∨
      m.request = .nak) (hk : m.key ∈ (d.cell m.resource).keys) :
    c.claims m.key + 1 ≤ (d.cell m.resource).claims m.key := by
  have hs := h.sends.mute.countP_asks m.key
  have hpos : 0 < (d.cell m.resource).keys.count m.key := List.count_pos_iff.2 hk
  have hle : c.keys.count m.key ≤ ((d.cell m.resource).keys.erase m.key).count m.key := by
    cases h with
    | grant =>
      rcases Cell.keys_processGrant (r := m.resource) (d.cell m.resource) d.myNodeId
        (d.lost m.ownerNodeid) (d.connected m.ownerPid) (d.localLockid + 1) m with
        ⟨-, h⟩ | h | ⟨-, -, h⟩
      · rcases hm with ⟨-, hl, hp, hn⟩ | hm
        · rcases h with h | h | h
          · exact absurd h hl
          · exact absurd h hp
          · exact absurd h hn
        · next hg _ => exact absurd (hg.symm.trans hm) (by decide)
      · rw [h]
      · rw [h]
        exact (purgeKeys_sublist ..).count_le _
    | nak =>
      rcases Cell.keys_processNak (d.cell m.resource) d.myNodeId (d.connected m.ownerPid) m with
        h | ⟨-, -, h⟩ <;> rw [h]
      exact (purgeKeys_sublist ..).count_le _
    | lock _ hl _ => rcases hm with ⟨hm, -⟩ | hm <;> rw [hl] at hm <;> cases hm
    | unlock _ hl _ => rcases hm with ⟨hm, -⟩ | hm <;> rw [hl] at hm <;> cases hm
    | purge hl => rcases hm with ⟨hm, -⟩ | hm <;> rw [hl] at hm <;> cases hm
    | gone _ hr _ _ => exact absurd rfl hr
    | same _ hno =>
      obtain ⟨-, hg, hn, -⟩ := hno hj rfl
      rcases hm with ⟨hm, -⟩ | hm
      · exact absurd hm hg
      · exact absurd hm hn
  rw [List.count_erase_self] at hle
  unfold Cell.claims
  omega

theorem purged (h : d.CellStep r now m c) (hm : m.request = .purge) :
    c.keys = purgeKeys m.ownerNodeid m.ownerPid (d.cell r).keys := by
  cases h with
  | purge => exact Cell.keys_purge ..
  | lock _ hq _ => rw [hm] at hq; cases hq
  | grant _ hq _ => rw [hm] at hq; cases hq
  | nak _ hq _ => rw [hm] at hq; cases hq
  | unlock _ hq _ => rw [hm] at hq; cases hq
  | gone hq _ _ _ => rw [hm] at hq; rcases hq with hq | hq <;> cases hq
  | same hq _ => exact absurd hm hq

/-- A queued request stays unless the message takes it off, or finds that the process has no client
here. -/
theorem mem_keys (h : d.CellStep r now m c) {k : RequestKey} (hk : k ∈ (d.cell r).keys) :
    k ∈ c.keys ∨ m.Takes k ∨
      (m.request = .grant ∨ m.request = .nak) ∧ k.nodeid = d.myNodeId ∧
        d.connected m.ownerPid = false ∧ (m.ownerPid = 0 ∨ k.pid = m.ownerPid) := by
  have herase : ∀ {ks : List RequestKey}, k ∈ ks →
      (m.request = .grant ∨ m.request = .nak) → k ∈ ks.erase m.key ∨ m.Takes k := by
    intro ks hk hm
    by_cases he : m.key = k
    · exact .inr (.inl ⟨hm, he⟩)
    · exact .inl ((List.mem_erase_of_ne (Ne.symm he)).2 hk)
  have hpurge : ∀ {ks : List RequestKey} {p : UInt32}, k ∈ ks →
      k ∈ purgeKeys d.myNodeId p ks ∨ k.nodeid = d.myNodeId ∧ (p = 0 ∨ k.pid = p) := by
    intro ks p hk
    rw [mem_purgeKeys]
    tauto
  cases h with
  | lock =>
    rw [Cell.keys_processLock]
    exact .inl (List.mem_append_left _ hk)
  | grant _ hm _ =>
    rcases Cell.keys_processGrant (r := r) (d.cell r) d.myNodeId (d.lost m.ownerNodeid)
      (d.connected m.ownerPid) (d.localLockid + 1) m with ⟨h, -⟩ | h | ⟨-, hc, h⟩ <;> rw [h]
    · exact .inl hk
    · exact (herase hk (.inl hm)).imp_right .inl
    · rcases herase hk (.inl hm) with hk | hk
      · exact (hpurge hk).imp_right fun ⟨hn, hp⟩ => .inr ⟨.inl hm, hn, hc, hp⟩
      · exact .inr (.inl hk)
  | nak _ hm _ =>
    rcases Cell.keys_processNak (d.cell r) d.myNodeId (d.connected m.ownerPid) m with
      h | ⟨-, hc, h⟩ <;> rw [h]
    · exact (herase hk (.inr hm)).imp_right .inl
    · rcases herase hk (.inr hm) with hk | hk
      · exact (hpurge hk).imp_right fun ⟨hn, hp⟩ => .inr ⟨.inr hm, hn, hc, hp⟩
      · exact .inr (.inl hk)
  | unlock =>
    rw [Cell.keys_processUnlock]
    exact .inl hk
  | purge hm =>
    rw [Cell.keys_purge, mem_purgeKeys]
    by_cases hp : k.nodeid = m.ownerNodeid ∧ (m.ownerPid = 0 ∨ k.pid = m.ownerPid)
    · exact .inr (.inl (.inr ⟨hm, hp⟩))
    · exact .inl ⟨hk, hp⟩
  | gone hm _ _ hc =>
    rw [Cell.keys_purge]
    exact (hpurge hk).imp_right fun ⟨hn, hp⟩ => .inr ⟨hm, hn, hc, hp⟩
  | same => exact .inl hk

end Daemon.CellStep

namespace Daemon

variable {d : Daemon} {r : Resource}

theorem mute_clientActivityCb (fd : Nat) {m : CpgLockMsg} (hm : m.request ≠ .lock) :
    Cell.Mute (d.cell r) ((d.clientActivityCb fd m).cell r) := by
  rw [cell_clientActivityCb, if_neg fun h => hm h.1]
  split
  · cases d.findLockById m with
    | none => exact .refl _
    | some m' =>
      show Cell.Mute _ (if m'.resource = r then _ else _)
      split
      · next h => exact (Cell.grantNextOrUnlock_sends h).mute
      · exact .refl _
  · exact .refl _

/-- A client's LOCK is one more claim. -/
theorem claims_clientActivityCb (d : Daemon) (fd : Nat) (m : CpgLockMsg) (k : RequestKey) :
    ((d.clientActivityCb fd m).cell k.resource).claims k = (d.cell k.resource).claims k +
      if CpgLockMsg.Asks k { m with ownerNodeid := d.myNodeId } then 1 else 0 := by
  have hk : ((d.clientActivityCb fd m).cell k.resource).keys = (d.cell k.resource).keys := by
    rw [Cell.keys, Cell.keys, keys_cell, keys_cell, keys_clientActivityCb]
  by_cases hm : m.request = .lock
  · rw [Cell.claims, hk, cell_clientActivityCb]
    by_cases hr : m.resource = k.resource
    · rw [if_pos ⟨hm, hr⟩, Cell.send, List.countP_append, List.countP_singleton, Cell.claims,
        Nat.add_assoc]
      simp only [decide_eq_true_eq]
    · rw [if_neg fun h => hr h.2, if_neg (by simp [hm]), if_neg]
      · rfl
      · rintro ⟨-, rfl⟩
        exact hr rfl
  · rw [Cell.claims, hk, (mute_clientActivityCb fd hm).countP_asks k, if_neg fun h => hm h.1]
    rfl

theorem mute_delClient (fd : Nat) : Cell.Mute (d.cell r) ((d.delClient fd).cell r) := by
  rw [cell_delClient]
  split
  · exact .refl _
  · exact Cell.mute_recoverClient ..

theorem claims_delClient (fd : Nat) (k : RequestKey) :
    ((d.delClient fd).cell r).claims k ≤ (d.cell r).claims k := by
  rw [cell_delClient]
  split
  · exact Nat.le_refl _
  · exact Cell.claims_recoverClient ..

theorem mute_configChange {members left join : List MemberItem} :
    Cell.Mute (d.cell r) ((d.cpgConfigChange members left join).cell r) :=
  cell_configChange_induction (I := fun _ c => Cell.Mute (d.cell r) c) (.refl _) (fun _ _ h => h)
    (fun _ _ _ h => h) fun _ _ _ h _ _ _ => h.trans (Cell.mute_delNode ..)

theorem claims_configChange {members left join : List MemberItem} (k : RequestKey) : ((d.cpgConfigChange members left join).cell r).claims k ≤ (d.cell r).claims k :=
  cell_configChange_induction (I := fun _ c => c.claims k ≤ (d.cell r).claims k) (Nat.le_refl _)
    (fun _ _ h => h) (fun _ _ _ h => h) fun _ _ _ h _ _ _ => (Cell.claims_delNode ..).trans h

theorem mem_keys_cell {d : Daemon} {k : RequestKey} : k ∈ d.keys ↔ k ∈ (d.cell k.resource).keys := by
  rw [Cell.keys, keys_cell, List.mem_filter]
  simp

/-- A delivered message brings no queued request but a LOCK's, and that to a daemon that has joined. -/
theorem mem_keys_deliver {now : Nat} {x : MemberItem} {m : CpgLockMsg} {k : RequestKey}
    (hk : k ∈ (d.deliver now (.msg x m)).keys) :
    k ∈ d.keys ∨ d.joined = true ∧ m.request = .lock ∧ m.key = k := by
  have hstep := cellStep_deliver (r := k.resource) d now x m
  have hc := mem_keys_cell.1 hk
  rcases List.mem_append.1 (hstep.keys_sublist.subset hc) with h | h
  · exact .inl (mem_keys_cell.2 h)
  · split at h
    · next hm =>
      cases hj : d.joined with
      | true => exact .inr ⟨rfl, hm.1, (List.mem_singleton.1 h).symm⟩
      | false =>
        left
        have hsame : (d.deliver now (.msg x m)).keys = d.keys := by
          simp only [deliver, processRequest, hm.1, processLock, hj]
          rfl
        rwa [hsame] at hk
    · cases h

/-- A delivered PURGE leaves no request that it names. -/
theorem mem_keys_purge {now : Nat} {x : MemberItem} {m : CpgLockMsg} {k : RequestKey}
    (hm : m.request = .purge) (hk : k ∈ (d.deliver now (.msg x m)).keys) :
    ¬(k.nodeid = m.ownerNodeid ∧ (m.ownerPid = 0 ∨ k.pid = m.ownerPid)) := by
  have hc := mem_keys_cell.1 hk
  rw [(cellStep_deliver (r := k.resource) d now x m).purged hm] at hc
  exact (mem_purgeKeys.1 hc).2

theorem keys_configChange {members left join : List MemberItem} {k : RequestKey}
    (hk : k ∈ (d.cpgConfigChange members left join).keys) : k ∈ d.keys := by
  rw [mem_keys_cell] at hk ⊢
  exact cell_configChange_induction (I := fun _ c => k ∈ c.keys → k ∈ (d.cell k.resource).keys) id
    (fun _ _ h => h) (fun _ _ _ h => h)
    (fun _ _ _ h _ _ _ hk => h ((Cell.keys_delNode ..).subset hk)) hk

/-- The LOCKs that wait, waited before. -/
theorem mem_out_of_mute {v v' : Daemon} (h : ∀ r, Cell.Mute (v.cell r) (v'.cell r))
    {m : CpgLockMsg} (hm : m ∈ v'.out) (hl : m.request = .lock) : m ∈ v.out := by
  obtain ⟨l, hl', hno⟩ := h m.resource
  have hc : m ∈ (v'.cell m.resource).sent :=
    List.mem_filter.2 ⟨hm, by simp [CpgLockMsg.concerns]⟩
  rw [hl'] at hc
  rcases List.mem_append.1 hc with hc | hc
  · exact (List.mem_filter.1 hc).1
  · exact absurd hl (hno m hc)

end Daemon

end Cpglock
