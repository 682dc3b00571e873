import Cpglock.Lib.Missing
import Cpglock.Group.FixedGroup
import Cpglock.Group.Proof.Follows
import Cpglock.Group.Proof.Marked

/-!
# A daemon's tables and the replica

In a fixed group a daemon's queue is the replica's without requests of own processes whose PURGE
waits (`Synced.queue`), and its entries follow the replica's (`Synced.lock`). What keeps this up is
`Synced.dead`: the requests of a process without a connection are purged by a message that waits, so
a daemon that drops them on its own, as `process_grant` and `process_nak` do, only acts early.
-/

namespace Cpglock

/-- A LOCK for `r` of process `p` on node `n`. -/
def CpgLockMsg.AsksFor (r : Resource) (n p : UInt32) (m : CpgLockMsg) : Prop :=
  m.request = .lock ∧ m.resource = r ∧ m.ownerNodeid = n ∧ m.ownerPid = p

/-- A PURGE of process `p` on node `n`. -/
def CpgLockMsg.Purges (n p : UInt32) (m : CpgLockMsg) : Prop :=
  m.request = .purge ∧ m.ownerNodeid = n ∧ m.ownerPid = p

instance (r : Resource) (n p : UInt32) (m : CpgLockMsg) : Decidable (m.AsksFor r n p) := by
  unfold CpgLockMsg.AsksFor
  infer_instance

instance (n p : UInt32) (m : CpgLockMsg) : Decidable (m.Purges n p) := by
  unfold CpgLockMsg.Purges
  infer_instance

/-- Whether process `p` on node `n` may have requests for `r` after `m`, if `b` says it before. -/
def CpgLockMsg.ask (r : Resource) (n p : UInt32) (b : Bool) (m : CpgLockMsg) : Bool :=
  if m.AsksFor r n p then true else if m.Purges n p then false else b

/-- The same after some messages. -/
def asks (r : Resource) (n p : UInt32) (b : Bool) (ms : List CpgLockMsg) : Bool :=
  ms.foldl (CpgLockMsg.ask r n p) b

/-- Process `p` on node `n` waits for `r`. -/
def Replica.asked (T : Replica) (r : Resource) (n p : UInt32) : Bool :=
  T.queue.any fun k => k.resource = r ∧ k.nodeid = n ∧ k.pid = p

/-- The request is of an own process whose PURGE waits. -/
def Daemon.purging (v : Daemon) (n : UInt32) (k : RequestKey) : Bool :=
  k.nodeid = n && v.out.any fun m => m.Purges n k.pid

structure Synced (T : Replica) (n : UInt32) (v : Daemon) : Prop where
  queue : Missing (v.purging n) v.keys T.queue
  lock : ∀ r, Tracks r n (T.lock r) (v.cell r)
  dead : ∀ r p, p ≠ 0 → v.connected p = false → asks r n p (T.asked r n p) (v.cell r).sent = false
  mine : ∀ m ∈ v.out, m.request = .lock ∨ m.request = .purge → m.ownerNodeid = n ∧ m.ownerPid ≠ 0

section

variable {r : Resource} {n p : UInt32} {b b' : Bool} {m : CpgLockMsg} {ms l : List CpgLockMsg}

theorem CpgLockMsg.ask_mono (h : b = true → b' = true) (hb : m.ask r n p b = true) :
    m.ask r n p b' = true := by
  unfold ask at hb ⊢
  split
  · rfl
  · next h₁ =>
    rw [if_neg h₁] at hb
    split
    · next h₂ => rwa [if_pos h₂] at hb
    · next h₂ =>
      rw [if_neg h₂] at hb
      exact h hb

theorem asks_mono (h : b = true → b' = true) (hb : asks r n p b ms = true) :
    asks r n p b' ms = true := by
  induction ms generalizing b b' with
  | nil => exact h hb
  | cons m ms ih => exact ih (CpgLockMsg.ask_mono h) hb

theorem asks_false_of_le (h : b = true → b' = true) (hb : asks r n p b' ms = false) :
    asks r n p b ms = false := by
  cases hb' : asks r n p b ms with
  | false => rfl
  | true =>
    rw [asks_mono h hb'] at hb
    cases hb

theorem asks_append : asks r n p b (ms ++ l) = asks r n p (asks r n p b ms) l := by
  simp [asks]

/-- Messages about entries neither ask nor purge. -/
theorem asks_of_ofEntry (h : ∀ m ∈ l, m.OfEntry) : asks r n p b l = b := by
  induction l with
  | nil => rfl
  | cons m l ih =>
    have hm : m.ask r n p b = b := by
      have hm := h m List.mem_cons_self
      unfold CpgLockMsg.ask
      rw [if_neg, if_neg]
      · rintro ⟨hp, -⟩
        rcases hm with h | h | h <;> rw [hp] at h <;> cases h
      · rintro ⟨hp, -⟩
        rcases hm with h | h | h <;> rw [hp] at h <;> cases h
    rw [asks, List.foldl_cons, hm]
    exact ih fun m hm => h m (List.mem_cons_of_mem _ hm)

theorem exists_purge (h : asks r n p true ms = false) : ∃ m ∈ ms, m.Purges n p := by
  by_contra hno
  have : ∀ ms : List CpgLockMsg, (∀ m ∈ ms, ¬m.Purges n p) → asks r n p true ms = true := by
    intro ms
    induction ms with
    | nil => exact fun _ => rfl
    | cons m ms ih =>
      intro hm
      have h1 : m.ask r n p true = true := by
        unfold CpgLockMsg.ask
        rw [if_neg (hm m List.mem_cons_self)]
        split <;> rfl
      rw [asks, List.foldl_cons, h1]
      exact ih fun m' h' => hm m' (List.mem_cons_of_mem _ h')
  rw [this ms fun m hm hp => hno ⟨m, hm, hp⟩] at h
  cases h

/-- After a message nobody waits who did not wait before or asks by it. -/
theorem Replica.asked_deliver {T : Replica} (h : (T.deliver m).asked r n p = true) :
    m.ask r n p (T.asked r n p) = true := by
  simp only [asked, List.any_eq_true, decide_eq_true_eq, deliver] at h
  obtain ⟨k, hk, hkr, hkn, hkp⟩ := h
  have hold : k ∈ T.queue → ¬m.Purges n p → m.ask r n p (T.asked r n p) = true := by
    intro hk hpu
    unfold CpgLockMsg.ask
    rw [if_neg hpu]
    split
    · rfl
    · simp only [asked, List.any_eq_true, decide_eq_true_eq]
      exact ⟨k, hk, hkr, hkn, hkp⟩
  unfold CpgLockMsg.requeue at hk
  split at hk
  · next hm =>
    rcases List.mem_append.1 hk with hk | hk
    · exact hold hk fun h => by simp [CpgLockMsg.Purges, hm] at h
    · obtain rfl := List.mem_singleton.1 hk
      unfold CpgLockMsg.ask
      rw [if_pos ⟨hm, hkr, hkn, hkp⟩]
  · next hm => exact hold (List.mem_of_mem_erase hk) fun h => by simp [CpgLockMsg.Purges, hm] at h
  · next hm => exact hold (List.mem_of_mem_erase hk) fun h => by simp [CpgLockMsg.Purges, hm] at h
  · next hm =>
    obtain ⟨hk, hne⟩ := List.mem_filter.1 hk
    refine hold hk ?_
    rintro ⟨-, hmn, hmp⟩
    rw [hmn, hmp, hkn, hkp] at hne
    simp at hne
  · next hm => exact hold hk fun h => hm h.1

end

theorem CpgLockMsg.concerns_of_purge {m : CpgLockMsg} (h : m.request = .purge) (r : Resource) :
    m.concerns r = true := by
  simp [concerns, h]

namespace Daemon

theorem purge_mem_cell {v : Daemon} {m : CpgLockMsg} (h : m.request = .purge) (r : Resource) :
    m ∈ (v.cell r).sent ↔ m ∈ v.out := by
  simp [cell, CpgLockMsg.concerns_of_purge h]

theorem purging_iff {v : Daemon} {n : UInt32} {k : RequestKey} :
    v.purging n k = true ↔ k.nodeid = n ∧ ∃ m ∈ v.out, m.Purges n k.pid := by
  simp [purging]

theorem mem_cell {v : Daemon} {m : CpgLockMsg} (h : m ∈ v.out) : m ∈ (v.cell m.resource).sent :=
  List.mem_filter.2 ⟨h, by simp [CpgLockMsg.concerns]⟩

/-- What is sent about entries are no LOCKs and PURGEs. -/
theorem mem_out_of_sends {v v' : Daemon} (hs : ∀ r, Cell.Sends r (v.cell r) (v'.cell r))
    {m : CpgLockMsg} (hm : m ∈ v'.out) (hr : m.request = .lock ∨ m.request = .purge) :
    m ∈ v.out := by
  obtain ⟨l, hl, hle⟩ := hs m.resource
  have hm := mem_cell hm
  rw [hl] at hm
  rcases List.mem_append.1 hm with hm | hm
  · exact (List.mem_filter.1 hm).1
  · rcases (hle m hm).1 with h | h | h <;> rw [h] at hr <;> simp at hr

theorem mem_out_mono {v v' : Daemon} (hs : ∀ r, Cell.Sends r (v.cell r) (v'.cell r))
    {m : CpgLockMsg} (hm : m ∈ v.out) : m ∈ v'.out :=
  (List.mem_filter.1 ((hs m.resource).sub (mem_cell hm))).1

/-- A client that is there stays unless it is the one that is unlinked. -/
theorem mem_unlinkClient {v : Daemon} {c : ClientItem} (h : c ∈ v.clients) (fd : Nat) :
    c ∈ (v.unlinkClient fd).clients ∨ v.clientPid fd = c.pid := by
  have key : ∀ l : List ClientItem, c ∈ l →
      c ∈ l.eraseP (fun n => n.fd = fd) ∨ l.find? (fun n => n.fd = fd) = some c := by
    intro l
    induction l with
    | nil => simp
    | cons x l ih =>
      intro hm
      by_cases hx : x.fd = fd
      · rcases List.mem_cons.1 hm with rfl | hm
        · exact .inr (by simp [hx])
        · exact .inl (by simpa [hx] using hm)
      · rcases List.mem_cons.1 hm with rfl | hm
        · exact .inl (by simp [hx])
        · rcases ih hm with h | h
          · exact .inl (by simp [hx, h])
          · exact .inr (by simp [hx, h])
  refine (key v.clients h).imp id fun hf => ?_
  simp [clientPid, hf]

theorem connected_iff {v : Daemon} {p : UInt32} :
    v.connected p = true ↔ ∃ c ∈ v.clients, c.pid = p := by
  simp [connected, findClient]

end Daemon

namespace Synced

variable {T : Replica} {n : UInt32} {v v' : Daemon}

/-- Of a daemon only the tables, the clients and the waiting messages matter. -/
theorem congr (h : Synced T n v) (hk : v'.requests = v.requests) (hl : v'.locks = v.locks)
    (ho : v'.out = v.out) (hc : ∀ p, p ≠ 0 → v'.connected p = false → v.connected p = false) :
    Synced T n v' := by
  have hcell : ∀ r, v'.cell r = v.cell r := fun r => by simp [Daemon.cell, hk, hl, ho]
  refine ⟨?_, fun r => (hcell r).symm ▸ h.lock r, fun r p hp hd => ?_, ho ▸ h.mine⟩
  · rw [Daemon.keys, hk]
    refine h.queue.mono fun k _ hp => ?_
    rw [Daemon.purging_iff] at hp ⊢
    rwa [ho]
  · rw [hcell]
    exact h.dead r p hp (hc p hp hd)

/-- The PURGE of an own request's process waits, if the waiting messages leave it no request. -/
theorem purge_waits {k : RequestKey} (hk : k ∈ T.queue) (hn : k.nodeid = n)
    (hd : asks k.resource n k.pid (T.asked k.resource n k.pid) (v.cell k.resource).sent = false) :
    v.purging n k = true := by
  have hask : T.asked k.resource n k.pid = true := by
    simp only [Replica.asked, List.any_eq_true, decide_eq_true_eq]
    exact ⟨k, hk, rfl, hn, rfl⟩
  rw [hask] at hd
  obtain ⟨m, hm, hpu⟩ := exists_purge hd
  rw [Daemon.purge_mem_cell hpu.1] at hm
  exact Daemon.purging_iff.2 ⟨hn, m, hm, hpu⟩

/-! ## Clients -/

theorem connect (h : Synced T n v) (fd : Nat) : Synced T n (v.insertClient fd) := by
  refine h.congr rfl rfl rfl fun p hp hd => ?_
  rw [Bool.eq_false_iff] at hd ⊢
  intro hc
  obtain ⟨c, hm, hcp⟩ := Daemon.connected_iff.1 hc
  exact hd (Daemon.connected_iff.2 ⟨c, List.mem_append_left _ hm, hcp⟩)

theorem unlinkClient (h : Synced T n v) {fd : Nat} (h0 : v.clientPid fd = 0) :
    Synced T n (v.unlinkClient fd) := by
  refine h.congr rfl rfl rfl fun p hp hd => ?_
  rw [Bool.eq_false_iff] at hd ⊢
  intro hc
  obtain ⟨c, hm, hcp⟩ := Daemon.connected_iff.1 hc
  rcases Daemon.mem_unlinkClient hm fd with hm | hf
  · exact hd (Daemon.connected_iff.2 ⟨c, hm, hcp⟩)
  · rw [hf, hcp] at h0
    exact hp h0

/-- Messages about entries may be sent. -/
theorem sends (h : Synced T n v) (hk : v'.keys = v.keys) (hc : v'.clients = v.clients)
    (hl : ∀ r, (v'.cell r).lock = (v.cell r).lock)
    (hs : ∀ r, Cell.Sends r (v.cell r) (v'.cell r)) : Synced T n v' := by
  refine ⟨?_, fun r => (h.lock r).grow (hl r) fun _ hm => (hs r).sub hm, fun r p hp hd => ?_,
    fun m hm hr => h.mine m (Daemon.mem_out_of_sends hs hm hr) hr⟩
  · rw [hk]
    refine h.queue.mono fun k _ hp => ?_
    rw [Daemon.purging_iff] at hp ⊢
    obtain ⟨hn, m, hm, hpu⟩ := hp
    exact ⟨hn, m, Daemon.mem_out_mono hs hm, hpu⟩
  · obtain ⟨l, hl, hle⟩ := hs r
    rw [hl, asks_append, asks_of_ofEntry fun m hm => (hle m hm).1]
    exact h.dead r p hp (by rwa [Daemon.connected, Daemon.findClient, hc] at hd)

theorem recvLock (h : Synced T n v) {fd : Nat} {m : CpgLockMsg} (hme : v.myNodeId = n)
    (hm : m.request = .lock) (hp : m.ownerPid ≠ 0)
    (hc : ∀ c ∈ v.clients, c.fd = fd → c.pid = 0 ∨ c.pid = m.ownerPid)
    (hfd : fd ∈ v.clients.map (·.fd)) :
    Synced T n ((v.setClientPid fd m.ownerPid).sendLock m) := by
  subst hme
  let m' : CpgLockMsg := { m with ownerNodeid := v.myNodeId }
  have hcell : ∀ r, ((v.setClientPid fd m.ownerPid).sendLock m).cell r =
      if m'.concerns r then (v.cell r).send m' else v.cell r := by
    intro r
    rw [Daemon.sendLock, Daemon.cell_sendLockMsg]
    rfl
  have hout : ((v.setClientPid fd m.ownerPid).sendLock m).out = v.out ++ [m'] := rfl
  -- the LOCK's process is connected, and so are those that were
  have hcon : ∀ p, p ≠ 0 → ((v.setClientPid fd m.ownerPid).sendLock m).connected p = false →
      p ≠ m.ownerPid ∧ v.connected p = false := by
    intro p hp hd
    rw [Bool.eq_false_iff] at hd
    refine ⟨?_, Bool.eq_false_iff.2 fun hcon => ?_⟩
    · rintro rfl
      obtain ⟨c, hcm, hcf⟩ := List.mem_map.1 hfd
      refine hd (Daemon.connected_iff.2 ⟨{ c with pid := m.ownerPid }, ?_, rfl⟩)
      exact List.mem_map.2 ⟨c, hcm, by simp [hcf]⟩
    · obtain ⟨c, hcm, hcp⟩ := Daemon.connected_iff.1 hcon
      by_cases hcf : c.fd = fd
      · rcases hc c hcm hcf with h0 | h0
        · exact hp (hcp.symm.trans h0)
        · refine hd (Daemon.connected_iff.2 ⟨{ c with pid := m.ownerPid }, ?_, h0.symm.trans hcp⟩)
          exact List.mem_map.2 ⟨c, hcm, by simp [hcf]⟩
      · exact hd (Daemon.connected_iff.2 ⟨c, List.mem_map.2 ⟨c, hcm, by simp [hcf]⟩, hcp⟩)
  refine ⟨?_, fun r => (h.lock r).grow ?_ ?_, fun r p hp0 hd => ?_, fun x hx hr => ?_⟩
  · refine h.queue.mono fun k _ hpu => ?_
    rw [Daemon.purging_iff] at hpu ⊢
    obtain ⟨hn, x, hx, hpu⟩ := hpu
    exact ⟨hn, x, by rw [hout]; exact List.mem_append_left _ hx, hpu⟩
  · rw [hcell]
    split <;> rfl
  · rw [hcell]
    split
    · exact fun x hx => List.mem_append_left _ hx
    · exact fun x hx => hx
  · obtain ⟨hne, hd⟩ := hcon p hp0 hd
    rw [hcell]
    split
    · have : m'.ask r v.myNodeId p (asks r v.myNodeId p (T.asked r v.myNodeId p) (v.cell r).sent) =
          asks r v.myNodeId p (T.asked r v.myNodeId p) (v.cell r).sent := by
        unfold CpgLockMsg.ask
        rw [if_neg fun h => hne h.2.2.2.symm, if_neg fun h => by simp [m', CpgLockMsg.Purges, hm] at h]
      rw [Cell.send, asks_append]
      exact this.trans (h.dead r p hp0 hd)
    · exact h.dead r p hp0 hd
  · rw [hout] at hx
    rcases List.mem_append.1 hx with hx | hx
    · exact h.mine x hx hr
    · rw [List.mem_singleton.1 hx]
      exact ⟨rfl, hp⟩

theorem recv (h : Synced T n v) {fd : Nat} {m : CpgLockMsg} (hme : v.myNodeId = n)
    (hfd : fd ∈ v.clients.map (·.fd)) (hp : m.request = .lock → m.ownerPid ≠ 0)
    (hc : ∀ c ∈ v.clients, c.fd = fd → (m.request = .lock → c.pid = 0 ∨ c.pid = m.ownerPid) ∧
      (m.request = .dump → c.pid = 0)) : Synced T n (v.clientActivityCb fd m) := by
  have hkeys := Daemon.keys_clientActivityCb v fd m
  have hcell := fun r => Daemon.cell_clientActivityCb (r := r) v fd m
  by_cases hl : m.request = .lock
  · unfold Daemon.clientActivityCb
    simp only [hl]
    exact h.recvLock hme hl (hp hl) (fun c hm hf => (hc c hm hf).1 hl) hfd
  · by_cases hd : m.request = .dump
    · unfold Daemon.clientActivityCb
      simp only [hd]
      refine h.unlinkClient ?_
      unfold Daemon.clientPid
      split
      · next c hf =>
        exact (hc c (List.mem_of_find?_eq_some hf) (by simpa using List.find?_some hf)).2 hd
      · rfl
    · refine h.sends hkeys ?_ (fun r => ?_) fun r => ?_
      · unfold Daemon.clientActivityCb
        split
        · exact absurd ‹_› hl
        · cases v.findLockById m with
          | none => rfl
          | some m' => exact (Daemon.Frame.grantNextElse_sendUnlock v m' m').clients
        · exact absurd ‹_› hd
        · rfl
      · rw [hcell, if_neg fun h => hl h.1]
        split
        · cases v.findLockById m with
          | none => rfl
          | some m' =>
            dsimp only
            split
            · exact Cell.grantNextOrUnlock_lock _ _
            · rfl
        · rfl
      · rw [hcell, if_neg fun h => hl h.1]
        split
        · cases v.findLockById m with
          | none => exact .of_eq rfl
          | some m' =>
            dsimp only
            split
            · next hr => exact Cell.grantNextOrUnlock_sends hr
            · exact .of_eq rfl
        · exact .of_eq rfl

theorem close (h : Synced T n v) (hme : v.myNodeId = n) (fd : Nat) :
    Synced T n (v.delClient fd) := by
  by_cases h0 : v.clientPid fd = 0
  · unfold Daemon.delClient
    rw [if_pos h0]
    exact h.unlinkClient h0
  · have hkeys := Daemon.keys_delClient v fd
    have hcell := fun r => Daemon.cell_delClient (r := r) v fd
    have hclients : (v.delClient fd).clients = (v.unlinkClient fd).clients :=
      (Daemon.frame_delClient v fd).clients
    rw [if_neg h0] at hkeys
    simp only [if_neg h0, hme] at hcell
    have hsent := fun r => Cell.recoverClient_sends (r := r) (c := v.cell r) n (v.clientPid fd)
    simp only [← hcell] at hsent
    have hpu : (Cell.purgeMsg n (v.clientPid fd)).Purges n (v.clientPid fd) := ⟨rfl, rfl, rfl⟩
    have hmem : Cell.purgeMsg n (v.clientPid fd) ∈ (v.delClient fd).out := by
      rw [← Daemon.purge_mem_cell rfl .empty]
      exact (hsent .empty).sub (List.mem_append_right _ (by simp))
    have hsub : ∀ m ∈ v.out, m ∈ (v.delClient fd).out := by
      intro m hm
      have : m ∈ (v.cell m.resource).sent := Daemon.mem_cell hm
      exact (List.mem_filter.1 ((hsent m.resource).sub (List.mem_append_left _ this))).1
    refine ⟨?_, fun r => ?_, fun r p hp hd => ?_, fun m hm hr => ?_⟩
    · rw [hkeys, hme]
      refine (h.queue.mono fun k _ hp => ?_).filter_left fun k _ hk => ?_
      · rw [Daemon.purging_iff] at hp ⊢
        obtain ⟨hn, m, hm, hpu⟩ := hp
        exact ⟨hn, m, hsub m hm, hpu⟩
      · rw [Daemon.purging_iff]
        simp only [Bool.not_eq_false', Bool.and_eq_true, Bool.or_eq_true, decide_eq_true_eq, h0,
          false_or] at hk
        exact ⟨hk.1, _, hmem, hk.2 ▸ hpu⟩
    · rw [hcell]
      exact (h.lock r).recoverClient _
    · obtain ⟨l, hl, hle⟩ := hsent r
      rw [hl, asks_append, asks_of_ofEntry fun m hm => (hle m hm).1, Cell.send, asks_append]
      by_cases hpp : v.clientPid fd = p
      · simp [asks, CpgLockMsg.ask, CpgLockMsg.AsksFor, CpgLockMsg.Purges, Cell.purgeMsg,
          CpgLockMsg.blank, hpp]
      · have hcon : v.connected p = false := by
          rw [Bool.eq_false_iff] at hd ⊢
          intro hc
          obtain ⟨c, hm, hcp⟩ := Daemon.connected_iff.1 hc
          rcases Daemon.mem_unlinkClient hm fd with hm | hf
          · exact hd (Daemon.connected_iff.2 ⟨c, hclients ▸ hm, hcp⟩)
          · exact hpp (hf.trans hcp)
        have := h.dead r p hp hcon
        simpa [asks, CpgLockMsg.ask, CpgLockMsg.AsksFor, CpgLockMsg.Purges, Cell.purgeMsg,
          CpgLockMsg.blank, hpp, Cell.purge] using this
    · have hm' : m ∈ ((v.delClient fd).cell m.resource).sent := Daemon.mem_cell hm
      obtain ⟨l, hl, hle⟩ := hsent m.resource
      rw [hl] at hm'
      rcases List.mem_append.1 hm' with hm' | hm'
      · rcases List.mem_append.1 hm' with hm' | hm'
        · exact h.mine m (List.mem_filter.1 hm').1 hr
        · rw [List.mem_singleton.1 hm']
          exact ⟨rfl, h0⟩
      · rcases (hle m hm').1 with h | h | h <;> rw [h] at hr <;> simp at hr

/-! ## Deliveries -/

/-- The queues after a message, with what was missing before. -/
theorem requeue (h : Synced T n v) (m : CpgLockMsg) :
    Missing (v.purging n) (m.requeue v.keys) (m.requeue T.queue) := by
  unfold CpgLockMsg.requeue
  split
  · exact h.queue.append _
  · exact h.queue.erase _
  · exact h.queue.erase _
  · exact h.queue.filter _
  · exact h.queue

/-- The delivery of `m`, sent by node `x`, to a daemon of the group. -/
structure Fits (T : Replica) (n : UInt32) (v : Daemon) (x : MemberItem) (m : CpgLockMsg) : Prop where
  me : v.myNodeId = n
  joined : m.request = .lock ∨ m.OfEntry → v.joined = true
  entry : m.OfEntry → T.lock m.resource ≠ none
  member : m.request = .grant → v.lost m.ownerNodeid = false
  real : m.request = .lock ∨ m.request = .grant ∨ m.request = .nak →
    m.ownerPid ≠ 0 ∧ m.ownerNodeid ≠ 0
  own : m.request = .lock ∨ m.request = .purge → m.ownerNodeid = x.nodeid ∧ m.ownerPid ≠ 0

/-- After a delivery the requests of a process without a connection are purged by what waits. -/
theorem dead_deliver (h : Synced T n v) {out : List CpgLockMsg} {x : MemberItem} {m : CpgLockMsg}
    (hf : Fits T n v x m) (hout : v.out = if x.nodeid = n then m :: out else out)
    (hs : ∀ r, Cell.Sends r (({ v with out } : Daemon).cell r) (v'.cell r)) {r : Resource}
    {p : UInt32} (hp : p ≠ 0) (hd : v.connected p = false) :
    asks r n p ((T.deliver m).asked r n p) (v'.cell r).sent = false := by
  have hdead := h.dead r p hp hd
  rw [cell_pop hout] at hdead
  obtain ⟨l, hl, hle⟩ := hs r
  rw [hl, asks_append, asks_of_ofEntry fun m hm => (hle m hm).1]
  have hask := fun hT => Replica.asked_deliver (T := T) (m := m) (r := r) (n := n) (p := p) hT
  dsimp only at hdead
  split at hdead
  · exact asks_false_of_le hask hdead
  · next hno =>
    refine asks_false_of_le (fun hT => ?_) hdead
    have hT := hask hT
    unfold CpgLockMsg.ask at hT
    rw [if_neg] at hT
    · split at hT
      · cases hT
      · exact hT
    · rintro ⟨hlock, hr, hn, -⟩
      exact hno ⟨(hf.own (.inl hlock)).1.symm.trans hn, by simp [CpgLockMsg.concerns, hr]⟩

theorem deliver (h : Synced T n v) {out : List CpgLockMsg} {now : Nat} {x : MemberItem}
    {m : CpgLockMsg} (hf : Fits T n v x m)
    (hout : v.out = if x.nodeid = n then m :: out else out) :
    Synced (T.deliver m) n (({ v with out } : Daemon).deliver now (.msg x m)) := by
  have hstep := fun r => Daemon.cellStep_deliver (r := r) { v with out } now x m
  have hclients := (Daemon.grows_deliver { v with out } now (.msg x m)).clients
  have hlock : m.OfEntry → v.locks.get m.resource ≠ none := by
    intro ho h0
    have ht := h.lock m.resource
    cases hT : T.lock m.resource with
    | none => exact hf.entry ho hT
    | some t =>
      rw [hT] at ht
      obtain ⟨l, hl, -⟩ := ht
      exact absurd (hl.symm.trans h0) (by simp)
  have hkeys := Daemon.keys_deliver { v with out } now x m
    (fun hm => hf.joined (by rcases hm with h | h | h <;> simp [CpgLockMsg.OfEntry, h]))
    (fun hm => ⟨hlock (.inl hm), hf.real (.inr (.inl hm))⟩)
  generalize ({ v with out } : Daemon).deliver now (.msg x m) = v' at hstep hclients hkeys
  have hsent := fun r => (hstep r).sends
  have hcon : ∀ p, v'.connected p = v.connected p := fun p => by
    simp [Daemon.connected, Daemon.findClient, hclients]
  have hdead : ∀ r p, p ≠ 0 → v.connected p = false →
      asks r n p ((T.deliver m).asked r n p) (v'.cell r).sent = false :=
    fun r p hp hd => h.dead_deliver hf hout hsent hp hd
  -- a PURGE that waited waits, or was delivered
  have hD : ∀ k ∈ (T.deliver m).queue, v.purging n k = true → v'.purging n k = true := by
    intro k hk hpu
    rw [Daemon.purging_iff] at hpu ⊢
    obtain ⟨hn, a, ha, hpu⟩ := hpu
    refine ⟨hn, ?_⟩
    by_cases hao : a ∈ out
    · exact ⟨a, Daemon.mem_out_mono (v := { v with out }) hsent hao, hpu⟩
    · rw [hout] at ha
      split at ha
      · obtain rfl := (List.mem_cons.1 ha).resolve_right hao
        simp only [Replica.deliver, CpgLockMsg.requeue, hpu.1, purgeKeys] at hk
        have := (List.mem_filter.1 hk).2
        simp [hn, hpu.2.1, hpu.2.2] at this
      · exact absurd ha hao
  have hmiss := (h.requeue m).mono hD
  refine ⟨?_, fun r => ?_, fun r p hp hd => hdead r p hp ((hcon p).symm.trans hd), fun a ha hr => ?_⟩
  · rcases hkeys with hk | ⟨hm, hmn, hc, hk⟩
    · rw [hk]
      exact hmiss
    · -- the requests of a process that is gone are dropped early
      rw [hk]
      refine hmiss.filter_left fun k hkm hkf => ?_
      have hp := (hf.real (.inr hm)).1
      simp only [Bool.not_eq_false', Bool.and_eq_true, Bool.or_eq_true, decide_eq_true_eq, hp,
        false_or] at hkf
      refine purge_waits (hmiss.sub.subset hkm) (hkf.1.trans hf.me) (hdead _ _ ?_ ?_)
      · rw [hkf.2]
        exact hp
      · rw [hkf.2]
        exact hc
  · have hme : ({ v with out } : Daemon).myNodeId = n := hf.me
    have ht : Tracks r ({ v with out } : Daemon).myNodeId (T.lock r)
        { ({ v with out } : Daemon).cell r with
          sent := (if x.nodeid = n ∧ m.concerns r then [m] else []) ++
            (({ v with out } : Daemon).cell r).sent } := by
      rw [hme, ← cell_pop hout]
      exact h.lock r
    have := ht.step (hstep r) (fun _ hm => hf.joined hm) (by
      rintro rfl hm
      exact ⟨hf.entry (.inl hm), hf.member hm, hf.real (.inr (.inl hm))⟩)
    rwa [hme] at this
  · have ha' := Daemon.mem_out_of_sends (v := { v with out }) hsent ha hr
    exact h.mine a (mem_of_popped hout a ha') hr

end Synced

end Cpglock
