import Cpglock.Group.Proof.Held
import Cpglock.Group.Proof.Synced
import Cpglock.Group.ReplyRouting

/-!
# What is left of a process without a connection

`Settling`: once a process has no connection to its daemon, a PURGE that the daemon is still to be
delivered follows all its requests and LOCKs (`buried`), and for a lock it still holds the message
that ends the holding is on its way (`held`). So when the daemon has been delivered all it sent,
nothing is left.
-/

namespace Cpglock

/-- A daemon is delivered a GRANT in its own name for a lock it knows. -/
def Event.FindsEntry (d : Daemon) : Event → Prop
  | .msg _ m => m.request = .grant → m.ownerNodeid = d.myNodeId → d.joined = true →
    d.locks.get m.resource ≠ none
  | .confchg _ _ _ => True

/-- GRANTs are delivered to their own node when it knows the lock. -/
def Sys.GrantsKnown (s : Sys) : Act → Prop
  | .deliver n => ∀ nd ∈ s.nodes n, ∀ e ∈ s.log[nd.pos]?, e.FindsEntry nd.d
  | _ => True

/-- When a process sends its first LOCK on a connection, the daemon has no lock HELD by it. -/
def Sys.NoLocksLeft (s : Sys) : Act → Prop
  | .recv n fd m => m.request = .lock →
    ∀ nd ∈ s.nodes n, ∀ c ∈ nd.d.clients, c.fd = fd → c.pid = 0 →
      ∀ e ∈ nd.d.locks.entries,
        ¬(e.2.state = .held ∧ e.2.ownerNodeid = n ∧ e.2.ownerPid = m.ownerPid)
  | _ => True

instance (d : Daemon) (e : Event) : Decidable (e.FindsEntry d) := by
  refine e.casesOn ?_ ?_ <;> intros <;> dsimp only [Event.FindsEntry] <;> infer_instance

instance (s : Sys) (a : Act) : Decidable (s.GrantsKnown a) := by
  refine a.casesOn ?_ ?_ ?_ ?_ ?_ ?_ <;> intros <;> dsimp only [Sys.GrantsKnown] <;> infer_instance

instance (s : Sys) (a : Act) : Decidable (s.NoLocksLeft a) := by
  refine a.casesOn ?_ ?_ ?_ ?_ ?_ ?_ <;> intros <;> dsimp only [Sys.NoLocksLeft] <;> infer_instance

/-- Process `p` of node `n` waits in the cell. -/
def Cell.waits (n p : UInt32) (c : Cell) : Bool := c.keys.any fun k => k.nodeid = n ∧ k.pid = p

structure Settling (t : List Obs) (n : UInt32) (v : Daemon) : Prop where
  buried : ∀ r p, p ≠ 0 → v.connected p = false →
    asks r n p ((v.cell r).waits n p) (v.cell r).sent = false
  held : ∀ r l, (v.cell r).lock = some l → l.state = .held → l.ownerNodeid = n →
    (∃ fd, l.key r ∈ received t n fd) ∨
      (l.ownerPid ≠ 0 ∧ v.connected l.ownerPid = false) ∧ ∃ m ∈ (v.cell r).sent, m.Settles r l

/-! ## Lists of messages -/

theorem asks_false_append {r : Resource} {n p : UInt32} {b : Bool} {ms l : List CpgLockMsg}
    (h : asks r n p b ms = false) (hl : ∀ m ∈ l, m.request ≠ .lock) :
    asks r n p b (ms ++ l) = false := by
  rw [asks_append, h]
  induction l with
  | nil => rfl
  | cons m l ih =>
    have hm : m.ask r n p false = false := by
      unfold CpgLockMsg.ask
      rw [if_neg fun ha => hl m List.mem_cons_self ha.1]
      split <;> rfl
    rw [asks, List.foldl_cons, hm]
    exact ih fun m' h' => hl m' (List.mem_cons_of_mem _ h')

theorem Cell.waits_mono {n p : UInt32} {c c' : Cell} (h : c'.keys.Sublist c.keys)
    (hw : c'.waits n p = true) : c.waits n p = true := by
  obtain ⟨k, hk, hkp⟩ := List.any_eq_true.1 hw
  exact List.any_eq_true.2 ⟨k, h.subset hk, hkp⟩

/-! ## Connections -/

namespace Daemon

variable {v : Daemon} {n : UInt32} {fd : Nat} {m : CpgLockMsg} {p : UInt32}

theorem connected_recv (hp : p ≠ 0) (hfd : fd ∈ v.clients.map (·.fd))
    (hlib : ∀ c ∈ v.clients, c.fd = fd → (m.request = .lock → c.pid = 0 ∨ c.pid = m.ownerPid) ∧
      (m.request = .dump → c.pid = 0)) (h : (v.clientActivityCb fd m).connected p = false) :
    v.connected p = false ∧ (m.request = .lock → p ≠ m.ownerPid) := by
  have hno : ∀ c ∈ (v.clientActivityCb fd m).clients, c.pid ≠ p := by
    intro c hc hcp
    rw [connected_iff.2 ⟨c, hc, hcp⟩] at h
    cases h
  rw [clients_clientActivityCb] at hno
  rw [Bool.eq_false_iff]
  split at hno
  · next hm =>
    have hset : ∀ c ∈ v.clients, (if c.fd = fd then { c with pid := m.ownerPid } else c).pid ≠ p :=
      fun c hc => hno _ (List.mem_map_of_mem (f := fun c : ClientItem =>
        if c.fd = fd then { c with pid := m.ownerPid } else c) hc)
    refine ⟨fun hcon => ?_, ?_⟩
    · obtain ⟨c, hc, hcp⟩ := connected_iff.1 hcon
      have hne := hset c hc
      split at hne
      · next hf =>
        rcases (hlib c hc hf).1 hm with h0 | h0
        · exact hp (hcp.symm.trans h0)
        · exact hne (h0.symm.trans hcp)
      · exact hne hcp
    · rintro - rfl
      obtain ⟨c, hc, hf⟩ := List.mem_map.1 hfd
      have hne := hset c hc
      rw [if_pos hf] at hne
      exact hne rfl
  · next hm =>
    refine ⟨fun hcon => ?_, fun hl => absurd hl hm⟩
    obtain ⟨c, hc, hcp⟩ := connected_iff.1 hcon
    split at hno
    · next hd =>
      by_cases hf : c.fd = fd
      · exact hp (hcp.symm.trans ((hlib c hc hf).2 hd))
      · exact hno c ((List.mem_eraseP_of_neg (by simpa using hf)).2 hc) hcp
    · exact hno c hc hcp

theorem connected_close (h : (v.delClient fd).connected p = false) :
    v.connected p = false ∨ v.clientPid fd = p := by
  by_contra hno
  obtain ⟨hcon, hne⟩ := not_or.1 hno
  obtain ⟨c, hc, hcp⟩ := connected_iff.1 (by simpa using hcon)
  rcases mem_unlinkClient hc fd with hm | hf
  · have hm' : c ∈ (v.delClient fd).clients := (frame_delClient v fd).clients.symm ▸ hm
    rw [connected_iff.2 ⟨c, hm', hcp⟩] at h
    cases h
  · exact hne (hf.trans hcp)

end Daemon

/-- A departed node's entries do not become HELD by this one. -/
theorem Cell.delNode_held {r : Resource} {c : Cell} {me myPid nodeid : UInt32} {o : MemberItem}
    {l : CpgLock} (hl : (c.delNode r me myPid o nodeid).lock = some l)
    (hs : l.state = .held) (ho : l.ownerNodeid = me) : c.lock = some l := by
  unfold delNode at hl
  split at hl
  · next hold =>
    unfold reassign at hl
    split at hl
    · next l₀ hl₀ =>
      split at hl
      · rw [set_lock, hl₀] at hl
        obtain rfl := Option.some.inj hl
        exact absurd ho hold
      · exact hl
    · exact hl
  · unfold recoverNode at hl
    simp only [send_lock, purge_lock] at hl
    split at hl
    · next l₀ hl₀ =>
      have hfree : ∀ c' : Cell, c'.lock = some l → ¬(∃ l₁ : CpgLock, c'.lock = some l₁ ∧ l₁.state = .free) := by
        rintro c' h ⟨l₁, h₁, hf⟩
        obtain rfl := Option.some.inj (h.symm.trans h₁)
        rw [hs] at hf
        cases hf
      split at hl
      · exfalso
        refine hfree _ hl (grantNextElse_induction (r := r)
          (I := fun c => ∃ l₁ : CpgLock, c.lock = some l₁ ∧ l₁.state = .free) (fun c' hc => ?_)
          fun _ => ?_)
        · refine ⟨{ l₀ with state := .free }, ?_, rfl⟩
          rw [grantNext_lock hc, setState_lock, send_lock, purge_lock, hl₀]
          rfl
        · refine ⟨{ l₀ with state := .free, ownerNodeid := me, ownerPid := myPid }, ?_, rfl⟩
          rw [send_lock, take, set_lock, setState_lock, send_lock, purge_lock, hl₀]
          rfl
      · split at hl
        · next hf =>
          exfalso
          refine hfree _ hl (grantNextElse_induction (r := r)
            (I := fun c => ∃ l₁ : CpgLock, c.lock = some l₁ ∧ l₁.state = .free) (fun c' hc => ?_)
            fun _ => ?_)
          · refine ⟨l₀, ?_, hf.2⟩
            rw [grantNext_lock hc, send_lock, purge_lock, hl₀]
          · refine ⟨{ l₀ with ownerNodeid := me, ownerPid := myPid }, ?_, hf.2⟩
            rw [take, set_lock, send_lock, purge_lock, hl₀]
            rfl
        · rwa [send_lock, purge_lock] at hl
    · rwa [send_lock, purge_lock] at hl

/-! ## Steps -/

namespace Settling

variable {t t' : List Obs} {n : UInt32} {v v' : Daemon}

/-- No LOCK comes, no request, connection or lock. -/
theorem mute (h : Settling t n v) (hk : ∀ r, ((v'.cell r).keys).Sublist (v.cell r).keys)
    (hs : ∀ r, Cell.Mute (v.cell r) (v'.cell r))
    (hc : ∀ p, p ≠ 0 → v'.connected p = false → v.connected p = false)
    (hl : ∀ r l, (v'.cell r).lock = some l → l.state = .held → l.ownerNodeid = n →
      (v.cell r).lock = some l)
    (hr : ∀ r l, (v'.cell r).lock = some l → l.state = .held → l.ownerNodeid = n →
      (∃ fd, l.key r ∈ received t n fd) → ∃ fd, l.key r ∈ received t' n fd)
    (hd : ∀ p, p ≠ 0 → v.connected p = false → v'.connected p = false) : Settling t' n v' := by
  refine ⟨fun r p hp hcon => ?_, fun r l hl' hst ho => ?_⟩
  · obtain ⟨ms, hms, hno⟩ := hs r
    rw [hms]
    exact asks_false_append (asks_false_of_le (Cell.waits_mono (hk r))
      (h.buried r p hp (hc p hp hcon))) hno
  · rcases h.held r l (hl r l hl' hst ho) hst ho with hrec | ⟨⟨h0, hcon⟩, m, hm, hset⟩
    · exact .inl (hr r l hl' hst ho hrec)
    · obtain ⟨ms, hms, -⟩ := hs r
      exact .inr ⟨⟨h0, hd _ h0 hcon⟩, m, hms ▸ List.mem_append_left _ hm, hset⟩

theorem message (h : Settling t n v) (howed : Owed t n v) (hplain : Plain n v)
    {out : List CpgLockMsg} {pos : Nat} {x : MemberItem} {m : CpgLockMsg}
    (hout : v.out = if x.nodeid = n then m :: out else out) (hown : OwnLock [] x.nodeid m)
    (hreal : RealMsg [] x.nodeid m) (hfind : (Event.msg x m).FindsRequest v)
    (hknown : (Event.msg x m).FindsEntry v) (ht : ∀ fd, received t' n fd = received t n fd) :
    Settling t' n (({ v with out } : Daemon).deliver pos (.msg x m)) := by
  let u : Daemon := { v with out }
  have hcon : ∀ p, (u.deliver pos (.msg x m)).connected p = v.connected p := by
    intro p
    rw [Daemon.connected, Daemon.findClient, (Daemon.grows_deliver ..).clients]
    rfl
  have hjoined : ∀ r, (u.cell r).lock ≠ none → u.joined = true := by
    intro r hl
    by_contra hj
    exact hl (hplain.empty (by simpa [u] using hj) r)
  refine ⟨fun r p hp hd => ?_, fun r l hl hst ho => ?_⟩
  · have hstep := Daemon.cellStep_deliver (r := r) u pos x m
    obtain ⟨ms, hms, hno⟩ := hstep.sends.mute
    rw [hms]
    refine asks_false_append ?_ hno
    have hb := h.buried r p hp ((hcon p).symm.trans hd)
    rw [cell_pop hout r, asks_append] at hb
    refine asks_false_of_le (fun hw => ?_) hb
    -- who waits waited before, or asks by the message, which then is an own one
    obtain ⟨k, hk, hkp⟩ := List.any_eq_true.1 hw
    obtain ⟨hkn, hkp⟩ := of_decide_eq_true hkp
    have hmem := hstep.keys_sublist.subset hk
    rcases List.mem_append.1 hmem with hold | hnew
    · have hwaits : (u.cell r).waits n p = true :=
        List.any_eq_true.2 ⟨k, hold, decide_eq_true ⟨hkn, hkp⟩⟩
      show asks r n p ((u.cell r).waits n p) _ = true
      rw [hwaits]
      split
      · show m.ask r n p true = true
        unfold CpgLockMsg.ask
        split
        · rfl
        · split
          · next hpu =>
            -- the PURGE has taken the request off
            exfalso
            rw [hstep.purged hpu.1, mem_purgeKeys] at hk
            exact hk.2 ⟨hkn.trans hpu.2.1.symm, .inr (hkp.trans hpu.2.2.symm)⟩
          · rfl
      · rfl
    · split at hnew
      · next hm =>
        rw [List.mem_singleton.1 hnew] at hkn hkp
        have hx : x.nodeid = n := (hown hm.1).symm.trans hkn
        rw [if_pos ⟨hx, by simp [CpgLockMsg.concerns, hm.2]⟩]
        show m.ask r n p _ = true
        unfold CpgLockMsg.ask
        rw [if_pos ⟨hm.1, hm.2, hkn, hkp⟩]
      · cases hnew
  · have hstep := Daemon.cellStep_deliver (r := r) u pos x m
    have hreal' : m.request = .grant → m.ownerPid ≠ 0 ∧ m.ownerNodeid ≠ 0 :=
      fun hm => hreal (.inr (.inl hm))
    simp only [ht]
    rcases hstep.held (hjoined r) hreal' hl hst with ⟨hold, hno⟩ | ⟨hj, hm, hmr, hkey⟩
    · refine (h.held r l hold hst ho).imp_right ?_
      rintro ⟨⟨hl0, hd⟩, g, hg, hset⟩
      refine ⟨⟨hl0, (hcon _).trans hd⟩, g, ?_, hset⟩
      rw [cell_pop hout r] at hg
      rcases List.mem_append.1 hg with hg | hg
      · split at hg
        · rw [List.mem_singleton.1 hg] at hset
          exact absurd hset hno
        · cases hg
      · exact hstep.sends.sub hg
    · obtain ⟨hp, h0⟩ := hreal' hm
      have hmn : m.ownerNodeid = n := (congrArg RequestKey.nodeid hkey).symm.trans ho
      have hmp : l.ownerPid = m.ownerPid := congrArg RequestKey.pid hkey
      have hme : m.ownerNodeid = u.myNodeId := hmn.trans hplain.me.symm
      have hentry : u.locks.get m.resource ≠ none := hknown hm hme hj
      cases hc : v.connected m.ownerPid with
      | true =>
        -- the request was queued, so it was asked for
        left
        have hk : m.key ∈ v.keys := hfind hm hme hc hj hentry
        obtain ⟨c, hcm, hcp⟩ := Daemon.connected_iff.1 hc
        have hle := howed c hcm (hcp ▸ hp) m.key hmn hcp.symm
        have hpos : 0 < (v.cell m.resource).keys.count m.key := by
          refine List.count_pos_iff.2 ?_
          rw [Cell.keys, Daemon.keys_cell]
          exact List.mem_filter.2 ⟨hk, by simp [CpgLockMsg.key]⟩
        have hask : 0 < (asked t n c.fd).count m.key := by
          have : (v.cell m.key.resource).claims m.key =
            (v.cell m.resource).keys.count m.key + _ := rfl
          omega
        exact ⟨c.fd, hkey ▸ (asked_sublist t n c.fd).subset (List.count_pos_iff.1 hask)⟩
      | false =>
        right
        rw [hmp]
        refine ⟨⟨hp, (hcon _).trans hc⟩, hstep.passed_on hj hm hmr hp h0 hme hc ?_ hl hst⟩
        rw [← hmr]
        exact hentry

theorem recvLock (h : Settling t n v) {fd : Nat} {m : CpgLockMsg} (hm : m.request = .lock) (hfd : fd ∈ v.clients.map (·.fd))
    (hlib : ∀ c ∈ v.clients, c.fd = fd → (m.request = .lock → c.pid = 0 ∨ c.pid = m.ownerPid) ∧
      (m.request = .dump → c.pid = 0))
    (hleft : ∀ c ∈ v.clients, c.fd = fd → c.pid = 0 → ∀ e ∈ v.locks.entries,
      ¬(e.2.state = .held ∧ e.2.ownerNodeid = n ∧ e.2.ownerPid = m.ownerPid))
    (ht : ∀ f, received t' n f = received (t ++ [.recv n fd m]) n f) :
    Settling t' n (v.clientActivityCb fd m) := by
  have hkeys : ∀ r, ((v.clientActivityCb fd m).cell r).keys = (v.cell r).keys := by
    intro r
    rw [Cell.keys, Cell.keys, Daemon.keys_cell, Daemon.keys_cell, Daemon.keys_clientActivityCb]
  have hgrow : ∀ k, (∃ f, k ∈ received t n f) → ∃ f, k ∈ received t' n f := by
    rintro k ⟨f, hk⟩
    refine ⟨f, ?_⟩
    rw [ht, received_append]
    simp only [List.foldl_cons, List.foldl_nil, Obs.receivedAfter, true_and, hm, if_true]
    split
    · exact List.mem_append_left _ hk
    · exact hk
  refine ⟨fun r p hp hd => ?_, fun r l hl hst ho => ?_⟩
  · obtain ⟨hcon, hne⟩ := Daemon.connected_recv hp hfd hlib hd
    have hb := h.buried r p hp hcon
    rw [Cell.waits, hkeys, Daemon.cell_clientActivityCb]
    split
    · rw [Cell.send, asks_append, ← Cell.waits, hb]
      show CpgLockMsg.ask r n p false _ = false
      unfold CpgLockMsg.ask
      rw [if_neg]
      · split <;> rfl
      · exact fun ha => hne hm ha.2.2.2.symm
    · rw [if_neg (by simp [hm])]
      exact hb
  · rw [Daemon.lock_clientActivityCb] at hl
    rcases h.held r l hl hst ho with hrec | ⟨⟨hl0, hcon⟩, g, hg, hset⟩
    · exact .inl (hgrow _ hrec)
    · have hlp : l.ownerPid ≠ 0 ∨ l.ownerPid = 0 := (Decidable.em _).symm
      have hne : l.ownerPid ≠ m.ownerPid := by
        intro he
        obtain ⟨c, hc, hf⟩ := List.mem_map.1 hfd
        rcases (hlib c hc hf).1 hm with h0 | h0
        · exact hleft c hc hf h0 (r, l) (SortedMap.mem_entries.2 hl) ⟨hst, ho, he⟩
        · rw [Daemon.connected_iff.2 ⟨c, hc, h0.trans he.symm⟩] at hcon
          cases hcon
      refine .inr ⟨⟨hl0, ?_⟩, g, ?_, hset⟩
      · rw [Bool.eq_false_iff] at hcon ⊢
        intro hcon'
        obtain ⟨c, hc, hcp⟩ := Daemon.connected_iff.1 hcon'
        rw [Daemon.clients_clientActivityCb, if_pos hm, Daemon.setClientPid, List.mem_map] at hc
        obtain ⟨c₀, hc₀, rfl⟩ := hc
        split at hcp
        · exact hne hcp.symm
        · exact hcon (Daemon.connected_iff.2 ⟨c₀, hc₀, hcp⟩)
      · rw [Daemon.cell_clientActivityCb]
        split
        · exact List.mem_append_left _ hg
        · rw [if_neg (by simp [hm])]
          exact hg

theorem close (h : Settling t n v) (hconn : Conns t n v) (hme : v.myNodeId = n) {fd : Nat}
    (hfd : fd ∈ v.clients.map (·.fd))
    (ht : ∀ f, received t' n f = received (t ++ [.closed n fd]) n f) :
    Settling t' n (v.delClient fd) := by
  obtain ⟨c, hc, hf⟩ := List.mem_map.1 hfd
  have hpid : v.clientPid fd = c.pid := by
    unfold Daemon.clientPid
    cases hfind : v.clients.find? fun n => n.fd = fd with
    | none => simpa [hf] using List.find?_eq_none.1 hfind c hc
    | some c' =>
      have hf' : c'.fd = fd := by simpa using List.find?_some hfind
      rw [ClientItem.eq_of_fd hconn.fds (List.mem_of_find?_eq_some hfind) hc (hf'.trans hf.symm)]
  have hsub : ∀ p, v.connected p = false → (v.delClient fd).connected p = false := by
    intro p hcon
    rw [Bool.eq_false_iff] at hcon ⊢
    intro hcon'
    obtain ⟨c', hc', hcp⟩ := Daemon.connected_iff.1 hcon'
    rw [(Daemon.frame_delClient v fd).clients] at hc'
    exact hcon (Daemon.connected_iff.2 ⟨c', List.mem_of_mem_eraseP hc', hcp⟩)
  have hheld : ∀ r l, ((v.delClient fd).cell r).lock = some l → l.state = .held →
      (v.cell r).lock = some l ∧
        (c.pid ≠ 0 → ¬(l.ownerNodeid = n ∧ l.ownerPid = c.pid)) := by
    intro r l hl hst
    rw [Daemon.cell_delClient, hpid] at hl
    split at hl
    · next h0 => exact ⟨hl, fun h => absurd h0 h⟩
    · obtain ⟨hl, hno⟩ := Cell.recoverClient_held hl hst
      exact ⟨hl, fun _ => hme ▸ hno⟩
  have hkeep : ∀ k : RequestKey, ¬(k.nodeid = n ∧ k.pid = c.pid ∧ c.pid ≠ 0) →
      (∃ f, k ∈ received t n f) → ∃ f, k ∈ received t' n f := by
    rintro k hno ⟨f, hk⟩
    refine ⟨f, ?_⟩
    obtain ⟨hkn, hk0, hkc⟩ := hconn.received f k hk
    have hne : f ≠ fd := by
      rintro rfl
      have := ClientItem.eq_of_fd hconn.fds hc hkc hf
      subst this
      exact hno ⟨hkn, rfl, hk0⟩
    rw [ht, received_append]
    simpa [Obs.receivedAfter, Ne.symm hne] using hk
  refine ⟨fun r p hp hd => ?_, fun r l hl hst ho => ?_⟩
  · rcases Daemon.connected_close hd with hcon | hcp
    · obtain ⟨ms, hms, hno⟩ := Daemon.mute_delClient (d := v) (r := r) fd
      rw [hms]
      refine asks_false_append (asks_false_of_le (Cell.waits_mono ?_) (h.buried r p hp hcon)) hno
      rw [Daemon.cell_delClient]
      split
      · exact List.Sublist.refl _
      · rw [Cell.keys_recoverClient]
        exact purgeKeys_sublist ..
    · -- the PURGE of the process comes last
      rw [Daemon.cell_delClient, hcp, if_neg hp]
      obtain ⟨ms, hms, hof⟩ := Cell.recoverClient_sends (r := r) (c := v.cell r) v.myNodeId p
      rw [hms, asks_append, asks_of_ofEntry fun m hm => (hof m hm).1, Cell.send, asks_append]
      have hno : ¬(Cell.purgeMsg v.myNodeId p).AsksFor r n p := fun ha => by cases ha.1
      have hyes : (Cell.purgeMsg v.myNodeId p).Purges n p := ⟨rfl, hme, rfl⟩
      show CpgLockMsg.ask r n p _ (Cell.purgeMsg v.myNodeId p) = false
      unfold CpgLockMsg.ask
      rw [if_neg hno, if_pos hyes]
  · obtain ⟨hold, hno⟩ := hheld r l hl hst
    rcases h.held r l hold hst ho with hrec | ⟨⟨hl0, hcon⟩, g, hg, hset⟩
    · exact .inl (hkeep _ (fun h => hno h.2.2 ⟨h.1, h.2.1⟩) hrec)
    · obtain ⟨ms, hms, -⟩ := Daemon.mute_delClient (d := v) (r := r) fd
      exact .inr ⟨⟨hl0, hsub _ hcon⟩, g, hms ▸ List.mem_append_left _ hg, hset⟩

/-- A message other than a LOCK. -/
theorem recvOther (h : Settling t n v) (hconn : Conns t n v) {fd : Nat} {m : CpgLockMsg}
    (hm : m.request ≠ .lock) (hfd : fd ∈ v.clients.map (·.fd))
    (hlib : ∀ c ∈ v.clients, c.fd = fd → (m.request = .lock → c.pid = 0 ∨ c.pid = m.ownerPid) ∧
      (m.request = .dump → c.pid = 0))
    (ht : ∀ f, received t' n f = received (t ++ [.recv n fd m]) n f) :
    Settling t' n (v.clientActivityCb fd m) := by
  have hkeys : ∀ r, ((v.clientActivityCb fd m).cell r).keys = (v.cell r).keys := by
    intro r
    rw [Cell.keys, Cell.keys, Daemon.keys_cell, Daemon.keys_cell, Daemon.keys_clientActivityCb]
  refine h.mute (fun r => hkeys r ▸ List.Sublist.refl _)
    (fun r => Daemon.mute_clientActivityCb fd hm)
    (fun p hp hd => (Daemon.connected_recv hp hfd hlib hd).1) (fun r l hl _ _ => ?_)
    (fun r l _ _ _ hrec => ?_) fun p _ hcon => ?_
  · rwa [Daemon.lock_clientActivityCb] at hl
  · obtain ⟨f, hk⟩ := hrec
    refine ⟨f, ?_⟩
    rw [ht, received_append]
    simp only [List.foldl_cons, List.foldl_nil, Obs.receivedAfter, true_and, hm, if_false]
    split
    · next hf =>
      split
      · next hd =>
        -- nothing was received on a connection that is used for a DUMP
        obtain ⟨-, h0, hc⟩ := hconn.received f _ hk
        exact absurd ((hlib _ hc hf.symm).2 hd) h0
      · exact hk
    · exact hk
  · rw [Bool.eq_false_iff] at hcon ⊢
    intro hcon'
    obtain ⟨c, hc, hcp⟩ := Daemon.connected_iff.1 hcon'
    rw [Daemon.clients_clientActivityCb, if_neg hm] at hc
    split at hc
    · exact hcon (Daemon.connected_iff.2 ⟨c, List.mem_of_mem_eraseP hc, hcp⟩)
    · exact hcon (Daemon.connected_iff.2 ⟨c, hc, hcp⟩)

theorem change (h : Settling t n v) (hme : v.myNodeId = n) {members left join : List MemberItem}
    (ht : ∀ f, received t' n f = received t n f) :
    Settling t' n (v.cpgConfigChange members left join) := by
  have hclients : (v.cpgConfigChange members left join).clients = v.clients :=
    (Daemon.grows_cpgConfigChange ..).clients
  have hcon : ∀ p, (v.cpgConfigChange members left join).connected p = v.connected p := by
    intro p
    rw [Daemon.connected, Daemon.findClient, hclients]
    rfl
  refine h.mute (fun r => ?_) (fun r => Daemon.mute_configChange) (fun p _ hd => (hcon p).symm.trans hd)
    (fun r => ?_) (fun r l _ _ _ hrec => ?_) fun p _ hd => (hcon p).trans hd
  · exact Daemon.cell_configChange_induction
      (I := fun _ c => c.keys.Sublist (v.cell r).keys) (List.Sublist.refl _) (fun _ _ h => h)
      (fun _ _ _ h => h) fun _ _ _ h _ _ _ => (Cell.keys_delNode ..).trans h
  · have key := @Daemon.cell_configChange_induction r (fun g c => g.myNodeId = n ∧ ∀ l : CpgLock,
        c.lock = some l → l.state = .held → l.ownerNodeid = n → (v.cell r).lock = some l)
      v members left join ⟨?_, fun l hl _ _ => hl⟩ (fun _ _ h => h) (fun _ _ _ h => h) ?_
    · exact key.2
    · rw [← hme]
      unfold Membership.setUp
      split <;> rfl
    · intro g c x h _ _ _
      refine ⟨h.1, fun l hl hst ho => h.2 l ?_ hst ho⟩
      exact Cell.delNode_held hl hst (ho.trans h.1.symm)
  · obtain ⟨f, hk⟩ := hrec
    exact ⟨f, by rwa [ht]⟩

theorem step {s : Sys} {t' : List Obs} {n : UInt32} {nd : Node} {a : Act} {v' : Daemon}
    {pos' : Nat} (hs : ViewStep s.log n (nd.view s.log n) nd.pos a v' pos') (hn : s.nodes n = some nd)
    (h : Settling s.trace n (nd.view s.log n)) (howed : Owed s.trace n (nd.view s.log n))
    (hconn : Conns s.trace n nd.d) (hplain : Plain n (nd.view s.log n))
    (hown : Ordered OwnLock s.log) (hreal : Ordered RealMsg s.log) (hp : s.OneAtATime a)
    (hleft : s.NoLocksLeft a) (hknown : s.GrantsKnown a)
    (ht : ∀ f, received t' n f = received (s.trace ++ a.seen) n f) : Settling t' n v' := by
  have hconn' : Conns s.trace n (nd.view s.log n) := ⟨hconn.fds, hconn.pids, hconn.received⟩
  obtain ⟨⟨hlib, -⟩, -, hqueued⟩ := hp
  cases hs with
  | @msg x m out he hout =>
    simp only [Act.seen, List.append_nil] at ht
    exact h.message howed hplain hout (hown _ x m he) (hreal _ x m he) (hqueued nd hn _ he)
      (hknown nd hn _ he) ht
  | @change members left join he =>
    simp only [Act.seen, List.append_nil] at ht
    exact h.change hplain.me ht
  | @connect fd hfd =>
    simp only [Act.seen, List.append_nil] at ht
    have hcon : ∀ p, p ≠ 0 → (((nd.view s.log n).insertClient fd).connected p = false ↔
        (nd.view s.log n).connected p = false) := by
      intro p hp
      simp only [Bool.eq_false_iff, ne_eq, Daemon.connected_iff, Daemon.insertClient,
        List.mem_append, List.mem_singleton]
      refine not_congr ⟨?_, ?_⟩
      · rintro ⟨c, hc | rfl, hcp⟩
        · exact ⟨c, hc, hcp⟩
        · exact absurd hcp.symm hp
      · rintro ⟨c, hc, hcp⟩
        exact ⟨c, .inl hc, hcp⟩
    refine ⟨fun r p hp hd => h.buried r p hp ((hcon p hp).1 hd), fun r l hl hst ho => ?_⟩
    rcases h.held r l hl hst ho with ⟨f, hk⟩ | ⟨⟨h0, hd⟩, hg⟩
    · exact .inl ⟨f, by rwa [ht]⟩
    · exact .inr ⟨⟨h0, (hcon _ h0).2 hd⟩, hg⟩
  | @recv fd m hfd =>
    by_cases hm : m.request = .lock
    · exact h.recvLock hm hfd (hlib.2 nd hn) (hleft hm nd hn) ht
    · exact h.recvOther hconn' hm hfd (hlib.2 nd hn) ht
  | @close fd hfd => exact h.close hconn' hplain.me hfd ht

end Settling

/-- The promises under which nothing is left of a closed connection. -/
def Sys.Recovers (s : Sys) (a : Act) : Prop :=
  s.OneAtATime a ∧ s.NoLocksLeft a ∧ s.GrantsKnown a

instance (s : Sys) (a : Act) : Decidable (s.Recovers a) := by
  unfold Sys.Recovers
  infer_instance

theorem Settling.of_ne {t l : List Obs} {n : UInt32} {v : Daemon} (h : Settling t n v)
    (hl : ∀ o ∈ l, o.node ≠ n) : Settling (t ++ l) n v := by
  refine ⟨h.buried, fun r l hl' hst ho => (h.held r l hl' hst ho).imp_left ?_⟩
  rintro ⟨fd, hk⟩
  exact ⟨fd, by rwa [received_of_ne hl]⟩

theorem Runs.settling {P : Sys → Act → Prop} (hP : ∀ s a, P s a → s.Recovers a) {s : Sys}
    (h : Runs P .init s) : ∀ n nd, s.nodes n = some nd → Settling s.trace n (nd.view s.log n) := by
  have hP' : ∀ s a, P s a → s.OneAtATime a := fun s a hp => (hP s a hp).1
  refine Transition.Run.invariant_of h (J := fun s => s.Base ∧ s.Routed ∧
      ∀ n nd, s.nodes n = some nd → Plain n (nd.view s.log n))
    (I := fun s => ∀ n nd, s.nodes n = some nd → Settling s.trace n (nd.view s.log n))
    (fun h => ⟨Runs.base hP' h, Runs.routed hP' h,
      (Runs.plain (fun s a hp => (hP' s a hp).1.1.hasPid) h).2⟩)
    (by intro n nd hn; cases hn) fun {s s' a} hj _ hi hp hs => ?_
  obtain ⟨hb, hr, hplain⟩ := hj
  refine Sys.traced_step (I := Settling) hs hb.sound.bounded (fun _ _ _ _ h => h.of_ne)
    (fun _ _ _ _ _ _ x _ b => ⟨fun r p hp hd => ?_, fun r l hl => ?_⟩)
    (fun n nd d pos cause seen hn hl hset => ?_) hi
  · have hs : ((Daemon.start x b).cell r).sent = [] ∨
        ((Daemon.start x b).cell r).sent = [{ CpgLockMsg.blank .join with ownerNodeid := x.nodeid }] := by
      simp only [Daemon.cell, Daemon.start, Daemon.sendJoin, Daemon.sendLockMsg, List.nil_append,
        List.filter_cons, List.filter_nil]
      split
      · exact .inr rfl
      · exact .inl rfl
    rcases hs with hs | hs <;> rw [hs] <;> rfl
  · cases hl
  · obtain ⟨hone, hleft, hknown⟩ := hP s a hp
    obtain rfl := hl.seen_eq
    exact hset.step hl.viewStep hn (hr.owed n nd hn) (hb.linked.node n nd hn) (hplain n nd hn) hb.own
      hb.real hone hleft hknown fun f => received_effects cause nd.d d

end Cpglock
