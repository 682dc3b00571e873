import Cpglock.Group.Proof.Connections

/-!
# Every request that is on its way was asked for on its connection

`Owed`: the requests of a connected process that are queued at its own daemon, or come to it in
LOCKs, are no more than those asked on its connection. It needs that nothing of an earlier connection
of the process is left when it sends its first LOCK (`Sys.FreshStart`), and that a GRANT finds its
request queued (`Sys.GrantsQueued`).
-/

namespace Cpglock

/-- When a process sends its first LOCK on a connection, no request of it is queued at the daemon, and
the daemon waits for no LOCK of it. -/
def Sys.FreshStart (s : Sys) : Act → Prop
  | .recv n fd m => m.request = .lock →
    ∀ nd ∈ s.nodes n, ∀ c ∈ nd.d.clients, c.fd = fd → c.pid = 0 →
      (∀ k ∈ nd.d.keys, ¬(k.nodeid = n ∧ k.pid = m.ownerPid)) ∧
        ∀ g ∈ (nd.view s.log n).out, g.request = .lock → g.ownerPid ≠ m.ownerPid
  | _ => True

/-- A GRANT for a process that is connected here finds its request, if it finds an entry. -/
def Event.FindsRequest (d : Daemon) : Event → Prop
  | .msg _ m => m.request = .grant → m.ownerNodeid = d.myNodeId → d.connected m.ownerPid = true →
    d.joined = true → d.locks.get m.resource ≠ none → m.key ∈ d.keys
  | .confchg _ _ _ => True

/-- GRANTs are delivered to their own node while their requests are queued. -/
def Sys.GrantsQueued (s : Sys) : Act → Prop
  | .deliver n => ∀ nd ∈ s.nodes n, ∀ e ∈ s.log[nd.pos]?, e.FindsRequest nd.d
  | _ => True

instance (s : Sys) (a : Act) : Decidable (s.FreshStart a) := by
  refine a.casesOn ?_ ?_ ?_ ?_ ?_ ?_ <;> intros <;> dsimp only [Sys.FreshStart] <;> infer_instance

instance (d : Daemon) (e : Event) : Decidable (e.FindsRequest d) := by
  refine e.casesOn ?_ ?_ <;> intros <;> dsimp only [Event.FindsRequest] <;> infer_instance

instance (s : Sys) (a : Act) : Decidable (s.GrantsQueued a) := by
  refine a.casesOn ?_ ?_ ?_ ?_ ?_ ?_ <;> intros <;> dsimp only [Sys.GrantsQueued] <;> infer_instance

/-! ## LOCKs name their sender's node -/

/-- A LOCK names the node that sent it. -/
def OwnLock (_ : List Event) (x : UInt32) (m : CpgLockMsg) : Prop :=
  m.request = .lock → m.ownerNodeid = x

theorem OwnLock.step {log : List Event} {n : UInt32} {v v' : Daemon} {pos pos' : Nat} {a : Act}
    (h : ∀ m ∈ v.out, OwnLock [] n m) (hme : v.myNodeId = n) (hs : ViewStep log n v pos a v' pos') :
    ∀ m ∈ v'.out, OwnLock [] n m := by
  intro g hg hl
  cases hs with
  | @msg x m out he hout =>
    have hg := Daemon.mem_out_of_mute (v := { v with out })
      (fun r => (Daemon.cellStep_deliver (r := r) _ pos x m).sends.mute) hg hl
    exact h g (mem_of_popped hout g hg) hl
  | @change members left join he =>
    exact h g (Daemon.mem_out_of_mute (v := v) (fun r => Daemon.mute_configChange) hg hl) hl
  | connect hfd => exact h g hg hl
  | @recv fd m hfd =>
    by_cases hm : m.request = .lock
    · simp only [Daemon.clientActivityCb, hm, Daemon.sendLock, Daemon.sendLockMsg] at hg
      rcases List.mem_append.1 hg with hg | hg
      · exact h g hg hl
      · rw [List.mem_singleton.1 hg]
        exact hme
    · exact h g (Daemon.mem_out_of_mute (fun r => Daemon.mute_clientActivityCb fd hm) hg hl) hl
  | @close fd hfd => exact h g (Daemon.mem_out_of_mute (fun r => Daemon.mute_delClient fd) hg hl) hl

theorem Runs.ownLock {P : Sys → Act → Prop} {s : Sys} (h : Runs P .init s) :
    Ordered OwnLock s.log := by
  refine (h.rule (L := OwnLock) (I := fun _ n v => v.myNodeId = n ∧ ∀ m ∈ v.out, OwnLock [] n m)
    Sys.sound_init (by intro k x m h; simp [Sys.init] at h) (by intro n nd h; cases h) ?_ ?_ ?_).2.1
  · intro s members left join boot _ _ _ _ x b _ _
    refine ⟨rfl, fun m hm hl => ?_⟩
    rw [List.mem_singleton.1 (show m ∈ [_] from hm)] at hl
    cases hl
  · exact fun s n nd m out _ _ _ _ hv hn hout => (hv n nd hn).2 m (Node.mem_view hout)
  · intro s a n nd v pos hs _ _ _ hv hn _ hvs
    refine ⟨?_, OwnLock.step (hv n nd hn).2 (hv n nd hn).1 hvs⟩
    have hme := (hv n nd hn).1
    cases hvs with
    | msg => exact (Daemon.myNodeId_deliver ..).trans hme
    | change => exact (Daemon.myNodeId_deliver ..).trans hme
    | connect => exact hme
    | @recv fd m =>
      exact (congrArg Membership.myNodeId (Daemon.clientActivityCb_out _ fd m).1).trans hme
    | @close fd =>
      exact (congrArg Membership.myNodeId (Daemon.frame_delClient _ fd).membership).trans hme

/-! ## What is owed -/

/-- What a client's act is seen as. -/
def Act.seen : Act → List Obs
  | .recv n fd m => [.recv n fd m]
  | .close n fd => [.closed n fd]
  | _ => []

theorem Sys.Local.seen_eq {s : Sys} {n : UInt32} {nd : Node} {a : Act} {d : Daemon} {pos : Nat}
    {cause : Option Nat} {seen : List Obs} (h : s.Local n nd a d pos cause seen) : seen = a.seen := by
  cases h <;> rfl

/-- The claims of a connected process are covered by what was asked on its connection. -/
def Owed (t : List Obs) (n : UInt32) (v : Daemon) : Prop :=
  ∀ c ∈ v.clients, c.pid ≠ 0 → ∀ k : RequestKey, k.nodeid = n → k.pid = c.pid →
    (v.cell k.resource).claims k ≤ (asked t n c.fd).count k

namespace Owed

variable {t t' : List Obs} {n : UInt32} {v v' : Daemon}

/-- Claims may go, connections may go. -/
theorem mono (h : Owed t n v) (hc : ∀ c ∈ v'.clients, c.pid ≠ 0 → c ∈ v.clients)
    (hk : ∀ k, (v'.cell k.resource).claims k ≤ (v.cell k.resource).claims k)
    (ht : ∀ c ∈ v'.clients, asked t' n c.fd = asked t n c.fd) : Owed t' n v' := by
  intro c hcm h0 k hkn hkp
  rw [ht c hcm]
  exact (hk k).trans (h c (hc c hcm h0) h0 k hkn hkp)

theorem recvLock (h : Owed t n v) {fd : Nat} {m : CpgLockMsg}
    (hme : v.myNodeId = n) (hm : m.request = .lock)
    (hone : ∀ c ∈ v.clients, c.pid = m.ownerPid → c.fd = fd)
    (hlib : ∀ c ∈ v.clients, c.fd = fd → c.pid = 0 ∨ c.pid = m.ownerPid)
    (hfresh : ∀ c ∈ v.clients, c.fd = fd → c.pid = 0 →
      (∀ k ∈ v.keys, ¬(k.nodeid = n ∧ k.pid = m.ownerPid)) ∧
        ∀ g ∈ v.out, g.request = .lock → g.ownerPid ≠ m.ownerPid)
    (ht : ∀ f, asked t' n f = asked (t ++ [.recv n fd m]) n f) :
    Owed t' n (v.clientActivityCb fd m) := by
  intro c hc h0 k hkn hkp
  rw [Daemon.claims_clientActivityCb, ht, asked_append, hme]
  simp only [List.foldl_cons, List.foldl_nil, Obs.askedAfter, Obs.receivedAfter, true_and, hm,
    if_true]
  rw [Daemon.clients_clientActivityCb, if_pos hm, Daemon.setClientPid, List.mem_map] at hc
  obtain ⟨c₀, hc₀, rfl⟩ := hc
  by_cases hf : c₀.fd = fd
  · -- the LOCK's own connection
    simp only [hf, if_true] at hkp ⊢
    have hold : (v.cell k.resource).claims k ≤ (asked t n fd).count k := by
      rcases hlib c₀ hc₀ hf with hp | hp
      · obtain ⟨hkeys, hout⟩ := hfresh c₀ hc₀ hf hp
        have hk0 : (v.cell k.resource).keys.count k = 0 := by
          refine List.count_eq_zero.2 fun hk => ?_
          rw [Cell.keys, Daemon.keys_cell] at hk
          exact hkeys k (List.mem_filter.1 hk).1 ⟨hkn, hkp⟩
        have hs0 : (v.cell k.resource).sent.countP (·.Asks k) = 0 := by
          refine List.countP_eq_zero.2 fun g hg ha => ?_
          obtain ⟨hgl, hgk⟩ := of_decide_eq_true ha
          refine hout g (List.mem_filter.1 hg).1 hgl ?_
          exact (congrArg RequestKey.pid hgk).trans hkp
        rw [Cell.claims, hk0, hs0]
        exact Nat.zero_le _
      · subst hf
        exact h c₀ hc₀ (fun h => h0 (by simpa [h] using hp.symm)) k hkn (hkp.trans hp.symm)
    rw [List.count_append, List.count_singleton]
    simp only [CpgLockMsg.Asks, true_and, beq_iff_eq]
    omega
  · -- another connection, of another process
    simp only [hf, if_false] at h0 hkp ⊢
    rw [if_neg (Ne.symm hf), if_neg]
    · exact h c₀ hc₀ h0 k hkn hkp
    · rintro ⟨-, hk⟩
      exact hf (hone c₀ hc₀ (hkp.symm.trans (congrArg RequestKey.pid hk).symm))

/-- No own claim comes by a delivery. -/
theorem claims_message {out : List CpgLockMsg} {pos : Nat} {x : MemberItem} {m : CpgLockMsg}
    (hout : v.out = if x.nodeid = n then m :: out else out) (hown : OwnLock [] x.nodeid m)
    {k : RequestKey} (hk : k.nodeid = n) :
    ((({ v with out } : Daemon).deliver pos (.msg x m)).cell k.resource).claims k ≤
        (v.cell k.resource).claims k ∧
      (({ v with out } : Daemon).cell k.resource).claims k ≤ (v.cell k.resource).claims k := by
  have hstep := (Daemon.cellStep_deliver (r := k.resource) ({ v with out } : Daemon) pos x m).claims k
  have hpop : (v.cell k.resource).claims k = (({ v with out } : Daemon).cell k.resource).claims k +
      if x.nodeid = n ∧ m.Asks k then 1 else 0 := by
    rw [cell_pop hout, Cell.claims, Cell.claims, List.countP_append]
    have hcount : (if x.nodeid = n ∧ m.concerns k.resource = true then [m] else []).countP
        (·.Asks k) = if x.nodeid = n ∧ m.Asks k then 1 else 0 := by
      by_cases ha : m.Asks k
      · have hc : m.concerns k.resource = true := by
          simp [CpgLockMsg.concerns, congrArg RequestKey.resource ha.2.symm, CpgLockMsg.key]
        by_cases hx : x.nodeid = n <;> simp [ha, hc, hx]
      · split <;> simp [ha]
    rw [hcount, Cell.keys, Cell.keys]
    simp only [Daemon.cell]
    omega
  refine ⟨?_, by omega⟩
  -- an own LOCK was waiting
  have hle : (if m.Asks k ∧ m.resource = k.resource then 1 else 0) ≤
      if x.nodeid = n ∧ m.Asks k then 1 else 0 := by
    by_cases ha : m.Asks k
    · have hx : x.nodeid = n := by
        rw [← hown ha.1, ← hk, ← ha.2]
        rfl
      simp only [ha, hx, true_and, and_true, if_true]
      split <;> omega
    · simp [ha]
  omega

/-- At most one reply, to the process's connection, for a request asked on it. -/
def Due (t : List Obs) (n : UInt32) (v : Daemon) (rs : List (Nat × CpgLockMsg)) : Prop :=
  rs = [] ∨ ∃ fd g, rs = [(fd, g)] ∧ g.key ∈ asked t n fd ∧ g.key.pid ≠ 0 ∧
    ⟨fd, g.key.pid⟩ ∈ v.clients

/-- The answer to a queued request is written to its connection, if there is one. -/
theorem answer (h : Owed t n v) (hconn : Conns t n v) (hv : v'.clients = v.clients)
    {k : RequestKey} {g : CpgLockMsg} (hg : g.key = k) (hk0 : k.pid ≠ 0) (hkn : k.nodeid = n)
    (hle : ∀ k : RequestKey, k.nodeid = n →
      (v'.cell k.resource).claims k ≤ (v.cell k.resource).claims k)
    (hless : v.connected k.pid = true →
      (v'.cell k.resource).claims k + 1 ≤ (v.cell k.resource).claims k)
    (ht : ∀ f, asked t' n f = (v.written k.pid g).foldl
      (fun ks p => if p.1 = f then ks.erase p.2.key else ks) (asked t n f)) :
    Owed t' n v' ∧ Due t n v (v.written k.pid g) := by
  unfold Due
  unfold Daemon.written at ht ⊢
  cases hf : v.findClient k.pid with
  | none =>
    simp only [hf, Option.toList_none, List.map_nil, List.foldl_nil] at ht
    refine ⟨fun c hc h0 k' hkn' hkp' => ?_, .inl rfl⟩
    rw [ht]
    exact (hle k' hkn').trans (h c (hv ▸ hc) h0 k' hkn' hkp')
  | some c =>
    have hc : c ∈ v.clients := List.mem_of_find?_eq_some hf
    have hcp : c.pid = k.pid := by simpa using List.find?_some hf
    have hlt := hless (by rw [Daemon.connected, hf]; rfl)
    simp only [hf, Option.toList_some, List.map_cons, List.map_nil, List.foldl_cons,
      List.foldl_nil, hg] at ht
    have hown := h c hc (hcp ▸ hk0) k hkn hcp.symm
    refine ⟨fun c' hc' h0 k' hkn' hkp' => ?_, .inr ⟨c.fd, g, rfl, ?_⟩⟩
    · rw [hv] at hc'
      have hold := h c' hc' h0 k' hkn' hkp'
      have hle' := hle k' hkn'
      rw [ht]
      split
      · next he =>
        obtain rfl := ClientItem.eq_of_fd hconn.fds hc hc' he
        by_cases hkk : k' = k
        · subst hkk
          rw [List.count_erase_self]
          omega
        · rw [List.count_erase_of_ne hkk]
          omega
      · omega
    · rw [hg]
      have hpos : 0 < (asked t n c.fd).count k := by omega
      refine ⟨List.count_pos_iff.1 hpos, hk0, ?_⟩
      rw [← hcp]
      exact hc

theorem message (h : Owed t n v) (hconn : Conns t n v) (hme : v.myNodeId = n)
    {out : List CpgLockMsg} {pos : Nat} {x : MemberItem} {m : CpgLockMsg}
    (hout : v.out = if x.nodeid = n then m :: out else out) (hown : OwnLock [] x.nodeid m)
    (hreal : RealMsg [] x.nodeid m) (hfind : (Event.msg x m).FindsRequest v)
    {rs : List (Nat × CpgLockMsg)}
    (hrs : (({ v with out } : Daemon).deliver pos (.msg x m)).replies = v.replies ++ rs)
    (ht : ∀ f, asked t' n f =
      rs.foldl (fun ks p => if p.1 = f then ks.erase p.2.key else ks) (asked t n f)) :
    Owed t' n (({ v with out } : Daemon).deliver pos (.msg x m)) ∧ Due t n v rs := by
  let u : Daemon := { v with out }
  have hclients : (u.deliver pos (.msg x m)).clients = v.clients := (Daemon.grows_deliver ..).clients
  have hle : ∀ k : RequestKey, k.nodeid = n →
      ((u.deliver pos (.msg x m)).cell k.resource).claims k ≤ (v.cell k.resource).claims k :=
    fun k hk => (claims_message hout hown hk).1
  -- the cases in which something is written
  have key : ∀ g : CpgLockMsg, g.key = m.key → rs = v.written m.ownerPid g →
      m.ownerNodeid = n → m.ownerPid ≠ 0 →
      (v.connected m.ownerPid = true →
        ((u.deliver pos (.msg x m)).cell m.resource).claims m.key + 1 ≤
          (u.cell m.resource).claims m.key) →
      Owed t' n (u.deliver pos (.msg x m)) ∧ Due t n v rs := by
    rintro g hg rfl hn hp hless
    exact h.answer hconn hclients hg hp hn hle (fun hc =>
      (hless hc).trans (@claims_message _ _ _ pos _ _ hout hown _ hn).2) ht
  have hstep := Daemon.cellStep_deliver (r := m.resource) u pos x m
  rcases Daemon.writes_deliver u pos x m with hs | ⟨hj, hm, hn, hl, -, -, hw⟩ |
    ⟨hj, hm, hn, ⟨q, hq, hqk⟩, -, -, hw⟩
  · have hnil : rs = [] := by
      have := hrs.symm.trans hs.replies
      simpa [u] using this
    subst hnil
    refine ⟨fun c hc h0 k hkn hkp => ?_, .inl rfl⟩
    rw [ht]
    exact (hle k hkn).trans (h c (hclients ▸ hc) h0 k hkn hkp)
  · have hn' : m.ownerNodeid = n := hn.trans hme
    obtain ⟨hp, h0⟩ := hreal (.inr (.inl hm))
    refine key (u.grantReply m) ?_ (List.append_cancel_left (hrs.symm.trans hw)) hn' hp fun hc => ?_
    · simp only [CpgLockMsg.key, Daemon.grantReply, hn]
    · have hk : m.key ∈ v.keys := hfind hm hn hc hj hl
      refine hstep.answered hj (.inl ⟨hm, hl, hp, h0⟩) ?_
      rw [Cell.keys, Daemon.keys_cell]
      exact List.mem_filter.2 ⟨hk, by simp [CpgLockMsg.key]⟩
  · have hn' : m.ownerNodeid = n := hn.trans hme
    obtain ⟨hp, h0⟩ := hreal (.inr (.inr hm))
    refine key (u.nakReply m) ?_ (List.append_cancel_left (hrs.symm.trans hw)) hn' hp fun hc => ?_
    · simp only [CpgLockMsg.key, Daemon.nakReply, hn]
    · refine hstep.answered hj (.inr hm) ?_
      rw [Cell.keys, Daemon.keys_cell]
      exact List.mem_filter.2 ⟨List.mem_map.2 ⟨q, hq, hqk⟩, by simp [CpgLockMsg.key]⟩

end Owed

end Cpglock
