import Cpglock.Group.Proof.Recovery

/-!
# A closed connection's requests and locks

`del_client` recovers what belongs to the pid of the connection. If a process has one connection at a
time this is what came from the connection, and nothing else (`Recovered`); and once a daemon has been
delivered all it sent, every request and every HELD lock of its node came from a connection that is
still open (`Settled`). With two connections of a process the recovery of one takes the locks of
both (`recovers_too_much`).
-/

namespace Cpglock

/-- How daemon `d` removes connection `fd`: by `del_client` or on a DUMP. -/
inductive Removes (n : UInt32) (fd : Nat) (d : Daemon) : Act → Daemon → Prop
  | close : Removes n fd d (.close n fd) (d.delClient fd)
  | dump {m : CpgLockMsg} : m.request = .dump → Removes n fd d (.recv n fd m) (d.clientActivityCb fd m)

/-- The daemon is delivered messages of its own. -/
def Daemon.deliverOwn (d : Daemon) (now : Nat) (ms : List CpgLockMsg) : Daemon :=
  ms.foldl (fun d m => d.deliver now (.msg ⟨d.myNodeId, d.myPid⟩ m)) d

/-- From `d`, by the removal of connection `fd` and the delivery of the messages `ms` it caused, to
`d'`: what came from the connection is gone, what came from other connections and nodes is not. -/
structure Recovered (t : List Obs) (n : UInt32) (fd : Nat) (d d' : Daemon) (ms : List CpgLockMsg) :
    Prop where
  purged : ∀ k ∈ received t n fd, k ∉ d'.keys
  released : ∀ r l, d'.locks.get r = some l → l.state = .held → l.key r ∉ received t n fd
  requests : ∀ k ∈ d.keys, (k.nodeid ≠ n ∨ ∃ fd', fd' ≠ fd ∧ k ∈ received t n fd') →
    k ∈ d'.keys ∨ ∃ m ∈ ms, m.Grants k
  locks : ∀ r l, d.locks.get r = some l → l.state = .held →
    (l.ownerNodeid ≠ n ∨ ∃ fd', fd' ≠ fd ∧ l.key r ∈ received t n fd') → d'.locks.get r = some l

/-- Nothing is left of connections that are closed. -/
structure Settled (t : List Obs) (n : UInt32) (d : Daemon) : Prop where
  requests : ∀ k ∈ d.keys, k.nodeid = n → ∃ fd, k ∈ asked t n fd
  locks : ∀ r l, d.locks.get r = some l → l.state = .held → l.ownerNodeid = n →
    ∃ fd, l.key r ∈ received t n fd

/-! ## The messages of the recovery -/

namespace Cell

variable {c : Cell} {r : Resource} {me pid : UInt32}

theorem recoverClient_none (hl : c.lock = none) :
    c.recoverClient r me pid = (c.purge me pid).send (purgeMsg me pid) := by
  unfold recoverClient
  dsimp only
  split
  · next hl' => exact absurd (hl'.symm.trans hl) (by simp)
  · rfl

theorem recoverClient_some {l : CpgLock} (hl : c.lock = some l) : c.recoverClient r me pid =
    if l.ownerNodeid = me ∧ l.ownerPid = pid ∧ l.state = .held then
      (((c.purge me pid).send (purgeMsg me pid)).setState .free).grantNextOrUnlock r
        { CpgLockMsg.blank .purge with resource := r, ownerNodeid := me, ownerPid := pid }
    else (c.purge me pid).send (purgeMsg me pid) := by
  unfold recoverClient
  dsimp only
  split
  · next l' hl' =>
    obtain rfl := Option.some.inj (hl.symm.trans hl')
    rfl
  · next hl' => exact absurd (hl'.symm.trans hl) (by simp)

end Cell

namespace Daemon

/-- The lock is HELD by process `p` of node `n`. -/
def Holds (d : Daemon) (n p : UInt32) (r : Resource) : Prop :=
  ∃ l, d.locks.get r = some l ∧ l.ownerNodeid = n ∧ l.ownerPid = p ∧ l.state = .held

theorem delClient_out (d : Daemon) (fd : Nat) :
    (d.delClient fd).out = d.out ++ (d.delClient fd).out.drop d.out.length := by
  obtain ⟨ms, hms, -⟩ := (frame_delClient d fd).out
  rw [hms, show (d.unlinkClient fd).out = d.out from rfl, List.drop_left]

/-- `del_client` sends its PURGE, and GRANTs and UNLOCKs for the locks of the process. -/
theorem mem_delClient_out {d : Daemon} {fd : Nat} (hp : d.clientPid fd ≠ 0) {m : CpgLockMsg}
    (hm : m ∈ (d.delClient fd).out.drop d.out.length) :
    m = Cell.purgeMsg d.myNodeId (d.clientPid fd) ∨
      d.Holds d.myNodeId (d.clientPid fd) m.resource ∧
        (m.request = .unlock ∨ m.request = .grant ∧ m.key ∈ (d.delClient fd).keys) := by
  let r := m.resource
  let me := d.myNodeId
  let p := d.clientPid fd
  have hcell : (d.delClient fd).cell r = (d.cell r).recoverClient r me p := by
    rw [cell_delClient, if_neg hp]
  have hsent : ((d.cell r).recoverClient r me p).sent =
      (d.cell r).sent ++ ((d.delClient fd).out.drop d.out.length).filter (·.concerns r) := by
    rw [← hcell]
    exact (congrArg (List.filter (·.concerns r)) (delClient_out d fd)).trans (List.filter_append ..)
  have hmem : m ∈ ((d.delClient fd).out.drop d.out.length).filter (·.concerns r) :=
    List.mem_filter.2 ⟨hm, by simp [CpgLockMsg.concerns, r]⟩
  let c₁ := ((d.cell r).purge me p).send (Cell.purgeMsg me p)
  have hkeys : (d.delClient fd).keys = purgeKeys me p d.keys := by
    rw [keys_delClient, if_neg hp]
  -- all that the recovery sends for the resource, after the PURGE
  have key : ∀ l : List CpgLockMsg, ((d.cell r).recoverClient r me p).sent = c₁.sent ++ l →
      (∀ g ∈ l, d.Holds me p r ∧
        (g.request = .unlock ∨ g.request = .grant ∧ g.key ∈ (d.delClient fd).keys)) →
      m = Cell.purgeMsg me p ∨ d.Holds me p r ∧
        (m.request = .unlock ∨ m.request = .grant ∧ m.key ∈ (d.delClient fd).keys) := by
    intro l hl hg
    have heq : ((d.delClient fd).out.drop d.out.length).filter (·.concerns r) =
        Cell.purgeMsg me p :: l := by
      refine (List.append_right_inj (d.cell r).sent).1 ?_
      rw [← hsent, hl]
      simp [c₁, Cell.send, Cell.purge]
    rw [heq] at hmem
    rcases List.mem_cons.1 hmem with h | h
    · exact .inl h
    · exact .inr (hg m h)
  cases hl : c₁.lock with
  | none =>
    have hunfold : (d.cell r).recoverClient r me p = c₁ := Cell.recoverClient_none hl
    exact key [] (by rw [hunfold]; simp) (by simp)
  | some l =>
    have hunfold : (d.cell r).recoverClient r me p =
        if l.ownerNodeid = me ∧ l.ownerPid = p ∧ l.state = .held then
          (c₁.setState .free).grantNextOrUnlock r
            { CpgLockMsg.blank .purge with resource := r, ownerNodeid := me, ownerPid := p }
        else c₁ := Cell.recoverClient_some hl
    by_cases hheld : l.ownerNodeid = me ∧ l.ownerPid = p ∧ l.state = .held
    · have hholds : d.Holds me p r := ⟨l, hl, hheld⟩
      simp only [if_pos hheld] at hunfold
      rcases Cell.grantNext_cases r (c₁.setState .free) with
        ⟨hn, -⟩ | ⟨q, l₁, l₂, hw, hqr, -, -, heq⟩
      · refine key [{ CpgLockMsg.blank .unlock with
          resource := r, ownerNodeid := me, ownerPid := p }] ?_ ?_
        · rw [hunfold, Cell.grantNextOrUnlock, Cell.grantNextElse, hn]
          rfl
        · intro g hg
          rw [List.mem_singleton.1 hg]
          exact ⟨hholds, .inl rfl⟩
      · refine key [grantMsg q] ?_ ?_
        · rw [hunfold, Cell.grantNextOrUnlock, Cell.grantNextElse, heq]
          rfl
        · intro g hg
          rw [List.mem_singleton.1 hg]
          refine ⟨hholds, .inr ⟨rfl, ?_⟩⟩
          have hq : q.key ∈ c₁.keys := by
            have : q ∈ (c₁.setState .free).waiting := by
              rw [hw]
              simp
            exact List.mem_map_of_mem this
          rw [grantMsg_key, mem_keys_cell, show q.key.resource = r from hqr, hcell,
            Cell.keys_recoverClient]
          rwa [show c₁.keys = purgeKeys me p (d.cell r).keys by
            rw [Cell.keys_send, Cell.keys_purge]] at hq
    · simp only [if_neg hheld] at hunfold
      exact key [] (by rw [hunfold]; simp) (by simp)

/-! ## Their delivery -/

/-- What the delivery of the recovery's messages keeps. `d` is the daemon before the removal, `p` the
process, `ms` are the messages. -/
structure Recovering (n p : UInt32) (d e : Daemon) (ms : List CpgLockMsg) : Prop where
  me : e.myNodeId = n
  joined : ∀ r, e.locks.get r ≠ none → e.joined = true
  clients : ∀ q, q ≠ p → d.connected q = true → e.connected q = true
  purged : ∀ k ∈ e.keys, ¬(k.nodeid = n ∧ k.pid = p)
  released : ∀ r l, e.locks.get r = some l → l.state = .held → ¬(l.ownerNodeid = n ∧ l.ownerPid = p)
  requests : ∀ k ∈ d.keys, (k.nodeid = n → k.pid ≠ p ∧ d.connected k.pid = true) →
    k ∈ e.keys ∨ ∃ m ∈ ms, m.Grants k
  locks : ∀ r, ¬d.Holds n p r → e.locks.get r = d.locks.get r

theorem Recovering.deliver {n p : UInt32} {d e : Daemon} {ms : List CpgLockMsg} (hp : p ≠ 0)
    (h : Recovering n p d e ms) {now : Nat} {x : MemberItem} {m : CpgLockMsg} (hmem : m ∈ ms)
    (hm : m = Cell.purgeMsg n p ∨ d.Holds n p m.resource ∧
      (m.request = .unlock ∨ m.request = .grant ∧ m.key.Real ∧ ¬(m.key.nodeid = n ∧ m.key.pid = p))) :
    Recovering n p d (e.deliver now (.msg x m)) ms := by
  have hstep := fun r => cellStep_deliver (r := r) e now x m
  have hlock : m.request ≠ .lock := by
    rcases hm with rfl | ⟨-, hm | ⟨hm, -⟩⟩
    · simp [Cell.purgeMsg, CpgLockMsg.blank]
    · rw [hm]; decide
    · rw [hm]; decide
  have hclients : (e.deliver now (.msg x m)).clients = e.clients := (grows_deliver ..).clients
  have hcon : ∀ q, (e.deliver now (.msg x m)).connected q = e.connected q := by
    intro q
    rw [connected, findClient, hclients]
    rfl
  have hreal : m.request = .grant → m.ownerPid ≠ 0 ∧ m.ownerNodeid ≠ 0 := by
    rcases hm with rfl | ⟨-, hm | ⟨-, hr, -⟩⟩
    · exact fun h => by cases h
    · exact fun h => by rw [hm] at h; cases h
    · exact fun _ => hr
  refine ⟨(myNodeId_deliver ..).trans h.me, fun r hr => ?_, fun q hq hd => (hcon q).trans (h.clients q hq hd),
    fun k hk => ?_, fun r l hl hst => ?_, fun k hk hother => ?_, fun r hr => ?_⟩
  · rw [joined_deliver]
    refine Membership.deliver_joined_mono _ ?_
    rcases (hstep r).owner hreal with ⟨ho, -⟩ | ⟨hj, -⟩ | ⟨hj, -⟩
    · refine h.joined r fun hl => hr ?_
      have hl : (e.cell r).owner = none := Cell.owner_eq_none.2 hl
      exact Cell.owner_eq_none.1 (ho.trans hl)
    · exact hj
    · exact hj
  · refine h.purged k (mem_keys_cell.2 ?_)
    have := (hstep k.resource).keys_sublist.subset (mem_keys_cell.1 hk)
    rwa [if_neg fun h => hlock h.1, List.append_nil] at this
  · rcases (hstep r).held (h.joined r) hreal hl hst with ⟨hold, -⟩ | ⟨-, hg, -, hkey⟩
    · exact h.released r l hold hst
    · rcases hm with rfl | ⟨-, hm | ⟨-, -, hno⟩⟩
      · cases hg
      · rw [hm] at hg; cases hg
      · rw [← hkey] at hno
        exact hno
  · rcases h.requests k hk hother with hin | hgone
    · rcases (hstep k.resource).mem_keys (mem_keys_cell.1 hin) with hin | htakes | ⟨hq, hme, hno, hpid⟩
      · exact .inl (mem_keys_cell.2 hin)
      · rcases htakes with ⟨hq | hq, hkey⟩ | ⟨hq, hkn, hkp⟩
        · exact .inr ⟨m, hmem, hq, hkey⟩
        · rcases hm with rfl | ⟨-, hm | ⟨hm, -⟩⟩
          · cases hq
          · rw [hm] at hq; cases hq
          · rw [hm] at hq; cases hq
        · rcases hm with rfl | ⟨-, hm | ⟨hm, -⟩⟩
          · rcases hkp with hkp | hkp
            · exact absurd hkp hp
            · exact absurd ⟨hkn, hkp⟩ (h.purged k hin)
          · rw [hm] at hq; cases hq
          · rw [hm] at hq; cases hq
      · -- the process of a GRANT without a client is another one
        exfalso
        rw [h.me] at hme
        have hc := h.clients _ (hother hme).1 (hother hme).2
        rcases hm with rfl | ⟨-, hm | ⟨hm, hr, -⟩⟩
        · rcases hq with hq | hq <;> cases hq
        · rw [hm] at hq; rcases hq with hq | hq <;> cases hq
        · rcases hpid with h0 | hpid
          · exact hr.1 h0
          · rw [← hpid, hc] at hno
            cases hno
    · exact .inr hgone
  · have hne : m.resource ≠ r ∨ m.request = .purge := by
      rcases hm with rfl | ⟨hheld, -⟩
      · exact .inr rfl
      · left
        rintro rfl
        exact hr hheld
    exact ((hstep r).lock_of_ne hne).trans (h.locks r hr)

/-- A message of the recovery of process `p`. -/
def RecoveryMsg (n p : UInt32) (d : Daemon) (m : CpgLockMsg) : Prop :=
  m = Cell.purgeMsg n p ∨ d.Holds n p m.resource ∧
    (m.request = .unlock ∨ m.request = .grant ∧ m.key.Real ∧ ¬(m.key.nodeid = n ∧ m.key.pid = p))

theorem Recovering.deliverOwn {n p : UInt32} {d : Daemon} {ms : List CpgLockMsg} (hp : p ≠ 0)
    (hms : ∀ m ∈ ms, RecoveryMsg n p d m) (now : Nat) :
    ∀ {l : List CpgLockMsg} {e : Daemon}, (∀ m ∈ l, m ∈ ms) → Recovering n p d e ms →
      Recovering n p d (e.deliverOwn now l) ms
  | [], _, _, h => h
  | m :: l, e, hl, h => by
    have hm := hl m List.mem_cons_self
    exact Recovering.deliverOwn (l := l) hp hms now (fun m' h' => hl m' (List.mem_cons_of_mem _ h'))
      (h.deliver hp hm (hms m hm))

theorem recovering_delClient {n : UInt32} {d : Daemon} (hplain : Plain n d) {fd : Nat}
    (hp : d.clientPid fd ≠ 0) (ms : List CpgLockMsg) :
    Recovering n (d.clientPid fd) d (d.delClient fd) ms := by
  have hkeys : (d.delClient fd).keys = purgeKeys d.myNodeId (d.clientPid fd) d.keys := by
    rw [keys_delClient, if_neg hp]
  have hcell : ∀ r, (d.delClient fd).cell r =
      (d.cell r).recoverClient r d.myNodeId (d.clientPid fd) := by
    intro r
    rw [cell_delClient, if_neg hp]
  have hlock : ∀ r, (d.cell r).lock = none → ((d.delClient fd).cell r).lock = none := by
    intro r h
    rw [← Cell.owner_eq_none] at h ⊢
    rw [owner_delClient, h]
  refine ⟨?_, fun r hr => ?_, fun q hq hcon => ?_, fun k hk => ?_, fun r l hl hst => ?_,
    fun k hk hother => .inl ?_, fun r hr => ?_⟩
  · exact (congrArg Membership.myNodeId (frame_delClient d fd).membership).trans hplain.me
  · rw [show (d.delClient fd).joined = d.joined from
      congrArg Membership.joined (frame_delClient d fd).membership]
    by_contra hj
    exact hr (hlock r (hplain.empty (by simpa using hj) r))
  · by_contra hno
    have hnot : (d.delClient fd).connected q = false := by simpa using hno
    rcases connected_close hnot with h | h
    · rw [h] at hcon
      cases hcon
    · exact hq h.symm
  · rw [hkeys, mem_purgeKeys, hplain.me] at hk
    exact fun h => hk.2 ⟨h.1, .inr h.2⟩
  · have hl : ((d.delClient fd).cell r).lock = some l := hl
    rw [hcell] at hl
    exact hplain.me ▸ (Cell.recoverClient_held hl hst).2
  · rw [hkeys, mem_purgeKeys, hplain.me]
    refine ⟨hk, fun h => ?_⟩
    rcases h.2 with h0 | h0
    · exact hp h0
    · exact (hother h.1).1 h0
  · show ((d.delClient fd).cell r).lock = (d.cell r).lock
    rw [hcell]
    unfold Cell.recoverClient
    simp only [Cell.send_lock, Cell.purge_lock]
    split
    · next l hl =>
      rw [if_neg]
      · rfl
      · rintro ⟨hn, hpid, hst⟩
        exact hr ⟨l, hl, hn.trans hplain.me, hpid, hst⟩
    · rfl

end Daemon

/-- A connection that has sent no LOCK leaves nothing. -/
theorem Recovered.idle {t : List Obs} {n : UInt32} {fd : Nat} {d d' : Daemon} {ms : List CpgLockMsg}
    (hnil : received t n fd = []) (hr : d'.requests = d.requests) (hl : d'.locks = d.locks) :
    Recovered t n fd d d' ms := by
  refine ⟨fun k hk => ?_, fun r l _ _ hk => ?_, fun k hk _ => .inl ?_, fun r l h _ _ => hl ▸ h⟩
  · rw [hnil] at hk
    cases hk
  · rw [hnil] at hk
    cases hk
  · rwa [Daemon.keys, hr]

theorem Conns.clientPid {t : List Obs} {n : UInt32} {d : Daemon} (h : Conns t n d) {c : ClientItem}
    (hc : c ∈ d.clients) : d.clientPid c.fd = c.pid := by
  unfold Daemon.clientPid
  cases hfind : d.clients.find? fun n => n.fd = c.fd with
  | none => simpa using List.find?_eq_none.1 hfind c hc
  | some c' =>
    have hf' : c'.fd = c.fd := by simpa using List.find?_some hfind
    rw [ClientItem.eq_of_fd h.fds (List.mem_of_find?_eq_some hfind) hc hf']

/-- Nothing was received on a connection without a pid. -/
theorem Conns.received_nil {t : List Obs} {n : UInt32} {d : Daemon} (h : Conns t n d)
    {c : ClientItem} (hc : c ∈ d.clients) (h0 : c.pid = 0) : Cpglock.received t n c.fd = [] := by
  refine List.eq_nil_iff_forall_not_mem.2 fun k hk => ?_
  obtain ⟨-, hp, hk⟩ := h.received _ _ hk
  exact hp ((congrArg ClientItem.pid (ClientItem.eq_of_fd h.fds hk hc rfl)).trans h0)

/-- The recovery of a connection whose process has no other. -/
theorem Conns.recovered {t : List Obs} {n : UInt32} {d : Daemon} (h : Conns t n d)
    (hplain : Plain n d) {c : ClientItem} (hc : c ∈ d.clients) (now : Nat) :
    Recovered t n c.fd d ((d.delClient c.fd).deliverOwn now
      ((d.delClient c.fd).out.drop d.out.length)) ((d.delClient c.fd).out.drop d.out.length) := by
  have hpid := h.clientPid hc
  by_cases h0 : c.pid = 0
  · have hdel : d.delClient c.fd = d.unlinkClient c.fd := by
      rw [Daemon.delClient, if_pos (hpid.trans h0)]
    rw [hdel, show (d.unlinkClient c.fd).out = d.out from rfl, List.drop_length]
    exact .idle (h.received_nil hc h0) rfl rfl
  · have hp : d.clientPid c.fd ≠ 0 := fun h => h0 (hpid.symm.trans h)
    have hmsg : ∀ m ∈ (d.delClient c.fd).out.drop d.out.length, Daemon.RecoveryMsg n c.pid d m := by
      intro m hm
      rw [← hpid, ← hplain.me]
      refine (Daemon.mem_delClient_out hp hm).imp_right fun hh => ⟨hh.1, hh.2.imp_right ?_⟩
      rintro ⟨hq, hk⟩
      rw [Daemon.keys_delClient, if_neg hp, mem_purgeKeys] at hk
      refine ⟨hq, ?_, fun hnp => hk.2 ⟨hnp.1, .inr hnp.2⟩⟩
      obtain ⟨q, hq, hqk⟩ := List.mem_map.1 hk.1
      rw [← hqk]
      exact (hplain.real q.resource).waiting q (List.mem_filter.2 ⟨hq, by simp⟩)
    have hrec : Daemon.Recovering n c.pid d ((d.delClient c.fd).deliverOwn now
        ((d.delClient c.fd).out.drop d.out.length)) ((d.delClient c.fd).out.drop d.out.length) :=
      Daemon.Recovering.deliverOwn h0 hmsg now (fun _ h => h)
        (hpid ▸ Daemon.recovering_delClient hplain hp _)
    -- what was received on a connection has its pid
    have hmine : ∀ k ∈ Cpglock.received t n c.fd, k.nodeid = n ∧ k.pid = c.pid := by
      intro k hk
      obtain ⟨hn, -, hkc⟩ := h.received _ _ hk
      exact ⟨hn, congrArg ClientItem.pid (ClientItem.eq_of_fd h.fds hkc hc rfl)⟩
    have hother : ∀ (k : RequestKey) fd', fd' ≠ c.fd → k ∈ Cpglock.received t n fd' →
        k.pid ≠ c.pid ∧ d.connected k.pid = true := by
      intro k fd' hne hk
      obtain ⟨-, hp, hkc⟩ := h.received _ _ hk
      refine ⟨fun he => hne ?_, Daemon.connected_iff.2 ⟨_, hkc, rfl⟩⟩
      exact congrArg ClientItem.fd (h.pids _ hkc c hc hp he)
    refine ⟨fun k hk hin => hrec.purged k hin (hmine k hk), fun r l hl hst hk => ?_,
      fun k hk ho => hrec.requests k hk fun hn => ?_, fun r l hl hst ho => ?_⟩
    · exact hrec.released r l hl hst (hmine _ hk)
    · rcases ho with ho | ⟨fd', hne, hk'⟩
      · exact absurd hn ho
      · exact hother k fd' hne hk'
    · rw [hrec.locks r, hl]
      rintro ⟨l', hl', hn, hp', -⟩
      obtain rfl := Option.some.inj (hl.symm.trans hl')
      rcases ho with ho | ⟨fd', hne, hk'⟩
      · exact ho hn
      · exact (hother _ fd' hne hk').1 hp'

/-! ## Runs -/

/-- In every reachable state, a daemon that has been delivered all it sent has no requests and HELD
locks of closed connections, and the removal of a connection recovers what came from it. -/
theorem connection_recovery {P : Sys → Act → Prop} (hP : ∀ s a, P s a → s.Recovers a) {s : Sys}
    (h : Runs P .init s) {n : UInt32} {nd : Node} (hn : s.nodes n = some nd) :
    ((nd.view s.log n).out = [] → Settled s.trace n nd.d) ∧
      ∀ fd a d', fd ∈ nd.d.clients.map (·.fd) → P s a → Removes n fd nd.d a d' → ∀ now,
        Recovered s.trace n fd nd.d (d'.deliverOwn now (d'.out.drop nd.d.out.length))
          (d'.out.drop nd.d.out.length) := by
  have hP' : ∀ s a, P s a → s.OneAtATime a := fun s a hp => (hP s a hp).1
  have hconn := (Runs.base hP' h).linked.node n nd hn
  have hplain := (Runs.plain (fun s a hp => (hP' s a hp).1.1.hasPid) h).2 n nd hn
  have hplain' : Plain n nd.d := by
    refine ⟨hplain.me, hplain.pos, fun r => ?_, hplain.empty⟩
    refine ⟨(hplain.real r).waiting, fun m hm => (hplain.real r).sent m ?_⟩
    obtain ⟨hm, hc⟩ := List.mem_filter.1 hm
    exact List.mem_filter.2 ⟨List.mem_append_right _ hm, hc⟩
  refine ⟨fun hout => ⟨fun k hk hkn => ?_, fun r l hl hst ho => ?_⟩, fun fd a d' hfd hp hrem now => ?_⟩
  · have hset := Runs.settling hP h n nd hn
    obtain ⟨q, hq, hqk⟩ := List.mem_map.1 hk
    have hmem : k ∈ ((nd.view s.log n).cell k.resource).keys := Daemon.mem_keys_cell.1 hk
    have h0 : k.pid ≠ 0 := by
      rw [← hqk]
      exact ((hplain'.real q.resource).waiting q (List.mem_filter.2 ⟨hq, by simp⟩)).1
    have hsent : ((nd.view s.log n).cell k.resource).sent = [] := by
      simp [Daemon.cell, hout]
    cases hc : (nd.view s.log n).connected k.pid with
    | false =>
      have := hset.buried k.resource k.pid h0 hc
      rw [hsent] at this
      have hw : ((nd.view s.log n).cell k.resource).waits n k.pid = true :=
        List.any_eq_true.2 ⟨k, hmem, decide_eq_true ⟨hkn, rfl⟩⟩
      exact absurd (hw.symm.trans this) (by decide)
    | true =>
      obtain ⟨c, hcm, hcp⟩ := Daemon.connected_iff.1 hc
      have howed := (Runs.routed hP' h).owed n nd hn c hcm (hcp ▸ h0) k hkn hcp.symm
      have hpos : 0 < ((nd.view s.log n).cell k.resource).keys.count k := List.count_pos_iff.2 hmem
      refine ⟨c.fd, List.count_pos_iff.1 (Nat.lt_of_lt_of_le ?_ howed)⟩
      unfold Cell.claims
      omega
  · rcases (Runs.settling hP h n nd hn).held r l hl hst ho with hrec | ⟨-, m, hm, -⟩
    · exact hrec
    · simp [Daemon.cell, hout] at hm
  · obtain ⟨c, hc, rfl⟩ := List.mem_map.1 hfd
    cases hrem with
    | close => exact hconn.recovered hplain' hc now
    | @dump m hm =>
      have h0 : c.pid = 0 := ((hP' s _ hp).1.1.2 nd hn c hc rfl).2 hm
      have hd : nd.d.clientActivityCb c.fd m = nd.d.unlinkClient c.fd := by
        simp only [Daemon.clientActivityCb, hm]
      rw [hd, show (nd.d.unlinkClient c.fd).out = nd.d.out from rfl, List.drop_length]
      exact .idle (hconn.received_nil hc h0) rfl rfl

/-- The lock `a` of process 100, whose only connection closes. -/
theorem connection_recovery_one : ∃ (s : Sys) (nd : Node), s.nodes 1 = some nd ∧
    nd.d.locks.get ⟨[97], by decide, by decide⟩ = some ⟨.held, 1, 100, 1, 1⟩ ∧
    (nd.view s.log 1).out = [] ∧ Settled s.trace 1 nd.d ∧
    Recovered s.trace 1 5 nd.d ((nd.d.delClient 5).deliverOwn 0
      ((nd.d.delClient 5).out.drop nd.d.out.length)) ((nd.d.delClient 5).out.drop nd.d.out.length) := by
  have h : (Transition.exec Sys.step (fun (s : Sys) (a : Act) => decide (s.Recovers a)) .init
      oneGrant).any (fun (s : Sys) => (s.nodes 1).any fun nd =>
        decide (nd.d.locks.get ⟨[97], by decide, by decide⟩ = some ⟨.held, 1, 100, 1, 1⟩) &&
          decide ((nd.view s.log 1).out = []) && decide (5 ∈ nd.d.clients.map (·.fd))) = true := by
    decide +kernel
  obtain ⟨s, hs, h⟩ := Transition.Run.of_check (P := fun (s : Sys) (a : Act) => s.Recovers a)
    (fun _ _ h => of_decide_eq_true h) h
  simp only [Option.any_eq_true, Bool.and_eq_true, decide_eq_true_eq] at h
  obtain ⟨nd, hn, ⟨hl, hout⟩, hfd⟩ := h
  obtain ⟨hsettled, hrec⟩ := connection_recovery (fun _ _ h => h) hs hn
  refine ⟨s, nd, hn, hl, hout, hsettled hout, hrec 5 (.close 1 5) _ hfd ?_ .close 0⟩
  exact ⟨⟨⟨trivial, trivial⟩, trivial, trivial⟩, trivial, trivial⟩

/-- Process 100 holds `a`, asked for on one connection, and `b`, asked for on a second one: closing the
first connection releases both. -/
theorem recovers_too_much : ¬∀ (s : Sys) (nd : Node) (n : UInt32),
    Runs (fun (s : Sys) (a : Act) => s.LibClient a) .init s → s.nodes n = some nd →
    ∀ fd a d', fd ∈ nd.d.clients.map (·.fd) → s.LibClient a → Removes n fd nd.d a d' → ∀ now,
      Recovered s.trace n fd nd.d (d'.deliverOwn now (d'.out.drop nd.d.out.length))
        (d'.out.drop nd.d.out.length) := by
  intro hall
  let b : Resource := ⟨[98], by decide, by decide⟩
  have h : (Transition.exec Sys.step (fun (s : Sys) (a : Act) => decide (s.LibClient a)) .init
      secondConnection).any (fun (s : Sys) => (s.nodes 1).any fun nd =>
        decide (5 ∈ nd.d.clients.map (·.fd)) &&
          decide (⟨b, 1, 100, 1⟩ ∈ received s.trace 1 6) &&
          decide (nd.d.locks.get b = some ⟨.held, 1, 100, 1, 2⟩) &&
          decide (((nd.d.delClient 5).deliverOwn 0
            ((nd.d.delClient 5).out.drop nd.d.out.length)).locks.get b =
              some ⟨.free, 1, 100, 1, 2⟩)) = true := by decide +kernel
  obtain ⟨s, hs, h⟩ := Transition.Run.of_check (P := fun (s : Sys) (a : Act) => s.LibClient a)
    (fun _ _ h => of_decide_eq_true h) h
  simp only [Option.any_eq_true, Bool.and_eq_true, decide_eq_true_eq] at h
  obtain ⟨nd, hn, ⟨⟨hfd, hk⟩, hl⟩, hfree⟩ := h
  have hrec := hall s nd 1 hs hn 5 (.close 1 5) _ hfd trivial .close 0
  have := hrec.locks b _ hl rfl (.inr ⟨6, by decide, hk⟩)
  exact absurd (hfree.symm.trans this) (by simp)

end Cpglock
