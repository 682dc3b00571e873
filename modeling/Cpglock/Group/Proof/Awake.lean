import Cpglock.Group.Proof.FixedRun

/-!
# Nobody sleeps through a release

`Cell.Awake` is the owner's share of a lock that will be handed on. A FREE entry of its own has no
pending waiter unless a GRANT is on its way (`free`); a HELD one has a connected holder unless the
message that ends the holding is on its way (`held`). An entry that nobody owns yet waits for the
GRANT that the oldest daemon sent when it was created (`new`).
-/

namespace Cpglock

/-- A GRANT for the cell's resource is on its way. -/
def Cell.Granting (r : Resource) (c : Cell) : Prop :=
  ∃ m ∈ c.sent, m.request = .grant ∧ m.resource = r

/-- The cell for `r` of node `n`; `conn`: the processes that have a client here, `head`: the daemon is
the oldest. -/
structure Cell.Awake (r : Resource) (n : UInt32) (conn : UInt32 → Prop) (head : Prop) (c : Cell) :
    Prop where
  free : ∀ l, c.lock = some l → l.ownerNodeid = n → l.state = .free →
    (∀ q ∈ c.waiting, q.resource = r → q.state ≠ .pending) ∨ c.Granting r
  held : ∀ l, c.lock = some l → l.ownerNodeid = n → l.state = .held →
    l.ownerPid ≠ 0 ∧ conn l.ownerPid ∨ ∃ m ∈ c.sent, m.Settles r l
  new : ∀ l, c.lock = some l → l.ownerNodeid = 0 → head → c.Granting r

namespace Cell

variable {r : Resource} {n : UInt32} {conn conn' : UInt32 → Prop} {head head' : Prop} {c c' : Cell}
  {l : CpgLock} {m : CpgLockMsg}

theorem Granting.grow (h : c.Granting r) (hs : ∀ m ∈ c.sent, m ∈ c'.sent) : c'.Granting r :=
  h.imp fun m ⟨hm, h⟩ => ⟨hs m hm, h⟩

theorem Granting.of_grantMsg {q : RequestItem} (hq : q.resource = r)
    (h : Daemon.grantMsg q ∈ c.sent) : c.Granting r := ⟨_, h, rfl, hq⟩

theorem Granting.settles (h : c.Granting r) (l : CpgLock) : ∃ m ∈ c.sent, m.Settles r l :=
  h.imp fun _ ⟨hm, hg, hr⟩ => ⟨hm, hr, .inl hg⟩

namespace Awake

theorem of_none (h : c.lock = none) : c.Awake r n conn head :=
  ⟨by simp [h], by simp [h], by simp [h]⟩

/-- Requests may go, messages and connections may come. -/
theorem sub (h : c.Awake r n conn head) (hl : c'.lock = c.lock)
    (hw : ∀ q ∈ c'.waiting, q ∈ c.waiting) (hs : ∀ m ∈ c.sent, m ∈ c'.sent)
    (hc : ∀ p, p ≠ 0 → conn p → conn' p) (hh : head' → head) : c'.Awake r n conn' head' := by
  refine ⟨fun l hl' hn hf => ?_, fun l hl' hn hf => ?_, fun l hl' hn hf => ?_⟩
  · refine (h.free l (hl ▸ hl') hn hf).imp (fun h q hq => h q (hw q hq)) fun h => h.grow hs
  · exact (h.held l (hl ▸ hl') hn hf).imp (fun ⟨h0, h⟩ => ⟨h0, hc _ h0 h⟩)
      fun ⟨m, hm, h⟩ => ⟨m, hs m hm, h⟩
  · exact (h.new l (hl ▸ hl') hn (hh hf)).grow hs

/-- Other messages than GRANTs and UNLOCKs for `r` may go. -/
theorem pop {pre : List CpgLockMsg} (h : Cell.Awake r n conn head { c with sent := pre ++ c.sent })
    (hp : ∀ m ∈ pre, m.resource = r → m.request ≠ .grant ∧ m.request ≠ .unlock) :
    c.Awake r n conn head := by
  have hg : Cell.Granting r { c with sent := pre ++ c.sent } → c.Granting r := by
    rintro ⟨m, hm, hg, hr⟩
    exact ⟨m, (List.mem_append.1 hm).resolve_left fun hm => (hp m hm hr).1 hg, hg, hr⟩
  refine ⟨fun l hl hn hf => (h.free l hl hn hf).imp_right hg, fun l hl hn hf => ?_,
    fun l hl hn hf => hg (h.new l hl hn hf)⟩
  refine (h.held l hl hn hf).imp_right fun ⟨m, hm, hs⟩ => ⟨m, ?_, hs⟩
  refine (List.mem_append.1 hm).resolve_left fun hm => ?_
  exact hs.2.elim (hp m hm hs.1).1 fun h => (hp m hm hs.1).2 h.1

/-- An entry in the state PENDING asks for nothing, if somebody owns it or its GRANT is on its
way. -/
theorem of_pending (hl : c.lock = some l) (hs : l.state = .pending)
    (hn : l.ownerNodeid ≠ 0 ∨ c.Granting r) : c.Awake r n conn head := by
  refine ⟨fun l' hl' _ hf => ?_, fun l' hl' _ hf => ?_, fun l' hl' h0 _ => ?_⟩
  all_goals obtain rfl := Option.some.inj (hl.symm.trans hl')
  · rw [hs] at hf
    cases hf
  · rw [hs] at hf
    cases hf
  · exact hn.resolve_left fun h => h h0

/-! ## Clients -/

theorem grantNextOrUnlock (h : c.Awake r n conn head) (m : CpgLockMsg) :
    (c.grantNextOrUnlock r m).Awake r n conn head := by
  have hlock := grantNextOrUnlock_lock (r := r) c m
  have hsub : ∀ x ∈ c.sent, x ∈ (c.grantNextOrUnlock r m).sent := by
    intro x hx
    refine grantNextElse_induction (I := fun c' => x ∈ c'.sent)
      (fun c' hc' => (grantNext_sends hc').sub hx) fun _ => List.mem_append_left _ hx
  refine ⟨fun l hl hn hf => ?_, fun l hl hn hf => ?_, fun l hl hn hf => ?_⟩
  · rcases grantNextOrUnlock_ends (r := r) c m with ⟨q, hq, hg⟩ | ⟨-, hw⟩
    · exact .inr (.of_grantMsg hq hg)
    · exact .inl hw
  · exact (h.held l (hlock ▸ hl) hn hf).imp_right fun ⟨m, hm, h⟩ => ⟨m, hsub m hm, h⟩
  · exact (h.new l (hlock ▸ hl) hn hf).grow hsub

theorem recoverClient (h : c.Awake r n conn head) {pid : UInt32}
    (hc : ∀ p, p ≠ 0 → p ≠ pid → conn p → conn' p) :
    (c.recoverClient r n pid).Awake r n conn' head := by
  have hkeep : (∀ l, c.lock = some l →
      ¬(l.ownerNodeid = n ∧ l.ownerPid = pid ∧ l.state = .held)) →
      ((c.purge n pid).send (purgeMsg n pid)).Awake r n conn' head := by
    intro hno
    have h' : ((c.purge n pid).send (purgeMsg n pid)).Awake r n conn head :=
      h.sub rfl (fun q hq => (List.mem_filter.1 hq).1) (fun m hm => List.mem_append_left _ hm)
        (fun _ _ h => h) id
    refine ⟨h'.free, fun l hl hn hf => ?_, h'.new⟩
    refine (h'.held l hl hn hf).imp_left fun ⟨h0, hco⟩ => ⟨h0, hc _ h0 (fun hp => ?_) hco⟩
    exact hno l hl ⟨hn, hp, hf⟩
  unfold Cell.recoverClient
  dsimp only
  split
  · next l hl =>
    have hl : c.lock = some l := hl
    split
    · -- the holder goes: the entry is FREE, and a GRANT or the UNLOCK is sent
      generalize hd : ((c.purge n pid).send { CpgLockMsg.blank .purge with
        ownerNodeid := n, ownerPid := pid }).setState .free = d
      have hdl : d.lock = some { l with state := .free } := by rw [← hd]; simp [hl]
      have hds : ∀ m ∈ c.sent, m ∈ d.sent := by
        rw [← hd]
        exact fun m hm => List.mem_append_left _ hm
      have hends := grantNextOrUnlock_ends (r := r) d { CpgLockMsg.blank .purge with
        resource := r, ownerNodeid := n, ownerPid := pid }
      generalize hc' : d.grantNextOrUnlock r { CpgLockMsg.blank .purge with
        resource := r, ownerNodeid := n, ownerPid := pid } = c' at hends
      have hl' : c'.lock = some { l with state := .free } := by
        rw [← hc', grantNextOrUnlock_lock, hdl]
      have hs' : ∀ m ∈ d.sent, m ∈ c'.sent := by
        rw [← hc']
        exact fun m hm => (grantNextOrUnlock_sends (r := r) (c := d) rfl).sub hm
      refine ⟨fun l' hl'' hn hf => ?_, fun l' hl'' hn hf => ?_, fun l' hl'' hn hf => ?_⟩
      all_goals obtain rfl := Option.some.inj (hl'.symm.trans hl'')
      · rcases hends with ⟨q, hq, hg⟩ | ⟨-, hw⟩
        · exact .inr (.of_grantMsg hq hg)
        · exact .inl hw
      · cases hf
      · exact (h.new l hl hn hf).grow fun m hm => hs' m (hds m hm)
    · next hno => exact hkeep fun l' hl' => by rwa [← Option.some.inj (hl.symm.trans hl')]
  · next hl =>
    have hl : c.lock = none := hl
    exact hkeep fun l' hl' => by rw [hl] at hl'; cases hl'

/-! ## Deliveries -/

theorem processLock (h : c.Awake r n conn head) [Decidable head] (hn : n ≠ 0) (now : Nat)
    (hr : m.resource = r) : (c.processLock r n head m now).Awake r n conn head := by
  -- the new request is pending, so a FREE entry is granted
  have hfree : ∀ (c' : Cell) {l}, c'.lock = some l → c'.waiting = (c.enqueue m now).waiting →
      (c'.grantFree r).Awake r n conn head := by
    intro c' l hl hw
    rcases grantFree_cases (r := r) hl with ⟨q, hq, hs, hl'⟩ | ⟨-, -, hno⟩
    · exact of_pending hl' rfl (.inr (.of_grantMsg hq hs))
    · rw [hw] at hno
      exact absurd rfl (hno _ (List.mem_append_right _ (List.mem_singleton_self _)) hr)
  have hold : ∀ l, c.lock = some l → ¬(l.ownerNodeid = n ∧ l.state = .free) →
      ∀ {c' : Cell}, c'.lock = c.lock → (∀ m ∈ c.sent, m ∈ c'.sent) → c'.Awake r n conn head := by
    intro l hl hno c' hl' hs
    refine ⟨fun l' hl'' hn hf => ?_, fun l' hl'' hn hf => ?_, fun l' hl'' hn hf => ?_⟩
    all_goals obtain rfl := Option.some.inj ((hl'.trans hl).symm.trans hl'')
    · exact absurd ⟨hn, hf⟩ hno
    · exact (h.held l hl hn hf).imp_right fun ⟨m, hm, h⟩ => ⟨m, hs m hm, h⟩
    · exact (h.new l hl hn hf).grow hs
  unfold Cell.processLock
  dsimp only
  split
  · next l hl =>
    have hl : c.lock = some l := hl
    split
    · split
      · exact hfree (c.enqueue m now) hl rfl
      · next hf =>
        split
        · exact hold l hl (fun h => hf h.2) rfl fun m hm => List.mem_append_left _ hm
        · exact hold l hl (fun h => hf h.2) rfl fun m hm => hm
    · next hme => exact hold l hl (fun h => hme h.1) rfl fun m hm => hm
  · split
    · exact hfree { c.enqueue m now with lock := some .blank } rfl rfl
    · next hhead =>
      refine ⟨fun l hl ho => ?_, fun l hl ho => ?_, fun l _ _ hf => ?_⟩
      · obtain rfl := Option.some.inj hl
        exact absurd ho.symm hn
      · obtain rfl := Option.some.inj hl
        exact absurd ho.symm hn
      · exact absurd (decide_eq_true hf) hhead

/-- The holder of a GRANT is connected, or the lock goes on. -/
theorem processGrant [DecidablePred conn] {id : UInt64} (hl : c.lock = some l) (hr : m.resource = r)
    (hp : m.ownerPid ≠ 0) (hm : m.ownerNodeid ≠ 0) :
    (c.processGrant r n false (conn m.ownerPid) id m).Awake r n conn head := by
  obtain ⟨l', hl', hst, hn', hp', -⟩ := Cell.processGrant_lock (r := r) hl n
    (decide (conn m.ownerPid)) id hp hm
  refine ⟨fun x hx _ hf => ?_, fun x hx ho _ => ?_, fun x hx ho _ => ?_⟩
  all_goals obtain rfl := Option.some.inj (hl'.symm.trans hx)
  · rw [hst] at hf
    cases hf
  · by_cases hc : conn m.ownerPid
    · rw [hp']
      exact .inl ⟨hp, hc⟩
    · right
      have hme : m.ownerNodeid = n := hn'.symm.trans ho
      have havert : ¬(l.state = .held ∧ (m.ownerPid = 0 ∨ m.ownerNodeid = 0)) :=
        fun h => h.2.elim hp hm
      unfold Cell.processGrant
      simp only [hl, if_neg havert, if_pos hme, decide_eq_true_eq, if_neg hc]
      rcases grantNextOrUnlock_ends (r := r) (Cell.purge ((((c.set (Daemon.granted m)).unlink
        m.key).set fun l => { l with localId := id })) n m.ownerPid) m with ⟨q, hq, hg⟩ | ⟨hu, -⟩
      · exact Granting.settles (.of_grantMsg hq hg) _
      · exact ⟨_, hu, hr, .inr ⟨rfl, hn', hp'⟩⟩
  · exact absurd (hn'.symm.trans ho) hm

/-- The UNLOCK may have been the message on its way. -/
theorem processUnlock {pre : List CpgLockMsg}
    (h : Cell.Awake r n conn head { c with sent := pre ++ c.sent }) (hpre : ∀ x ∈ pre, x = m)
    (hm : m.request = .unlock) (hn : n ≠ 0) : (c.processUnlock r n m).Awake r n conn head := by
  have hgrant : Cell.Granting r { c with sent := pre ++ c.sent } → c.Granting r := by
    rintro ⟨g, hg, hgr, hr⟩
    refine ⟨g, (List.mem_append.1 hg).resolve_left fun hg => ?_, hgr, hr⟩
    rw [hpre g hg, hm] at hgr
    cases hgr
  have hfree := fun l hl ho hf => (h.free l hl ho hf).imp_right hgrant
  have hnew := fun l hl ho hf => hgrant (h.new l hl ho hf)
  unfold Cell.processUnlock
  split
  · next l hl =>
    by_cases hrel : l.state = .held ∧ l.ownerNodeid = m.ownerNodeid ∧ l.ownerPid = m.ownerPid
    · rw [if_pos hrel]
      dsimp only
      split
      · next hme =>
        rcases Cell.grantNext_cases r (c.setState .free) with
          ⟨hno, hw⟩ | ⟨q, l₁, l₂, -, -, -, -, heq⟩
        · rw [hno]
          refine ⟨fun _ _ _ _ => .inl hw, fun l' hl' _ hf => ?_, fun l' hl' h0 _ => ?_⟩
          all_goals obtain rfl : { l with state := .free } = l' := by simpa [hl] using hl'
          · cases hf
          · exact absurd (hme.symm.trans h0) hn
        · rw [heq]
          refine of_pending (l := { l with state := .pending }) (by simp [hl]) rfl (.inl ?_)
          exact fun h0 => hn (hme.symm.trans h0)
      · next hme =>
        refine ⟨fun l' hl' ho _ => ?_, fun l' hl' ho _ => ?_, fun l' hl' ho hf => ?_⟩
        all_goals obtain rfl : { l with state := .free } = l' := by simpa [hl] using hl'
        · exact absurd ho hme
        · exact absurd ho hme
        · exact hnew l hl ho hf
    · rw [if_neg hrel]
      refine ⟨hfree, fun l' hl' ho hf => (h.held l' hl' ho hf).imp_right ?_, hnew⟩
      rintro ⟨g, hg, hs⟩
      refine ⟨g, (List.mem_append.1 hg).resolve_left fun hg => ?_, hs⟩
      obtain rfl := Option.some.inj (hl.symm.trans hl')
      rw [hpre g hg] at hs
      rcases hs.2 with h | ⟨-, h⟩
      · rw [hm] at h
        cases h
      · exact hrel ⟨hf, h⟩
  · next hl => exact of_none hl

/-- A delivered message, in the daemon's own name (then it has waited) or not. -/
theorem step {d : Daemon} {now : Nat} {own : Prop} [Decidable own]
    (h : Cell.Awake r d.myNodeId (d.connected · = true) (d.getOldestNode.nodeid = d.myNodeId)
      { d.cell r with
        sent := (if own ∧ m.concerns r then [m] else []) ++ (d.cell r).sent })
    (hs : d.CellStep r now m c) (hn : d.myNodeId ≠ 0)
    (hj : m.resource = r → m.request = .lock ∨ m.OfEntry → d.joined = true)
    (hg : m.resource = r → m.request = .grant → (d.cell r).lock ≠ none ∧
      d.lost m.ownerNodeid = false ∧ m.ownerPid ≠ 0 ∧ m.ownerNodeid ≠ 0) :
    c.Awake r d.myNodeId (d.connected · = true) (d.getOldestNode.nodeid = d.myNodeId) := by
  have hpre : ∀ x ∈ (if own ∧ m.concerns r then [m] else []), x = m := by
    intro x hx
    split at hx
    · exact List.mem_singleton.1 hx
    · cases hx
  have hpop := fun hm => h.pop fun x hx => hpre x hx ▸ hm
  have hsends := hs.sends
  cases hs with
  | lock _ hm hr => exact (hpop fun _ => by simp [hm]).processLock hn now hr
  | grant _ hm hr =>
    obtain ⟨hl, hlost, hp, hn'⟩ := hg hr hm
    obtain ⟨l, hl⟩ := Option.ne_none_iff_exists'.1 hl
    rw [hlost]
    have : ((d.cell r).processGrant r d.myNodeId false
        (decide (d.connected m.ownerPid = true)) (d.localLockid + 1) m).Awake r d.myNodeId
        (d.connected · = true) (d.getOldestNode.nodeid = d.myNodeId) :=
      Awake.processGrant hl hr hp hn'
    simpa using this
  | nak _ hm hr =>
    refine (hpop fun _ => by simp [hm]).sub (Cell.processNak_lock _ _ _ _) (fun q hq => ?_)
      (fun _ => hsends.sub) (fun _ _ h => h) id
    unfold Cell.processNak at hq
    split at hq
    · dsimp only at hq
      split at hq
      · exact List.mem_of_mem_eraseP (List.mem_filter.1 hq).1
      · exact List.mem_of_mem_eraseP hq
    · exact hq
  | unlock _ hm _ => exact h.processUnlock hpre hm hn
  | purge hm =>
    exact (hpop fun _ => by simp [hm]).sub rfl (fun q hq => (List.mem_filter.1 hq).1)
      (fun _ h => h) (fun _ _ h => h) id
  | gone _ hr _ _ =>
    exact (hpop fun h => absurd h hr).sub rfl (fun q hq => (List.mem_filter.1 hq).1)
      (fun _ h => h) (fun _ _ h => h) id
  | same _ hno =>
    refine hpop fun hr => ⟨fun hm => ?_, fun hm => ?_⟩
    · exact (hno (hj hr (.inr (.inl hm))) hr).2.1 hm
    · exact (hno (hj hr (.inr (.inr (.inr hm)))) hr).2.2.2 hm

end Awake

end Cell

/-! ## Daemons -/

namespace Daemon

variable {v : Daemon}

/-- All cells of a daemon. -/
def Awake (v : Daemon) : Prop := ∀ r, (v.cell r).Awake r v.myNodeId (v.connected · = true)
  (v.getOldestNode.nodeid = v.myNodeId)

theorem connected_of_clients {v' : Daemon} (h : v'.clients = v.clients) (p : UInt32) :
    v'.connected p = v.connected p := by
  simp [connected, findClient, h]

/-- A process stays connected when one of its clients writes. -/
theorem connected_clientActivityCb {fd : Nat} {m : CpgLockMsg}
    (hc : ∀ c ∈ v.clients, c.fd = fd → (m.request = .lock → c.pid = 0 ∨ c.pid = m.ownerPid) ∧
      (m.request = .dump → c.pid = 0)) {p : UInt32} (hp : p ≠ 0) (h : v.connected p = true) :
    (v.clientActivityCb fd m).connected p = true := by
  obtain ⟨c, hcm, hcp⟩ := connected_iff.1 h
  unfold clientActivityCb
  split
  · next hm =>
    refine connected_iff.2 ⟨_, List.mem_map.2 ⟨c, hcm, rfl⟩, ?_⟩
    split
    · next hf =>
      rcases (hc c hcm hf).1 hm with h0 | h0
      · exact absurd (hcp.symm.trans h0) hp
      · exact h0.symm.trans hcp
    · exact hcp
  · cases v.findLockById m with
    | none => exact h
    | some m' =>
      exact (connected_of_clients (Frame.grantNextElse_sendUnlock v m' m').clients p).trans h
  · next hm =>
    rcases mem_unlinkClient hcm fd with hcm | hcf
    · exact connected_iff.2 ⟨c, hcm, hcp⟩
    · -- the client that is unlinked has no pid
      have h0 : v.clientPid fd = 0 := by
        unfold clientPid
        split
        · next c' hf =>
          exact (hc c' (List.mem_of_find?_eq_some hf) (by simpa using List.find?_some hf)).2 hm
        · rfl
      exact absurd (hcp.symm.trans (hcf.symm.trans h0)) hp
  · exact h

theorem stray_clientActivityCb (v : Daemon) (fd : Nat) (m : CpgLockMsg) :
    (v.clientActivityCb fd m).stray = v.stray := by
  unfold clientActivityCb
  split
  · rfl
  · cases v.findLockById m with
    | none => rfl
    | some m' => exact (Frame.grantNextElse_sendUnlock v m' m').stray
  · rfl
  · rfl

theorem getOldestNode_congr {v' : Daemon} (hm : v'.toMembership = v.toMembership)
    (hs : v'.stray = v.stray) : v'.getOldestNode = v.getOldestNode := by
  simp only [getOldestNode, hm, hs]

theorem Awake.clientActivityCb (h : v.Awake) {fd : Nat} {m : CpgLockMsg}
    (hc : ∀ c ∈ v.clients, c.fd = fd → (m.request = .lock → c.pid = 0 ∨ c.pid = m.ownerPid) ∧
      (m.request = .dump → c.pid = 0)) : (v.clientActivityCb fd m).Awake := by
  intro r
  have hm := (clientActivityCb_out v fd m).1
  have hcell : (v.cell r).Awake r v.myNodeId ((v.clientActivityCb fd m).connected · = true)
      (v.getOldestNode.nodeid = v.myNodeId) :=
    (h r).sub rfl (fun _ h => h) (fun _ h => h) (fun _ => connected_clientActivityCb hc) id
  rw [getOldestNode_congr hm (stray_clientActivityCb v fd m), hm, cell_clientActivityCb]
  split
  · exact hcell.sub rfl (fun _ h => h) (fun _ hx => List.mem_append_left _ hx) (fun _ _ h => h) id
  · split
    · cases v.findLockById m with
      | none => exact hcell
      | some m' =>
        dsimp only
        split
        · exact hcell.grantNextOrUnlock m'
        · exact hcell
    · exact hcell

theorem Awake.delClient (h : v.Awake) (fd : Nat) : (v.delClient fd).Awake := by
  intro r
  have hf := frame_delClient v fd
  have hcon : ∀ p, p ≠ 0 → p ≠ v.clientPid fd → v.connected p = true →
      (v.delClient fd).connected p = true := by
    intro p _ hne hp
    obtain ⟨c, hcm, hcp⟩ := connected_iff.1 hp
    refine (connected_of_clients hf.clients p).trans (connected_iff.2 ⟨c, ?_, hcp⟩)
    exact (mem_unlinkClient hcm fd).resolve_right fun h => hne (hcp.symm.trans h.symm)
  rw [getOldestNode_congr (v := v) hf.membership hf.stray,
    show (v.delClient fd).myNodeId = v.myNodeId from congrArg Membership.myNodeId hf.membership,
    cell_delClient]
  split
  · next h0 =>
    exact (h r).sub rfl (fun _ h => h) (fun _ h => h)
      (fun p hp => hcon p hp fun h => hp (h.trans h0)) id
  · exact (h r).recoverClient hcon

end Daemon

/-! ## Runs -/

/-- While there is no entry the group may change; then it does not. -/
theorem FixedLog.lock_none {log : List Event} (h : FixedLog log) (hw : WellOrdered log) {k : Nat}
    {e : Event} (he : log[k]? = some e) (hc : ∀ x m, e = .msg x m → m.request = .join)
    (r : Resource) : (Replica.of (log.take k)).lock r = none := by
  have hk := (List.getElem?_eq_some_iff.1 he).1
  by_contra hr
  obtain ⟨x, m, hm, hl, -⟩ := Replica.exists_lock hr
  obtain ⟨i, hi, hget⟩ := List.mem_iff_getElem.1 hm
  rw [List.length_take] at hi
  rw [List.getElem_take] at hget
  have hi' : log[i]? = some (.msg x m) := by
    rw [← hget]
    exact List.getElem?_eq_getElem (by omega)
  obtain ⟨y, m', rfl⟩ := h.later i x m hi' hl k e (by omega) he
  -- a JOIN is of a daemon that has not joined
  obtain ⟨g, hg, hj⟩ := hw k _ he (hc y m' rfl)
  obtain ⟨g', hg', hj'⟩ := h.formed_of_lock hk.le hm hl y.nodeid (by rw [hg]; rfl)
  obtain rfl := Option.some.inj (hg.symm.trans hg')
  exact absurd (hj.symm.trans hj') (by decide)

section

variable {P : Sys → Act → Prop} (hP : ∀ s a, P s a → s.FixedClients a)
include hP

theorem Runs.awake {s : Sys} (h : Runs P .init s) : s.Views fun _ _ v => v.Awake := by
  refine (h.rule (L := fun _ _ _ => True) Sys.sound_init (fun _ _ _ _ => trivial)
    (by intro n nd h; cases h) ?_ (fun _ _ _ _ _ _ _ _ _ _ _ _ => trivial) ?_).2.2
  · exact fun _ _ _ _ _ _ _ _ _ x b _ _ r => .of_none rfl
  · intro s a n nd v pos hs hr hp _ hv hn _ hstep
    have haw := hv n nd hn
    have hfix := Runs.fixedLog (fun s a hp => (hP s a hp).1) hr
    obtain ⟨hlog, hviews⟩ := Runs.synced hP hr
    have hin := (hviews n nd hn).synced
    have hplain := (Runs.plain (fun s a hp => (hP s a hp).2.hasPid) hr).2 n nd hn
    have hnone : ∀ e, s.log[nd.pos]? = some e → (∀ x m, e = .msg x m → m.request = .join) →
        ∀ r, ((nd.view s.log n).cell r).lock = none := by
      intro e he hc r
      have ht := hin.lock r
      rwa [hfix.lock_none hs.ordered he hc r] at ht
    cases hstep with
    | @msg x m out he hout =>
      by_cases hjoin : m.request = .join
      · refine fun r => .of_none ?_
        have : (({ nd.view s.log n with out } : Daemon).deliver nd.pos (.msg x m)).cell r =
            ({ nd.view s.log n with out } : Daemon).cell r := by
          simp only [Daemon.deliver, Daemon.processRequest, hjoin]
          rfl
        rw [this]
        exact hnone _ he (by rintro x m ⟨⟩; exact hjoin) r
      · intro r
        have hfits := Runs.fits hP hr hlog hn he
        generalize nd.view s.log n = v at *
        let d : Daemon := { v with out }
        have hgrow := Daemon.grows_deliver d nd.pos (.msg x m)
        have hmem := Daemon.deliver_toMembership d nd.pos (.msg x m)
        have hc := haw r
        rw [cell_pop hout] at hc
        have hstep := hc.step (Daemon.cellStep_deliver (r := r) d nd.pos x m)
          (hfits.me ▸ hplain.pos) (fun _ => hfits.joined) (fun hr hg => ⟨fun h0 => ?_,
            hfits.member hg, hfits.real (.inr (.inl hg))⟩)
        · -- the oldest daemon and the clients are as before
          have hold : (d.deliver nd.pos (.msg x m)).getOldestNode = v.getOldestNode := by
            have hg : (d.deliver nd.pos (.msg x m)).groupMembers = v.groupMembers := by
              rw [congrArg Membership.groupMembers hmem]
              by_cases hh : m.request = .halt
              · simp only [Membership.deliver, hh]
                rfl
              · rw [Membership.deliver_msg_of_ne hjoin hh]
            rw [Daemon.getOldestNode, Daemon.getOldestNode, hg, hgrow.stray]
          have hme : (d.deliver nd.pos (.msg x m)).myNodeId = v.myNodeId := by simp [d]
          rw [hold, hme]
          refine hstep.sub rfl (fun _ h => h) (fun _ h => h) (fun p _ hp => ?_) id
          exact (Daemon.connected_of_clients hgrow.clients p).trans hp
        · have ht := hin.lock r
          cases hT : (Replica.of (s.log.take nd.pos)).lock r with
          | none => exact hfits.entry (.inl hg) (hr ▸ hT)
          | some t =>
            rw [hT] at ht
            obtain ⟨l, hl, -⟩ := ht
            exact absurd (hl.symm.trans h0) (by simp)
    | @change members left join he =>
      refine fun r => .of_none ?_
      exact Daemon.cpgConfigChange_lock_none (hnone _ he (by rintro x m ⟨⟩) r)
    | connect hfd =>
      intro r
      refine (haw r).sub rfl (fun _ h => h) (fun _ h => h) (fun p _ hp => ?_) id
      obtain ⟨c, hc, hcp⟩ := Daemon.connected_iff.1 hp
      exact Daemon.connected_iff.2 ⟨c, List.mem_append_left _ hc, hcp⟩
    | @recv fd m hfd =>
      exact haw.clientActivityCb fun c hc hcf => (hP _ _ hp).2.2 nd hn c hc hcf
    | @close fd hfd => exact haw.delClient fd

end

end Cpglock
