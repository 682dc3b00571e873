import Cpglock.Group.Proof.FailureFree
import Cpglock.Group.SingleAuthority

/-!
# Locks are passed on one by one

In a run without failures in which UNLOCKs come from holders (`Sys.UnlocksHeld`), every daemon's cells
have their `Turn`, the node that decides about a lock is its granter (`Runs.leads`), and GRANTs and
UNLOCKs are sent by granters only. So when the granter has none on its way, nobody has
(`Runs.nothing_passes`).
-/

namespace Cpglock

/-- An UNLOCK finds an own HELD entry that is not being passed on. -/
def Sys.UnlocksHeld (s : Sys) : Act → Prop
  | .recv n _ m => m.request = .unlock → ∀ nd, s.nodes n = some nd → ∀ r l,
    nd.d.locks.get r = some l → l.localId = m.lockid →
      l.state = .held ∧ l.ownerNodeid = n ∧ ((nd.view s.log n).cell r).Still r
  | _ => True

/-- A GRANT or UNLOCK is its granter's. -/
def Lead (done : List Event) (x : UInt32) (m : CpgLockMsg) : Prop :=
  m.Passes m.resource → (Ledger.of done).Granter m.resource x

structure Leads (done : List Event) (n : UInt32) (v : Daemon) : Prop where
  turn : ∀ r, (v.cell r).Turn r n
  acts : ∀ r, (v.cell r).Acts n → (Ledger.of done).Granter r n

theorem CpgLockMsg.Passes.eq {r : Resource} {m : CpgLockMsg} (h : m.Passes r) : m.resource = r := h.2

/-- Who decides about a lock after a delivery. -/
theorem Daemon.CellMove.acts {d : Daemon} {r : Resource} {now : Nat} {m : CpgLockMsg} {c : Cell}
    (h : d.CellMove r now m c) (h0 : d.myNodeId ≠ 0)
    (hj : d.joined = false → (d.cell r).lock = none) (ha : c.Acts d.myNodeId) :
    (d.cell r).Acts d.myNodeId ∧ ¬(m.request = .grant ∧ m.resource = r) ∨
      m.request = .lock ∧ d.MayGrant r ∨
      m.request = .grant ∧ m.resource = r ∧ m.ownerNodeid = d.myNodeId := by
  have hold : ∀ l, (d.cell r).lock = some l → l.ownerNodeid = d.myNodeId →
      ¬(m.request = .grant ∧ m.resource = r) → (d.cell r).Acts d.myNodeId ∧
        ¬(m.request = .grant ∧ m.resource = r) := fun l hl hn hg => ⟨⟨l, hl, .inl hn⟩, hg⟩
  obtain ⟨l', hl', ha'⟩ := ha
  cases h with
  | same hs =>
    refine .inl ⟨⟨l', hl', ha'⟩, fun hg => ?_⟩
    cases hjoin : d.joined with
    | false => exact absurd ((hj hjoin).symm.trans hl') (by simp)
    | true => exact (hs hjoin hg.2).2.1 hg.1
  | asks _ hm _ _ _ =>
    cases hl : (d.cell r).lock with
    | some l =>
      rw [hl] at hl'
      exact .inl ⟨⟨l', hl'.symm ▸ hl, ha'⟩, by simp [hm]⟩
    | none =>
      rw [hl] at hl'
      obtain rfl := Option.some.inj hl'
      rcases ha' with ha' | ha'
      · exact absurd ha'.symm h0
      · cases ha'
  | refused _ hm _ hl hn _ _ => exact .inl (hold _ hl hn (by simp [hm]))
  | granted hjoin hm _ hown _ =>
    refine .inr (.inl ⟨hm, hjoin, ?_⟩)
    rcases hown with ⟨hl, hn, -⟩ | ⟨hl, hhead, -⟩
    · exact .inl ⟨_, hl, hn⟩
    · exact .inr ⟨hl, hhead⟩
  | taken _ hm hr _ =>
    obtain rfl := Option.some.inj hl'
    rcases ha' with ha' | ha'
    · exact .inr (.inr ⟨hm, hr, ha'⟩)
    · cases ha'
  | learnt _ hm hr _ hn =>
    obtain rfl := Option.some.inj hl'
    rcases ha' with ha' | ha'
    · exact absurd ha' hn
    · cases ha'
  | dropped _ hm _ => exact .inl ⟨⟨l', hl', ha'⟩, by simp [hm]⟩
  | stale _ hm _ _ => exact .inl ⟨⟨l', hl', ha'⟩, by simp [hm]⟩
  | freed _ hm _ hl _ _ _ _ =>
    obtain rfl := Option.some.inj hl'
    rcases ha' with ha' | ha'
    · exact .inl (hold _ hl ha' (by simp [hm]))
    · cases ha'
  | passed _ hm _ hl _ _ _ hn _ => exact .inl (hold _ hl hn (by simp [hm]))

/-! ## The granter while nothing is passed on -/

theorem mem_coming {log : List Event} {n : UInt32} {j i : Nat} {x : MemberItem} {m : CpgLockMsg}
    (hi : log[i]? = some (.msg x m)) (hji : j ≤ i) (hx : x.nodeid = n) : m ∈ coming log n j := by
  refine List.mem_filterMap.2 ⟨.msg x m, ?_, by simp [Event.own, hx]⟩
  refine List.mem_of_getElem? (i := i - j) ?_
  rw [List.getElem?_drop, show j + (i - j) = i by omega]
  exact hi

/-- A granter stays it as long as it sends no GRANT. -/
theorem Sys.Sound.granter_mono {s : Sys} (hs : s.Sound) (hlead : Ordered Lead s.log) {n : UInt32}
    {nd : Node} (hn : s.nodes n = some nd) {r : Resource} {j k : Nat} (hsince : nd.since < j)
    (hjk : j ≤ k) (hk : k ≤ s.log.length) (hg : (Ledger.of (s.log.take j)).Granter r n)
    (hnone : ∀ m ∈ coming s.log n j, ¬(m.request = .grant ∧ m.resource = r)) :
    (Ledger.of (s.log.take k)).Granter r n := by
  induction k, hjk using Nat.le_induction with
  | base => exact hg
  | succ k hjk ih =>
    have ih := ih (by omega)
    obtain ⟨e, he⟩ : ∃ e, s.log[k]? = some e := ⟨_, List.getElem?_eq_getElem (by omega)⟩
    rw [Ledger.of_take_succ he]
    refine ih.step (hs.ordered k e he) ((hs.node n nd hn).stays k e (by omega) he) ?_
    rintro x m rfl ⟨hm, rfl⟩
    have hx := hlead k x m he ⟨.inl hm, rfl⟩
    have heq : x.nodeid = n := (hs.ordered.inv k (by omega)).granter_unique hx ih
    exact hnone m (mem_coming he hjk heq) ⟨hm, rfl⟩

/-- While a granter has no GRANT or UNLOCK ordered and undelivered, nobody has. -/
theorem Sys.Sound.quiet_log {s : Sys} (hs : s.Sound) (hlead : Ordered Lead s.log) {n : UInt32}
    {nd : Node} (hn : s.nodes n = some nd) {r : Resource} (hsince : nd.since < nd.pos)
    (hg : (Ledger.of (s.log.take nd.pos)).Granter r n)
    (hnone : ∀ m ∈ coming s.log n nd.pos, ¬m.Passes r) :
    (Ledger.of s.log).Granter r n ∧
      ∀ j x m, nd.pos ≤ j → s.log[j]? = some (.msg x m) → ¬m.Passes r := by
  have hb := hs.bounded n nd hn
  have hstay : ∀ k, nd.pos ≤ k → k ≤ s.log.length → (Ledger.of (s.log.take k)).Granter r n :=
    fun k hjk hk => hs.granter_mono hlead hn hsince hjk hk hg
      fun m hm hgr => hnone m hm ⟨.inl hgr.1, hgr.2⟩
  refine ⟨?_, fun j x m hj he hp => ?_⟩
  · have := hstay _ hb le_rfl
    rwa [List.take_length] at this
  · have hlt := (List.getElem?_eq_some_iff.1 he).1
    have hx := hlead j x m he (hp.eq.symm ▸ hp)
    rw [hp.eq] at hx
    exact hnone m (mem_coming he hj ((hs.ordered.inv j hlt.le).granter_unique hx
      (hstay j hj hlt.le))) hp

/-- A daemon that has an entry has been delivered the change that announced it. -/
theorem Sys.Sound.since_lt {s : Sys} (hs : s.Sound) {n : UInt32} {nd : Node} {r : Resource}
    (hp : Plain n (nd.view s.log n)) (hn : s.nodes n = some nd)
    (ha : ((nd.view s.log n).cell r).Acts n) : nd.since < nd.pos := by
  obtain ⟨l, hl, -⟩ := ha
  refine ((hs.node n nd hn).views ?_).1
  by_contra hj
  have hno : (nd.view s.log n).joined = false := Bool.eq_false_iff.2 hj
  exact absurd ((hp.empty hno r).symm.trans hl) (by simp)

namespace Leads

variable {s : Sys} {n : UInt32} {nd : Node} {r : Resource}

theorem sent_eq (s : Sys) (n : UInt32) (nd : Node) (r : Resource) :
    ((nd.view s.log n).cell r).sent = (coming s.log n nd.pos).filter (CpgLockMsg.concerns r) ++
      nd.d.out.filter (CpgLockMsg.concerns r) := List.filter_append ..

theorem concerns_of_passes {m : CpgLockMsg} (h : m.Passes r) : m.concerns r = true := by
  simp [CpgLockMsg.concerns, h.2]

/-- While a GRANT or UNLOCK waits, none is ordered and undelivered. -/
theorem coming_quiet (h : Leads (s.log.take nd.pos) n (nd.view s.log n)) {m : CpgLockMsg}
    (hm : m ∈ nd.d.out) (hp : m.Passes r) : ∀ g ∈ coming s.log n nd.pos, ¬g.Passes r := by
  intro g hg hgp
  have hone := (h.turn r).one
  rw [sent_eq, List.countP_append] at hone
  have h1 : 0 < ((coming s.log n nd.pos).filter (CpgLockMsg.concerns r)).countP (·.Passes r) :=
    List.countP_pos_iff.2 ⟨g, List.mem_filter.2 ⟨hg, concerns_of_passes hgp⟩, by simpa using hgp⟩
  have h2 : 0 < (nd.d.out.filter (CpgLockMsg.concerns r)).countP (·.Passes r) :=
    List.countP_pos_iff.2 ⟨m, List.mem_filter.2 ⟨hm, concerns_of_passes hp⟩, by simpa using hp⟩
  omega

/-- A node whose message waits decides about the lock. -/
theorem acts_of_waiting (h : Leads (s.log.take nd.pos) n (nd.view s.log n)) {m : CpgLockMsg}
    (hm : m ∈ nd.d.out) (hp : m.Passes r) : ((nd.view s.log n).cell r).Acts n := by
  refine (h.turn r).acts (m := m) ?_ hp
  rw [sent_eq]
  exact List.mem_append_right _ (List.mem_filter.2 ⟨hm, concerns_of_passes hp⟩)

end Leads

/-- The node whose GRANT or UNLOCK waits is the granter, and no such message is undelivered. -/
theorem Sys.Sound.waiting {s : Sys} (hs : s.Sound) (hlead : Ordered Lead s.log) {n : UInt32}
    {nd : Node} (h : Leads (s.log.take nd.pos) n (nd.view s.log n)) (hp : Plain n (nd.view s.log n))
    (hn : s.nodes n = some nd) {r : Resource} {m : CpgLockMsg} (hm : m ∈ nd.d.out) (hmp : m.Passes r) :
    (Ledger.of s.log).Granter r n ∧
      ∀ j x m, nd.pos ≤ j → s.log[j]? = some (.msg x m) → ¬m.Passes r := by
  have hacts := h.acts_of_waiting hm hmp
  exact hs.quiet_log hlead hn (hs.since_lt hp hn hacts) (h.acts r hacts) (h.coming_quiet hm hmp)

/-! ## Runs -/

section

variable {P : Sys → Act → Prop} (hP : ∀ s a, P s a → s.FailureFree a ∧ s.UnlocksHeld a)
include hP

theorem Runs.leads {s : Sys} (h : Runs P .init s) : Ordered Lead s.log ∧ s.Views Leads := by
  have hF := fun s a hp => (hP s a hp).1
  refine (h.rule Sys.sound_init (by intro k x m h; simp [Sys.init] at h)
    (by intro n nd h; cases h) ?_ ?_ ?_).2
  · intro s members left join boot _ _ _ _ x b _ _
    refine ⟨fun r => .of_still (fun m hm hp => ?_) fun l hl => ?_, fun r ha => ?_⟩
    · have hm := List.mem_singleton.1 (show m ∈ [_] from (List.mem_filter.1 hm).1)
      rw [hm] at hp
      simp [CpgLockMsg.Passes, CpgLockMsg.blank] at hp
    · cases hl
    · obtain ⟨l, hl, -⟩ := ha
      cases hl
  · intro s n nd m out hs hr _ hlead hv hn hout hp
    exact (hs.waiting hlead (hv n nd hn) ((hr.plain_of hF).2 n nd hn) hn (by simp [hout]) hp).1
  · intro s a n nd v pos hs hr hp hlead hv hn _ hstep
    have hleads := hv n nd hn
    have hplain := (hr.plain_of hF).2 n nd hn
    have hme := hplain.me
    have hlog := (hr.heard hF).1
    cases hstep with
    | @msg x m out he hout =>
      have hinv := hs.ordered.inv nd.pos (hs.bounded n nd hn)
      have hviews := (hs.node n nd hn).views_of_msg he
      have hsmooth := hr.smooth_of hF hlog ((hr.heard hF).2 n nd hn) hn he
      obtain ⟨d, hd⟩ : ∃ d : Daemon, d = { nd.view s.log n with out } := ⟨_, rfl⟩
      have hdme : d.myNodeId = n := by rw [hd]; exact hme
      have hdjoin : ∀ r, d.joined = false → (d.cell r).lock = none := by
        rw [hd]
        exact fun r hj => hplain.empty hj r
      have hcell : ∀ r, (nd.view s.log n).cell r = { d.cell r with
          sent := (if x.nodeid = n ∧ m.concerns r then [m] else []) ++ (d.cell r).sent } := by
        rw [hd]
        exact cell_pop hout
      have hmove : ∀ r, d.CellMove r nd.pos m ((d.deliver nd.pos (.msg x m)).cell r) := by
        rw [hd]
        exact fun r => (Daemon.cellStep_deliver _ _ x m).move
          ⟨hsmooth.kept, hsmooth.real, hsmooth.member, hsmooth.mine, hsmooth.connected⟩
      have hacts : ∀ r, (d.cell r).Acts n → (Ledger.of (s.log.take nd.pos)).Granter r n := by
        rintro r ⟨l, hl, ha⟩
        refine hleads.acts r ⟨l, ?_, ha⟩
        rw [hcell r]
        exact hl
      rw [← hd]
      refine ⟨fun r => ?_, fun r ha => ?_⟩
      · have hturn : Cell.Turn r d.myNodeId { d.cell r with
            sent := (if x.nodeid = n ∧ m.concerns r then [m] else []) ++ (d.cell r).sent } := by
          rw [hdme, ← hcell r]
          exact hleads.turn r
        have := Cell.Turn.move (hmove r) hturn (fun hp hx ha => ?_) (hdjoin r)
        · rwa [hdme] at this
        · rw [hdme] at ha
          have hlx := hlead nd.pos x m he (hp.eq.symm ▸ hp)
          rw [hp.eq] at hlx
          exact hx (hinv.granter_unique hlx (hacts r ha))
      · have hok := hs.ordered _ _ he
        rw [Ledger.of_take_succ he]
        have hgranter : ∀ {r}, (Ledger.of (s.log.take nd.pos)).Granter r n →
            ¬(m.request = .grant ∧ m.resource = r) →
            ((Ledger.of (s.log.take nd.pos)).step (.msg x m)).Granter r n := fun h hg =>
          h.step hok (stays_msg _ _ _) fun _ _ heq => by
            obtain ⟨rfl, rfl⟩ := Event.msg.inj heq
            exact hg
        rw [← hdme] at ha
        rcases (hmove r).acts (by rw [hdme]; exact hplain.pos) (hdjoin r) ha with
          ⟨hold, hg⟩ | ⟨hm, hmay⟩ | ⟨hm, hres, hown⟩
        · rw [hdme] at hold
          exact hgranter (hacts r hold) hg
        · refine hgranter ?_ (by simp [hm])
          have hmay' : (nd.view s.log n).MayGrant r := by
            rw [hd] at hmay
            exact hmay
          exact MayGrant.granter hmay' (hr.auth (fun s a hp => (hF s a hp).2.2.1.hasPid) n nd hn) hplain hinv
            hviews
        · obtain ⟨g, hg, hj⟩ := ((hlog nd.pos x m he).answer (.inl hm)).joined hlog hs.ordered
            (hr.nobody_left fun s a hp => (hF s a hp).1) (hs.bounded n nd hn)
          refine .inl ?_
          have hcand := Ledger.candAfter_grant (x := x) hm hg hj
          rw [hres] at hcand
          exact hcand.trans (congrArg some (hown.trans hdme))
    | @change members left join he =>
      obtain rfl := hr.nobody_left (fun s a hp => (hF s a hp).1) _ _ _ (List.mem_of_getElem? he)
      refine ⟨fun r => hleads.turn r, fun r ha => ?_⟩
      have hsince := hs.since_lt hplain hn (r := r) ha
      rw [Ledger.of_take_succ he]
      exact (hleads.acts r ha).step (hs.ordered _ _ he) ((hs.node n nd hn).stays _ _ hsince he)
        (by rintro x m ⟨⟩)
    | connect => exact ⟨hleads.turn, hleads.acts⟩
    | @recv fd m hfd =>
      have hw := fun r => Daemon.cellWrite_clientActivityCb (nd.view s.log n) r fd m
      refine ⟨fun r => ?_, fun r ha => hleads.acts r (by rwa [Cell.Acts, (hw r).lock] at ha)⟩
      have hturn : ((nd.view s.log n).cell r).Turn r (nd.view s.log n).myNodeId := by
        rw [hme]
        exact hleads.turn r
      have := hturn.write (hw r) fun hm l hl hid => by
        rw [hme]
        exact (hP _ _ hp).2 hm nd hn r l hl hid
      rwa [hme] at this
    | close => exact ((hF _ _ hp).2.1 : False).elim

/-- A delivered GRANT or UNLOCK was the only one on its way; any other message leaves the turn alone. -/
theorem Runs.popped {s : Sys} (h : Runs P .init s) {n : UInt32} {nd : Node}
    (hn : s.nodes n = some nd) {x : MemberItem} {m : CpgLockMsg}
    (he : s.log[nd.pos]? = some (.msg x m)) {out : List CpgLockMsg}
    (hout : (nd.view s.log n).out = if x.nodeid = n then m :: out else out) (r : Resource) :
    (m.Passes r → (({ nd.view s.log n with out } : Daemon).cell r).Still r) ∧
      (¬m.Passes r → (({ nd.view s.log n with out } : Daemon).cell r).Turn r n) := by
  have hs := Runs.sound h
  obtain ⟨hlead, hv⟩ := Runs.leads hP h
  have hleads := hv n nd hn
  have hturn := hleads.turn r
  rw [cell_pop hout r] at hturn
  refine hturn.popped fun hp hx ha => ?_
  have hlx := hlead nd.pos x m he (hp.eq.symm ▸ hp)
  rw [hp.eq] at hlx
  exact hx ((hs.ordered.inv nd.pos (hs.bounded n nd hn)).granter_unique hlx (hleads.acts r ha))

/-- A daemon that decides about a lock is delivered the GRANTs and UNLOCKs for it that it sent. -/
theorem Runs.mem_passed {s : Sys} (h : Runs P .init s) {n : UInt32} {nd : Node}
    (hn : s.nodes n = some nd) {x : MemberItem} {m : CpgLockMsg}
    (he : s.log[nd.pos]? = some (.msg x m)) {out : List CpgLockMsg}
    (hout : (nd.view s.log n).out = if x.nodeid = n then m :: out else out) {r : Resource}
    (hp : m.Passes r) (ha : ((nd.view s.log n).cell r).Acts n) :
    m ∈ ((nd.view s.log n).cell r).sent := by
  have hs := Runs.sound h
  obtain ⟨hlead, hv⟩ := Runs.leads hP h
  have hlx := hlead nd.pos x m he (hp.eq.symm ▸ hp)
  rw [hp.eq] at hlx
  have hx := (hs.ordered.inv nd.pos (hs.bounded n nd hn)).granter_unique hlx ((hv n nd hn).acts r ha)
  rw [cell_pop hout r]
  exact List.mem_append_left _ (by simp [hx, Leads.concerns_of_passes hp])

/-- No GRANT or UNLOCK for a lock is delivered to a daemon that decides about it and passes nothing
on. -/
theorem Runs.not_passed {s : Sys} (h : Runs P .init s) {n : UInt32} {nd : Node}
    (hn : s.nodes n = some nd) {x : MemberItem} {m : CpgLockMsg}
    (he : s.log[nd.pos]? = some (.msg x m)) {out : List CpgLockMsg}
    (hout : (nd.view s.log n).out = if x.nodeid = n then m :: out else out) {r : Resource}
    (hp : m.Passes r) (ha : ((nd.view s.log n).cell r).Acts n) :
    ¬((nd.view s.log n).cell r).Still r :=
  fun hstill => hstill m (Runs.mem_passed hP h hn he hout hp ha) hp

/-- An UNLOCK that the owner's daemon is delivered is the owner's. -/
theorem Runs.unlock_owner {s : Sys} (h : Runs P .init s) {n : UInt32} {nd : Node}
    (hn : s.nodes n = some nd) {x : MemberItem} {m : CpgLockMsg}
    (he : s.log[nd.pos]? = some (.msg x m)) {out : List CpgLockMsg}
    (hout : (nd.view s.log n).out = if x.nodeid = n then m :: out else out)
    (hm : m.request = .unlock) {l : CpgLock} (hl : ((nd.view s.log n).cell m.resource).lock = some l)
    (hown : l.ownerNodeid = n) : l.ownerNodeid = m.ownerNodeid ∧ l.ownerPid = m.ownerPid := by
  have hmem := Runs.mem_passed hP h hn he hout ⟨.inr hm, rfl⟩ ⟨l, hl, .inl hown⟩
  obtain ⟨l', hl', -, -, hmn, hmp⟩ :=
    (((Runs.leads hP h).2 n nd hn).turn m.resource).unlock m hmem hm rfl
  obtain rfl := Option.some.inj (hl.symm.trans hl')
  exact ⟨hown.trans hmn.symm, hmp.symm⟩

/-- When the granter has no GRANT or UNLOCK for the lock on its way, nobody has. -/
theorem Runs.nothing_passes {s : Sys} (h : Runs P .init s) {n : UInt32} {nd : Node}
    (hn : s.nodes n = some nd) {r : Resource} (hsince : nd.since < nd.pos)
    (hg : (Ledger.of (s.log.take nd.pos)).Granter r n)
    (hstill : ((nd.view s.log n).cell r).Still r) :
    (∀ j x m, nd.pos ≤ j → s.log[j]? = some (.msg x m) → ¬m.Passes r) ∧
      ∀ k nd', s.nodes k = some nd' → ∀ m ∈ nd'.d.out, ¬m.Passes r := by
  have hs := Runs.sound h
  obtain ⟨hlead, hv⟩ := Runs.leads hP h
  have hnone : ∀ m ∈ coming s.log n nd.pos ++ nd.d.out, ¬m.Passes r := fun m hm hp =>
    hstill m (List.mem_filter.2 ⟨hm, Leads.concerns_of_passes hp⟩) hp
  obtain ⟨hall, hlog⟩ := hs.quiet_log hlead hn hsince hg fun m hm =>
    hnone m (List.mem_append_left _ hm)
  refine ⟨hlog, fun k nd' hk m hm hp => ?_⟩
  have hplain := (h.plain_of fun s a hp => (hP s a hp).1).2 k nd' hk
  obtain ⟨hk', -⟩ := hs.waiting hlead (hv k nd' hk) hplain hk hm hp
  obtain rfl := hs.ordered.inv_all.granter_unique hk' hall
  obtain rfl := Option.some.inj (hn.symm.trans hk)
  exact hnone m (List.mem_append_right _ hm) hp

end

end Cpglock
