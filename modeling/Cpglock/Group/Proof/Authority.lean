import Cpglock.Group.OldestHost
import Cpglock.Group.Proof.Plain

/-!
# Whom the tables let grant

`Auth`: a daemon whose entry for `r` it owns is the granter of `r` (`owner`), and a joined daemon
that is not the node of the last GRANT either has that node as the owner of its entry or lists it
ahead of itself (`cand`), so it does not take itself for the oldest daemon with an unknown lock.
-/

namespace Cpglock

structure Auth (done : List Event) (n : UInt32) (v : Daemon) : Prop where
  owner : ∀ r, (v.cell r).owner = some n → (Ledger.of done).Granter r n
  cand : v.joined = true → ∀ r c, (Ledger.of done).cand r = some c → c ≠ n →
    (v.cell r).owner = some c ∨ Precedes v.ids c n

/-! ## The granter of the ledger -/

namespace Ledger

theorem candAfter_of_ne {G : Ledger} {x : MemberItem} {m : CpgLockMsg} {r : Resource}
    (h : ¬(m.request = .grant ∧ m.resource = r)) : G.candAfter (.msg x m) r = G.cand r := by
  simp only [candAfter, if_neg h]

theorem candAfter_grant {G : Ledger} {x : MemberItem} {m : CpgLockMsg} (hm : m.request = .grant)
    {g : Membership} (hg : G.views m.ownerNodeid = some g) (hj : g.joined = true) :
    G.candAfter (.msg x m) m.resource = some m.ownerNodeid := by
  simp [candAfter, hm, hg, hj]

theorem candAfter_grant_eq {G : Ledger} {x : MemberItem} {m : CpgLockMsg} {c : UInt32}
    (hm : m.request = .grant) (h : G.candAfter (.msg x m) m.resource = some c) :
    c = m.ownerNodeid := by
  simp only [candAfter, hm, true_and, if_true] at h
  split at h
  · exact (Option.some.inj h).symm
  · cases h

/-- A granter stays it through the events that neither grant the lock nor remove the node. -/
theorem Granter.step {G : Ledger} {e : Event} {r : Resource} {n : UInt32} (h : G.Granter r n)
    (hok : G.EventOk e) (hs : Stays n e)
    (hg : ∀ x m, e = .msg x m → ¬(m.request = .grant ∧ m.resource = r)) :
    (G.step e).Granter r n := by
  have hold := fun ho : G.Oldest n => ho.step hok fun members left join he =>
    (hs members left join he).1
  cases e with
  | msg x m =>
    have hc : (G.step (.msg x m)).cand r = G.cand r := candAfter_of_ne (x := x) (hg x m rfl)
    exact h.imp (hc.trans ·) fun h => ⟨hc.trans h.1, hold h.2⟩
  | confchg members left join =>
    obtain ⟨hl, -⟩ := hs _ _ _ rfl
    refine h.imp (fun h => ?_) fun h => ⟨?_, hold h.2⟩
    · simpa [Ledger.step, candAfter, h] using hl
    · simp [Ledger.step, candAfter, h.1]

end Ledger

/-! ## Steps -/

theorem Membership.precedes_deliver {g : Membership} {e : Event} {a b : UInt32}
    (h : Precedes g.ids a b)
    (ha : ∀ x m, e = .msg x m → m.request = .join → a ≠ x.nodeid)
    (hl : ∀ members left join, e = .confchg members left join → a ∉ left.map (·.nodeid)) :
    Precedes (g.deliver e).ids a b := by
  cases e with
  | confchg members left join => exact precedes_configChange h (hl _ _ _ rfl)
  | msg x m =>
    by_cases hj : m.request = .join
    · simp only [deliver, hj]
      exact precedes_processJoin h (ha x m rfl hj)
    · by_cases hh : m.request = .halt
      · simp only [deliver, hh]
        exact h
      · rwa [deliver_msg_of_ne hj hh]

theorem Daemon.ids_deliver (d : Daemon) (now : Nat) (e : Event) :
    (d.deliver now e).ids = (d.toMembership.deliver e).ids :=
  congrArg Membership.ids (deliver_toMembership d now e)

/-- What a configuration change makes of a joined daemon's entry: its owner stays or has left, and
the daemon becomes the owner only as the oldest. -/
theorem Daemon.owner_configChange {v : Daemon} {r : Resource} {members left join : List MemberItem}
    (hn : v.myNodeId ∈ v.ids) :
    (((v.cpgConfigChange members left join).cell r).owner = (v.cell r).owner ∨
      ∃ x ∈ left, (v.cell r).owner = some x.nodeid) ∧
    (((v.cpgConfigChange members left join).cell r).owner = some v.myNodeId →
      (v.cell r).owner = some v.myNodeId ∨
        (v.toMembership.configChange members left join).ids.head? = some v.myNodeId) := by
  refine (cell_configChange_induction (I := fun g c => (g.myNodeId = v.myNodeId ∧ v.myNodeId ∈ g.ids)
    ∧ (c.owner = (v.cell r).owner ∨ ∃ x ∈ left, (v.cell r).owner = some x.nodeid) ∧
      (c.owner = some v.myNodeId →
        (v.cell r).owner = some v.myNodeId ∨ g.ids.head? = some v.myNodeId)) ?_
    (fun _ _ h => h) (fun _ _ _ h => h) fun g c x h hx _ hne => ?_).2
  · obtain ⟨t, ht, -⟩ := v.toMembership.ids_setUp members join
    refine ⟨⟨?_, by rw [ht]; exact List.mem_append_left _ hn⟩, .inl rfl, .inl⟩
    unfold Membership.setUp
    split <;> rfl
  · obtain ⟨⟨hme, hmem⟩, hown, hmine⟩ := h
    rw [hme] at hne
    have hmem' := Membership.mem_ids_erase hmem hne
    refine ⟨⟨hme, hmem'⟩, ?_⟩
    rcases Cell.delNode_owner (r := r) c g.myNodeId g.myPid x.nodeid
      ((g.groupMembers.erase x).head?.getD v.stray) with h | ⟨hc, h⟩
    · rw [h]
      exact ⟨hown, fun ho => (hmine ho).imp_right (Membership.head?_ids_erase · hne)⟩
    · refine ⟨.inr ?_, fun ho => .inr ?_⟩
      · rcases hown with ho | ho
        · exact ⟨x, hx, ho.symm.trans hc⟩
        · exact ho
      · rw [h] at ho
        rw [Membership.ids, List.head?_map]
        cases hl : g.groupMembers.erase x with
        | nil => simp [Membership.ids, hl] at hmem'
        | cons y l =>
          rw [hl] at ho
          simpa using ho

theorem Auth.msg {done : List Event} {n : UInt32} {v : Daemon} {out : List CpgLockMsg} {now : Nat}
    {x : MemberItem} {m : CpgLockMsg} (h : Auth done n v) (hp : Plain n v)
    (hi : (Ledger.of done).Inv) (hok : (Ledger.of done).EventOk (.msg x m))
    (hviews : (Ledger.of done).views n = some v.toMembership)
    (hreal : m.request = .grant → m.ownerPid ≠ 0 ∧ m.ownerNodeid ≠ 0) :
    Auth (done ++ [.msg x m]) n (({ v with out } : Daemon).deliver now (.msg x m)) := by
  have hstep := fun r => (Daemon.cellStep_deliver (r := r) { v with out } now x m).owner hreal
  have hids : (({ v with out } : Daemon).deliver now (.msg x m)).ids =
    (v.toMembership.deliver (.msg x m)).ids := Daemon.ids_deliver _ _ _
  refine ⟨fun r ho => ?_, fun hj r c hc hne => ?_⟩
  · rw [Ledger.of_append]
    rcases hstep r with ⟨hsame, hng⟩ | ⟨-, -, -, -, h0⟩ | ⟨hj, hm, rfl, hgr⟩
    · have hov : (v.cell r).owner = some n := hsame.symm.trans ho
      refine (h.owner r hov).step hok (stays_msg _ _ _) ?_
      rintro _ _ ⟨⟩ hg
      refine hng ⟨?_, hg⟩
      -- a daemon that has not joined has no entry
      cases hj : v.joined with
      | true => rfl
      | false =>
        have := hp.empty hj r
        rw [← Cell.owner_eq_none, hov] at this
        cases this
    · rw [h0] at ho
      exact absurd (Option.some.inj ho).symm hp.pos
    · rw [hgr] at ho
      have hn : m.ownerNodeid = n := Option.some.inj ho
      refine .inl ?_
      rw [← hn] at hviews ⊢
      exact Ledger.candAfter_grant (x := x) hm hviews hj
  · rw [Ledger.of_append] at hc
    have hc : (Ledger.of done).candAfter (.msg x m) r = some c := hc
    rw [hids]
    have hjoin : (v.toMembership.deliver (.msg x m)).joined = true := by
      rwa [Daemon.joined_deliver] at hj
    by_cases hg : m.request = .grant ∧ m.resource = r
    · obtain ⟨hm, rfl⟩ := hg
      have hjv : v.joined = true := by
        rwa [Membership.deliver_joined] at hjoin
        rintro _ _ ⟨⟩ hj'
        rw [hm] at hj'
        cases hj'
      rcases hstep m.resource with ⟨-, hng⟩ | ⟨-, hl, -⟩ | ⟨-, -, -, hgr⟩
      · exact absurd ⟨hjv, hm, rfl⟩ hng
      · rw [hm] at hl
        cases hl
      · exact .inl (hgr.trans (congrArg some (Ledger.candAfter_grant_eq hm hc).symm))
    · rw [Ledger.candAfter_of_ne hg] at hc
      obtain ⟨gc, hgc, hjc⟩ := hi.cand r c hc
      cases hjv : v.joined with
      | true =>
        rcases h.cand hjv r c hc hne with ho | hpre
        · refine .inl ?_
          rcases hstep r with ⟨hsame, -⟩ | ⟨-, -, -, hnone, -⟩ | ⟨-, hm, hr, -⟩
          · exact hsame.trans ho
          · exact absurd (hnone.symm.trans ho) (by simp)
          · exact absurd ⟨hm, hr⟩ hg
        · refine .inr (Membership.precedes_deliver hpre ?_ (by rintro _ _ _ ⟨⟩))
          -- the sender of a JOIN has not joined, and the granter has
          rintro _ _ ⟨⟩ hj' rfl
          obtain ⟨g, hgv, hgj⟩ := hok hj'
          rw [Option.some.inj (hgv.symm.trans hgc), hjc] at hgj
          cases hgj
      | false =>
        -- the daemon joins by this message, behind everyone who had joined
        have hself := hi.self n _ hviews
        have hnot : n ∉ v.ids := fun hn => by
          rw [hself.2, hjv] at hn
          cases hn
        obtain ⟨hj', hxn⟩ : m.request = .join ∧ x.nodeid = n := by
          by_contra hcon
          rw [Membership.deliver_joined, hjv] at hjoin
          · cases hjoin
          · rintro _ _ ⟨⟩ hj' hxn
            exact hcon ⟨hj', hxn.trans hself.1⟩
        refine .inr ?_
        simp only [Membership.deliver, hj', hxn]
        rw [Membership.processJoin_of_not_mem hnot]
        exact .of_mem_append (hi.listed n c _ hviews ⟨gc, hgc, hjc⟩ hne) hnot _

theorem Auth.change {done : List Event} {n : UInt32} {v : Daemon} {now : Nat}
    {members : UInt32 → List MemberItem} {left join : List MemberItem} (h : Auth done n v)
    (hp : Plain n v) (hi : (Ledger.of done).Inv)
    (hok : (Ledger.of done).EventOk (.confchg members left join))
    (hviews : v.joined = true → (Ledger.of done).views n = some v.toMembership ∧
      Stays n (.confchg members left join)) :
    Auth (done ++ [.confchg members left join]) n
      (v.deliver now (.confchg members left join)) := by
  have hjoin : (v.deliver now (.confchg members left join)).joined = v.joined := by
    rw [Daemon.joined_deliver]
    exact Membership.configChange_joined ..
  have hown := fun r (hj : v.joined = true) =>
    @Daemon.owner_configChange v r (members v.myNodeId) left join <| by
      have := hi.self n _ (hviews hj).1
      rw [hp.me, this.2]
      exact hj
  -- the owner of an entry that the change leaves alone
  have hstays : ∀ {r c}, v.joined = true → (v.cell r).owner = some c → c ∉ left.map (·.nodeid) →
      ((v.deliver now (.confchg members left join)).cell r).owner = some c := by
    intro r c hj ho hl
    rcases (hown r hj).1 with h | ⟨x, hx, h⟩
    · exact h.trans ho
    · obtain rfl := Option.some.inj (h.symm.trans ho)
      exact absurd (List.mem_map_of_mem hx) hl
  refine ⟨fun r ho => ?_, fun hj r c hc hne => ?_⟩
  · cases hj : v.joined with
    | false =>
      have hnone : ((v.deliver now (.confchg members left join)).cell r).lock = none :=
        Daemon.cpgConfigChange_lock_none (hp.empty hj r)
      rw [← Cell.owner_eq_none, ho] at hnone
      cases hnone
    | true =>
      obtain ⟨hv, hs⟩ := hviews hj
      rw [Ledger.of_append]
      have ho' := ho
      rw [← hp.me] at ho'
      rcases (hown r hj).2 ho' with hmine | hhead
      · exact (h.owner r (hmine.trans (congrArg some hp.me))).step hok hs (by rintro _ _ ⟨⟩)
      · rw [hp.me] at hhead
        have hold : ((Ledger.of done).step (.confchg members left join)).Oldest n := by
          refine ⟨_, Ledger.viewsAfter_of_stays hs hv hp.me, ?_, ?_⟩
          · exact (Membership.configChange_joined ..).trans hj
          · simpa only [Membership.deliver, hp.me] using hhead
        cases hc : ((Ledger.of done).step (.confchg members left join)).cand r with
        | none => exact .inr ⟨hc, hold⟩
        | some c =>
          refine .inl (hc.trans (congrArg some ?_))
          -- were it another node's, that node would own the entry or be listed ahead
          by_contra hne
          obtain ⟨hc', hl⟩ : (Ledger.of done).cand r = some c ∧ c ∉ left.map (·.nodeid) := by
            simpa [Ledger.step, Ledger.candAfter, Option.filter_eq_some_iff] using hc
          rcases h.cand hj r c hc' hne with ho₀ | hpre
          · exact hne (Option.some.inj ((hstays hj ho₀ hl).symm.trans ho))
          · exact (Membership.precedes_configChange hpre hl).head?_ne hhead
  · rw [hjoin] at hj
    rw [Ledger.of_append] at hc
    obtain ⟨hc', hl⟩ : (Ledger.of done).cand r = some c ∧ c ∉ left.map (·.nodeid) := by
      simpa [Ledger.step, Ledger.candAfter, Option.filter_eq_some_iff] using hc
    rcases h.cand hj r c hc' hne with ho | hpre
    · exact .inl (hstays hj ho hl)
    · rw [Daemon.ids_deliver]
      exact .inr (Membership.precedes_configChange hpre hl)

/-- What a client does changes neither owners nor the member list. -/
theorem Auth.client {done : List Event} {n : UInt32} {v v' : Daemon} (h : Auth done n v)
    (hm : v'.toMembership = v.toMembership) (ho : ∀ r, (v'.cell r).owner = (v.cell r).owner) :
    Auth done n v' := by
  refine ⟨fun r hr => h.owner r ((ho r).symm.trans hr), fun hj r c hc hne => ?_⟩
  rw [ho r, hm]
  exact h.cand ((congrArg Membership.joined hm).symm.trans hj) r c hc hne

/-- A daemon that is delivered a message has been delivered the change that announced it. -/
theorem Enrolled.views_of_msg {log : List Event} {n : UInt32} {nd : Node} {x : MemberItem}
    {m : CpgLockMsg} (h : Enrolled log n nd) (he : log[nd.pos]? = some (.msg x m)) :
    (Ledger.of (log.take nd.pos)).views n = some nd.d.toMembership := by
  have hm := h.member
  split at hm
  · next heq =>
    obtain ⟨_, _, _, he', -⟩ := h.enters
    rw [heq, he'] at he
    cases he
  · exact hm

theorem Runs.auth {P : Sys → Act → Prop} (hP : ∀ s a, P s a → a.HasPid) {s : Sys}
    (h : Runs P .init s) : s.Views Auth := by
  refine (h.rule (L := fun _ _ _ => True) (I := Auth) Sys.sound_init (fun _ _ _ _ => trivial)
    (by intro n nd h; cases h) ?_ (fun _ _ _ _ _ _ _ _ _ _ _ _ => trivial) ?_).2.2
  · exact fun s _ _ _ _ _ _ _ _ x b _ hx => ⟨fun r h => (nomatch h), fun hj => (nomatch hj)⟩
  · intro s a n nd v pos hs hr hp _ hv hn _ hstep
    obtain ⟨hlog, hplain⟩ := Runs.plain hP hr
    have hauth := hv n nd hn
    have hen := hs.node n nd hn
    have hi := hs.ordered.inv nd.pos (hs.bounded n nd hn)
    generalize hview : nd.view s.log n = w at hstep hauth
    have hw : w.toMembership = nd.d.toMembership := hview ▸ rfl
    have hpl : Plain n w := hview ▸ hplain n nd hn
    cases hstep with
    | @msg x m out he hout =>
      rw [List.take_add_one, he]
      refine hauth.msg hpl hi (hs.ordered _ _ he) ?_ fun hm => hlog _ x m he (.inr (.inl hm))
      rw [hw]
      exact hen.views_of_msg he
    | @change members left join he =>
      rw [List.take_add_one, he]
      refine hauth.change hpl hi (hs.ordered _ _ he) fun hj => ?_
      rw [hw] at hj ⊢
      obtain ⟨hlt, hv⟩ := hen.views hj
      exact ⟨hv, hen.stays _ _ hlt he⟩
    | connect => exact hauth.client rfl fun _ => rfl
    | recv =>
      exact hauth.client (Daemon.clientActivityCb_out _ _ _).1
        fun r => Daemon.owner_clientActivityCb _ r _ _
    | close =>
      exact hauth.client (Daemon.frame_delClient _ _).membership
        fun r => Daemon.owner_delClient _ r _

end Cpglock
