import Cpglock.Group.Ledger

/-!
# Two daemons are never both the oldest

`Ledger.Inv` relates the member lists of any two live daemons after the same prefix of the order:
a joined daemon is on everybody's list (`listed`), and of two joined daemons one stands behind the
other on its own list (`order`), whatever arrays the daemons started from. So at most one of them
is first on its own (`Inv.oldest_unique`). `Inv.step` is the induction step, `Oldest.step` says that
the oldest daemon stays it until it leaves.
-/

namespace Cpglock.Ledger

/-- What the member lists have in common. -/
structure Inv (G : Ledger) : Prop where
  self : ∀ n g, G.views n = some g → g.myNodeId = n ∧ (n ∈ g.ids ↔ g.joined = true)
  listed : ∀ x c gx, G.views x = some gx → G.Joined c → c ≠ x → c ∈ gx.ids
  order : ∀ x c gx gc, G.views x = some gx → G.views c = some gc → gx.joined = true →
    gc.joined = true → x ≠ c → Precedes gx.ids c x ∨ Precedes gc.ids x c
  cand : ∀ r c, G.cand r = some c → G.Joined c

/-- The events CPG can order after a prefix: a live daemon's one JOIN, and changes by which new
nodes enter and are handed arrays that list the group. -/
def EventOk (G : Ledger) : Event → Prop
  | .msg s m => m.request = .join → ∃ g, G.views s.nodeid = some g ∧ g.joined = false
  | .confchg members left join =>
    (∀ x ∈ join, G.views x.nodeid = none) ∧
      ∀ x ∈ join, ∀ c, (G.viewsAfter (.confchg members left join) c).isSome →
        c ∈ (members x.nodeid).map (·.nodeid)

theorem inv_init : Inv init where
  self := by intro n g h; cases h
  listed := by intro x c gx h; cases h
  order := by intro x c gx gc h; cases h
  cand := by intro r c h; cases h

/-! ## The two kinds of events -/

/-- A daemon live after a change has not left, and entered by the change or was live before. -/
theorem viewsAfter_confchg {G : Ledger} {members : UInt32 → List MemberItem}
    {left join : List MemberItem} {n : UInt32} {g : Membership}
    (h : G.viewsAfter (.confchg members left join) n = some g) :
    n ∉ left.map (·.nodeid) ∧
    ((∃ x ∈ join, x.nodeid = n ∧ g = (Membership.init n x.pid).configChange (members n) left join) ∨
      ∃ g₀, G.views n = some g₀ ∧ g = g₀.configChange (members n) left join) := by
  simp only [viewsAfter] at h
  split at h
  · cases h
  · next hl =>
    refine ⟨hl, ?_⟩
    split at h
    · next x hx =>
      have hn : x.nodeid = n := by simpa using List.find?_some hx
      refine .inl ⟨x, List.mem_of_find?_eq_some hx, hn, ?_⟩
      rw [← hn]
      exact ((Option.some.inj h).symm.trans (by rw [hn])).trans (by rw [hn])
    · obtain ⟨g₀, h₀, rfl⟩ := Option.map_eq_some_iff.1 h
      exact .inr ⟨g₀, h₀, rfl⟩

theorem views_msg_of_ne {G : Ledger} {s : MemberItem} {m : CpgLockMsg} {n : UInt32} {g : Membership}
    (hj : m.request ≠ .join) (h : G.viewsAfter (.msg s m) n = some g) :
    ∃ g₀, G.views n = some g₀ ∧ g.myNodeId = g₀.myNodeId ∧ g.ids = g₀.ids ∧
      g.joined = g₀.joined := by
  simp only [viewsAfter] at h
  split at h
  · next he => exact absurd he hj
  · obtain ⟨g₀, h₀, rfl⟩ := Option.map_eq_some_iff.1 h
    exact ⟨g₀, h₀, rfl, rfl, rfl⟩
  · exact ⟨g, h, rfl, rfl, rfl⟩

theorem views_join {G : Ledger} {s : MemberItem} {m : CpgLockMsg} {n : UInt32} {g : Membership}
    (hj : m.request = .join) (h : G.viewsAfter (.msg s m) n = some g) :
    ∃ g₀, G.views n = some g₀ ∧ g = g₀.processJoin s.nodeid s.pid := by
  simp only [viewsAfter, hj] at h
  obtain ⟨g₀, h₀, rfl⟩ := Option.map_eq_some_iff.1 h
  exact ⟨g₀, h₀, rfl⟩

/-- Nobody's membership is lost by a message. -/
theorem views_msg_isSome {G : Ledger} {s : MemberItem} {m : CpgLockMsg} {n : UInt32}
    {g : Membership} (h : G.views n = some g) :
    ∃ g', G.viewsAfter (.msg s m) n = some g' ∧ (g.joined = true → g'.joined = true) := by
  simp only [viewsAfter]
  split
  · refine ⟨g.processJoin s.nodeid s.pid, by rw [h]; rfl, fun hg => ?_⟩
    exact (Membership.processJoin_joined g _ _).2 (.inl hg)
  · exact ⟨{ g with stopped := true }, by rw [h]; rfl, id⟩
  · exact ⟨g, h, id⟩

/-- A daemon that does not leave stays through a change. -/
theorem views_confchg_isSome {G : Ledger} {members : UInt32 → List MemberItem}
    {left join : List MemberItem} {n : UInt32} {g : Membership}
    (hok : G.EventOk (.confchg members left join)) (h : G.views n = some g)
    (hl : n ∉ left.map (·.nodeid)) :
    G.viewsAfter (.confchg members left join) n = some (g.configChange (members n) left join) := by
  simp only [viewsAfter, hl, if_false]
  split
  · next x hx =>
    have := hok.1 x (List.mem_of_find?_eq_some hx)
    rw [show x.nodeid = n by simpa using List.find?_some hx, h] at this
    cases this
  · rw [h]; rfl

/-! ## Preservation -/

theorem Inv.step_confchg {G : Ledger} (hi : G.Inv) {members : UInt32 → List MemberItem}
    {left join : List MemberItem} (hok : G.EventOk (.confchg members left join)) :
    (G.step (.confchg members left join)).Inv := by
  -- a joined daemon was joined before the change
  have hold : ∀ {c gc}, G.viewsAfter (.confchg members left join) c = some gc → gc.joined = true →
      c ∉ left.map (·.nodeid) ∧ ∃ g₀, G.views c = some g₀ ∧ g₀.joined = true ∧
        gc = g₀.configChange (members c) left join := by
    intro c gc hc hj
    obtain ⟨hl, ⟨x, -, -, rfl⟩ | ⟨g₀, h₀, rfl⟩⟩ := viewsAfter_confchg hc
    · simp [Membership.init] at hj
    · exact ⟨hl, g₀, h₀, by simpa using hj, rfl⟩
  refine ⟨fun n g h => ?_, fun x c gx hx hc hne => ?_, fun x c gx gc hx hc hjx hjc hne => ?_,
    fun r c h => ?_⟩
  · obtain ⟨hl, ⟨x, -, -, rfl⟩ | ⟨g₀, h₀, rfl⟩⟩ := viewsAfter_confchg h
    · refine ⟨by simp [Membership.init], ⟨fun hn => ?_, fun hj => by simp [Membership.init] at hj⟩⟩
      rcases Membership.mem_of_configChange hn with hn | ⟨hne, -⟩
      · simp [Membership.init, Membership.ids] at hn
      · exact absurd rfl hne
    · obtain ⟨hme, hiff⟩ := hi.self n g₀ h₀
      refine ⟨by simp [hme], ?_⟩
      rw [Membership.configChange_joined, ← hiff]
      refine ⟨fun hn => ?_, fun hn => Membership.mem_configChange hn hl⟩
      rcases Membership.mem_of_configChange hn with hn | ⟨hne, -⟩
      · exact hn
      · exact absurd hme.symm hne
  · obtain ⟨gc, hc, hjc⟩ := hc
    obtain ⟨hlc, g₀, h₀, hj₀, rfl⟩ := hold hc hjc
    obtain ⟨-, ⟨y, hy, rfl, rfl⟩ | ⟨gx₀, hx₀, rfl⟩⟩ := viewsAfter_confchg hx
    · refine Membership.mem_configChange_init ?_ hne (List.mem_map_of_mem hy) hlc
      exact hok.2 y hy c (Option.isSome_iff_exists.2 ⟨_, hc⟩)
    · exact Membership.mem_configChange (hi.listed x c gx₀ hx₀ ⟨g₀, h₀, hj₀⟩ hne) hlc
  · obtain ⟨hlx, gx₀, hx₀, hjx₀, rfl⟩ := hold hx hjx
    obtain ⟨hlc, gc₀, hc₀, hjc₀, rfl⟩ := hold hc hjc
    exact (hi.order x c gx₀ gc₀ hx₀ hc₀ hjx₀ hjc₀ hne).imp
      (Membership.precedes_configChange · hlc) (Membership.precedes_configChange · hlx)
  · obtain ⟨hc, hl⟩ : G.cand r = some c ∧ c ∉ left.map (·.nodeid) := by
      simpa [step, candAfter, Option.filter_eq_some_iff] using h
    obtain ⟨g, hg, hj⟩ := hi.cand r c hc
    exact ⟨_, views_confchg_isSome hok hg hl, by simpa using hj⟩

theorem Inv.step_join {G : Ledger} (hi : G.Inv) {s : MemberItem} {m : CpgLockMsg}
    (hj : m.request = .join) (hok : G.EventOk (.msg s m)) : (G.step (.msg s m)).Inv := by
  obtain ⟨gs, hs, hns⟩ := hok hj
  -- the sender's list does not have it yet
  have hnot : s.nodeid ∉ gs.ids := fun h => by
    rw [(hi.self _ _ hs).2] at h
    simp [h] at hns
  refine ⟨fun n g h => ?_, fun x c gx hx hc hne => ?_, fun x c gx gc hx hc hjx hjc hne => ?_,
    fun r c h => ?_⟩
  · obtain ⟨g₀, h₀, rfl⟩ := views_join hj h
    obtain ⟨hme, hiff⟩ := hi.self n g₀ h₀
    refine ⟨by simp [hme], ?_⟩
    rw [Membership.mem_processJoin, Membership.processJoin_joined, hme, ← hiff]
    by_cases hn : n ∈ g₀.ids
    · simp [hn]
    · constructor
      · rintro (h | rfl)
        · exact absurd h hn
        · exact .inr ⟨rfl, hn⟩
      · rintro (h | ⟨rfl, -⟩)
        · exact absurd h hn
        · exact .inr rfl
  · obtain ⟨gx₀, hx₀, rfl⟩ := views_join hj hx
    obtain ⟨gc, hc, hjc⟩ := hc
    obtain ⟨gc₀, hc₀, rfl⟩ := views_join hj hc
    rw [Membership.mem_processJoin]
    rcases (Membership.processJoin_joined _ _ _).1 hjc with hjc | ⟨h, -⟩
    · exact .inl (hi.listed x c gx₀ hx₀ ⟨gc₀, hc₀, hjc⟩ hne)
    · exact .inr (by rw [h, (hi.self _ _ hc₀).1])
  · obtain ⟨gx₀, hx₀, rfl⟩ := views_join hj hx
    obtain ⟨gc₀, hc₀, rfl⟩ := views_join hj hc
    -- the daemon that joins by this message stands behind the other one
    have hnew : ∀ {a b ga gb}, G.views a = some ga → G.views b = some gb → ga.joined = true →
        a ≠ b → s.nodeid = b → Precedes (gb.processJoin s.nodeid s.pid).ids a b := by
      intro a b ga gb ha hb hja hab hsb
      subst hsb
      obtain rfl : gs = gb := Option.some.inj (hs.symm.trans hb)
      rw [Membership.processJoin_of_not_mem hnot]
      exact .of_mem_append (hi.listed _ a _ hb ⟨ga, ha, hja⟩ hab) hnot _
    rcases (Membership.processJoin_joined _ _ _).1 hjx with hjx | ⟨hsx, -⟩ <;>
      rcases (Membership.processJoin_joined _ _ _).1 hjc with hjc | ⟨hsc, -⟩
    · have hne' : ∀ {a ga}, G.views a = some ga → ga.joined = true → a ≠ s.nodeid := by
        rintro a ga ha hja rfl
        rw [Option.some.inj (hs.symm.trans ha)] at hns
        simp [hja] at hns
      exact (hi.order x c gx₀ gc₀ hx₀ hc₀ hjx hjc hne).imp
        (Membership.precedes_processJoin · (hne' hc₀ hjc))
        (Membership.precedes_processJoin · (hne' hx₀ hjx))
    · exact .inr (hnew hx₀ hc₀ hjx hne (by rw [hsc, (hi.self _ _ hc₀).1]))
    · exact .inl (hnew hc₀ hx₀ hjc hne.symm (by rw [hsx, (hi.self _ _ hx₀).1]))
    · rw [(hi.self _ _ hx₀).1] at hsx
      rw [(hi.self _ _ hc₀).1] at hsc
      exact absurd (hsx.symm.trans hsc) hne
  · obtain ⟨g, hg, hjg⟩ := hi.cand r c (by simpa [step, candAfter, hj] using h)
    obtain ⟨g', h', hj'⟩ := views_msg_isSome (s := s) (m := m) hg
    exact ⟨g', h', hj' hjg⟩

theorem Inv.step_other {G : Ledger} (hi : G.Inv) {s : MemberItem} {m : CpgLockMsg}
    (hj : m.request ≠ .join) : (G.step (.msg s m)).Inv := by
  refine ⟨fun n g h => ?_, fun x c gx hx hc hne => ?_, fun x c gx gc hx hc hjx hjc hne => ?_,
    fun r c h => ?_⟩
  · obtain ⟨g₀, h₀, hme, hids, hjoin⟩ := views_msg_of_ne hj h
    rw [hme, hids, hjoin]
    exact hi.self n g₀ h₀
  · obtain ⟨gx₀, hx₀, -, hids, -⟩ := views_msg_of_ne hj hx
    obtain ⟨gc, hc, hjc⟩ := hc
    obtain ⟨gc₀, hc₀, -, -, hjoin⟩ := views_msg_of_ne hj hc
    rw [hids]
    exact hi.listed x c gx₀ hx₀ ⟨gc₀, hc₀, hjoin ▸ hjc⟩ hne
  · obtain ⟨gx₀, hx₀, -, hidx, hjx₀⟩ := views_msg_of_ne hj hx
    obtain ⟨gc₀, hc₀, -, hidc, hjc₀⟩ := views_msg_of_ne hj hc
    rw [hidx, hidc]
    exact hi.order x c gx₀ gc₀ hx₀ hc₀ (hjx₀ ▸ hjx) (hjc₀ ▸ hjc) hne
  · have hjoined : G.Joined c := by
      simp only [step, candAfter] at h
      split at h
      · split at h
        · next hany =>
          obtain rfl := Option.some.inj h
          obtain ⟨g, hg, hjg⟩ := Option.any_eq_true_iff_get _ _ |>.1 hany |> fun ⟨h₁, h₂⟩ =>
            (⟨_, Option.eq_some_of_isSome h₁, h₂⟩ : ∃ g, G.views m.ownerNodeid = some g ∧ g.joined)
          exact ⟨g, hg, hjg⟩
        · cases h
      · exact hi.cand r c h
    obtain ⟨g, hg, hjg⟩ := hjoined
    obtain ⟨g', h', hj'⟩ := views_msg_isSome (s := s) (m := m) hg
    exact ⟨g', h', hj' hjg⟩

/-- Every event keeps the invariant. -/
theorem Inv.step {G : Ledger} (hi : G.Inv) {e : Event} (hok : G.EventOk e) : (G.step e).Inv := by
  cases e with
  | confchg members left join => exact hi.step_confchg hok
  | msg s m =>
    by_cases hj : m.request = .join
    · exact hi.step_join hj hok
    · exact hi.step_other hj

/-! ## The oldest daemon -/

/-- At most one joined daemon is at the head of its own list. -/
theorem Inv.oldest_unique {G : Ledger} (hi : G.Inv) {x c : UInt32} (hx : G.Oldest x)
    (hc : G.Oldest c) : x = c := by
  obtain ⟨gx, hx, hjx, hhx⟩ := hx
  obtain ⟨gc, hc, hjc, hhc⟩ := hc
  by_contra hne
  rcases hi.order x c gx gc hx hc hjx hjc hne with h | h
  · exact h.head?_ne hhx
  · exact h.head?_ne hhc

/-- The oldest daemon stays the oldest until it leaves. -/
theorem Oldest.step {G : Ledger} {e : Event} {n : UInt32} (h : G.Oldest n) (hok : G.EventOk e)
    (hl : ∀ members left join, e = .confchg members left join → n ∉ left.map (·.nodeid)) :
    (G.step e).Oldest n := by
  obtain ⟨g, hg, hj, hh⟩ := h
  cases e with
  | confchg members left join =>
    have hl := hl _ _ _ rfl
    exact ⟨_, views_confchg_isSome hok hg hl, by simpa using hj,
      Membership.head?_configChange hh hl⟩
  | msg s m =>
    by_cases hm : m.request = .join
    · obtain ⟨gs, hs, hns⟩ := hok hm
      have hne : n ≠ s.nodeid := by
        rintro rfl
        rw [Option.some.inj (hs.symm.trans hg)] at hns
        simp [hj] at hns
      refine ⟨g.processJoin s.nodeid s.pid, by simp [Ledger.step, viewsAfter, hm, hg], ?_,
        Membership.head?_processJoin hh hne⟩
      exact (Membership.processJoin_joined _ _ _).2 (.inl hj)
    · simp only [Oldest, Ledger.step, viewsAfter, hg]
      split
      · next he => exact absurd he hm
      · exact ⟨_, rfl, hj, hh⟩
      · exact ⟨g, rfl, hj, hh⟩

/-- The oldest daemon finds itself first. -/
theorem getOldestNode_of_head {d : Daemon} {n : UInt32} (h : d.ids.head? = some n) :
    d.getOldestNode.nodeid = n := by
  rw [Membership.ids, List.head?_map] at h
  obtain ⟨y, hy, rfl⟩ := Option.map_eq_some_iff.1 h
  rw [Daemon.getOldestNode, hy]
  rfl

theorem Oldest.getOldestNode {G : Ledger} {n : UInt32} {d : Daemon} (h : G.Oldest n)
    (hd : G.views n = some d.toMembership) : d.getOldestNode.nodeid = n := by
  obtain ⟨g, hg, -, hhead⟩ := h
  obtain rfl := Option.some.inj (hd.symm.trans hg)
  exact getOldestNode_of_head hhead

/-- A joined daemon that finds itself first is the oldest. -/
theorem Inv.oldest_of_head {G : Ledger} (hi : G.Inv) {n : UInt32} {d : Daemon}
    (hd : G.views n = some d.toMembership) (hj : d.joined = true)
    (hhead : d.getOldestNode.nodeid = n) : G.Oldest n := by
  refine ⟨_, hd, hj, ?_⟩
  have hmem : n ∈ d.ids := (hi.self n _ hd).2.2 hj
  rw [Membership.ids, List.head?_map]
  rw [Daemon.getOldestNode] at hhead
  cases hg : d.groupMembers with
  | nil => simp [Membership.ids, hg] at hmem
  | cons y l =>
    rw [hg] at hhead
    simpa using hhead

theorem Inv.granter_unique {G : Ledger} (hi : G.Inv) {r : Resource} {x c : UInt32}
    (hx : G.Granter r x) (hc : G.Granter r c) : x = c := by
  rcases hx with hx | ⟨hx, hox⟩ <;> rcases hc with hc | ⟨hc, hoc⟩
  · exact Option.some.inj (hx.symm.trans hc)
  · rw [hx] at hc; cases hc
  · rw [hx] at hc; cases hc
  · exact hi.oldest_unique hox hoc

end Cpglock.Ledger
