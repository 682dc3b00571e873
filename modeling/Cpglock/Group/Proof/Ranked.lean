import Cpglock.Group.FixedGroup
import Cpglock.Group.MemberSet
import Cpglock.Group.Proof.Running

/-!
# Member lists in the order of the JOINs

`seniority log`: the live members whose JOINs have been ordered, oldest JOIN first. Where members
enter and leave one by one, and each is handed an array that lists the joined members in this order,
every member list restricted to them is `seniority` (`Ledger.Ranked`, `Ranked.step`).
-/

namespace Cpglock

/-- The joined members in the order of their JOINs, after an event. -/
def Event.promote (J : List MemberItem) : Event → List MemberItem
  | .msg x m => if m.request = .join then J ++ [x] else J
  | .confchg _ left _ => J.filter fun x => x ∉ left

/-- The live members whose JOIN has been ordered, in the order of their JOINs. -/
def seniority (log : List Event) : List MemberItem := log.foldl Event.promote []

@[simp] theorem seniority_append (log : List Event) (e : Event) :
    seniority (log ++ [e]) = e.promote (seniority log) := by simp [seniority]

/-! ## Lists -/

theorem filter_mem_append {l J : List MemberItem} {x : MemberItem}
    (h : l.filter (fun y => y ∈ J) = J) (hx : x ∉ l) :
    (l ++ [x]).filter (fun y => y ∈ J ++ [x]) = J ++ [x] := by
  have hl : l.filter (fun y => y ∈ J ++ [x]) = l.filter (fun y => y ∈ J) := by
    refine List.filter_congr fun y hy => ?_
    have hne : y ≠ x := fun he => hx (he ▸ hy)
    simp [hne]
  rw [List.filter_append, hl, h]
  simp

/-- An element that is not counted may be erased. -/
theorem filter_eraseP_of_not_mem {l J : List MemberItem} {p : MemberItem → Bool}
    (hp : ∀ y ∈ l, p y = true → y ∉ J) :
    (l.eraseP p).filter (fun y => y ∈ J) = l.filter (fun y => y ∈ J) := by
  induction l with
  | nil => rfl
  | cons z l ih =>
    have ih := ih fun y hy => hp y (List.mem_cons_of_mem _ hy)
    by_cases hz : p z = true
    · rw [List.eraseP_cons_of_pos hz, List.filter_cons_of_neg]
      simpa using hp z List.mem_cons_self hz
    · rw [List.eraseP_cons_of_neg hz, List.filter_cons, List.filter_cons, ih]

theorem filter_mem_erase {l J : List MemberItem} {x : MemberItem} (hn : l.Nodup)
    (h : l.filter (fun y => y ∈ J) = J) :
    (l.erase x).filter (fun y => y ∈ J.filter fun z => z ∉ [x]) = J.filter fun z => z ∉ [x] := by
  rw [hn.erase_eq_filter, List.filter_filter]
  conv_rhs => rw [← h, List.filter_filter]
  refine List.filter_congr fun y _ => ?_
  by_cases hy : y = x <;> simp [hy]

/-! ## One membership -/

namespace Membership

/-- A list that is exact is not set up again. -/
theorem Distinct.setUp {g : Membership} (h : g.Distinct) (members join : List MemberItem) :
    g.setUp members join = g := by
  have := h.counted
  unfold Membership.setUp
  rw [if_neg]
  omega

theorem Distinct.configChange_enter {g : Membership} (h : g.Distinct)
    (members join : List MemberItem) :
    (g.configChange members [] join).groupMembers = g.groupMembers := by
  unfold Membership.configChange
  rw [h.setUp]
  unfold settle
  dsimp only
  split <;> rfl

theorem Distinct.configChange_leave {g : Membership} (h : g.Distinct) (hs : g.stopped = false)
    (members : List MemberItem) {x : MemberItem} (hx : x.nodeid ≠ g.myNodeId) :
    (g.configChange members [x] []).groupMembers = g.groupMembers.erase x := by
  have hd : (Membership.dropLeft (g, 0) x).1.groupMembers = g.groupMembers.erase x := by
    unfold Membership.dropLeft
    by_cases hm : x ∈ g.groupMembers
    · simp [hs, hm, hx]
    · simp [hs, hm, List.erase_of_not_mem hm]
  unfold Membership.configChange
  rw [h.setUp]
  unfold settle
  dsimp only
  split <;> exact hd

/-- The sender of a JOIN goes to the end of the list. -/
theorem processJoin_groupMembers {g : Membership} {x : MemberItem}
    (h : ∀ y ∈ g.groupMembers, y.nodeid = x.nodeid → y = x) :
    (g.processJoin x.nodeid x.pid).groupMembers =
      g.groupMembers.eraseP (fun y => y.nodeid = x.nodeid) ++ [x] := by
  unfold processJoin
  rcases find_ids (g := g) (n := x.nodeid) with ⟨⟨y, hf, hy, hm⟩, -⟩ | ⟨hf, hn⟩
  · obtain rfl := h y hm hy
    simp only [hf, if_true]
  · have he : g.groupMembers.eraseP (fun y => y.nodeid = x.nodeid) = g.groupMembers := by
      refine List.eraseP_of_forall_not fun y hy hp => hn ?_
      exact List.mem_map.2 ⟨y, hy, by simpa using hp⟩
    simp only [hf, he]

theorem Distinct.not_mem_eraseP {g : Membership} (h : g.Distinct) (x : MemberItem) :
    x ∉ g.groupMembers.eraseP fun y => y.nodeid = x.nodeid := by
  intro hx
  have hxm := List.mem_of_mem_eraseP hx
  obtain ⟨a, l₁, l₂, -, ha, hl, he⟩ := List.exists_of_eraseP (p := fun y => y.nodeid = x.nodeid) hxm
    (by simp)
  have ha : a.nodeid = x.nodeid := by simpa using ha
  obtain rfl : a = x :=
    List.inj_on_of_nodup_map h.nodup (hl ▸ List.mem_append_right _ List.mem_cons_self) hxm ha
  have hnd : g.groupMembers.Nodup := List.Nodup.of_map _ h.nodup
  rw [hl] at hnd
  rw [he] at hx
  exact (List.nodup_cons.1 (List.nodup_middle.1 hnd)).1 hx

end Membership

/-! ## All memberships -/

namespace Ledger

/-- `x` is the process of a live daemon. -/
def Live (G : Ledger) (x : MemberItem) : Prop :=
  ∃ g, G.views x.nodeid = some g ∧ g.myPid = x.pid

/-- The events of such a group. -/
inductive Orderly (G : Ledger) (J : List MemberItem) : Event → Prop
  | msg {x : MemberItem} {m : CpgLockMsg} : m.request ≠ .halt →
      (m.request = .join →
        ∃ g, G.views x.nodeid = some g ∧ g.joined = false ∧ g.myPid = x.pid) →
      Orderly G J (.msg x m)
  | enter {members : UInt32 → List MemberItem} {x : MemberItem} : G.views x.nodeid = none →
      ((members x.nodeid).map (·.nodeid)).Nodup →
      (∀ y, y ∈ members x.nodeid ↔ y = x ∨ G.Live y) →
      (members x.nodeid).filter (fun y => y ∈ J) = J → Orderly G J (.confchg members [] [x])
  | leave {members : UInt32 → List MemberItem} {x : MemberItem} : G.Live x →
      Orderly G J (.confchg members [x] [])

/-- The member lists agree on the joined members. -/
structure Ranked (G : Ledger) (J : List MemberItem) : Prop where
  me : ∀ n g, G.views n = some g → g.myNodeId = n
  exact : ∀ n g, G.views n = some g → g.Distinct ∧ g.stopped = false
  listed : ∀ n g, G.views n = some g → ∀ y ∈ g.groupMembers, G.Live y
  senior : ∀ x, x ∈ J ↔ ∃ g, G.views x.nodeid = some g ∧ g.joined = true ∧ g.myPid = x.pid
  order : ∀ n g, G.views n = some g → g.groupMembers.filter (fun y => y ∈ J) = J

theorem ranked_init : Ranked init [] where
  me := by intro n g h; cases h
  exact := by intro n g h; cases h
  listed := by intro n g h; cases h
  senior := by
    intro x
    constructor
    · intro h; cases h
    · rintro ⟨g, h, -⟩
      cases h
  order := by intro n g h; cases h

namespace Ranked

variable {G : Ledger} {J : List MemberItem}

theorem live_of_mem (h : G.Ranked J) {x : MemberItem} (hx : x ∈ J) : G.Live x := by
  obtain ⟨g, hg, -, hp⟩ := (h.senior x).1 hx
  exact ⟨g, hg, hp⟩

/-- Two live processes of one node are one. -/
theorem Live.unique {x y : MemberItem} (hx : G.Live x) (hy : G.Live y)
    (he : x.nodeid = y.nodeid) : x = y := by
  obtain ⟨g, hg, hp⟩ := hx
  obtain ⟨g', hg', hp'⟩ := hy
  rw [he, hg'] at hg
  obtain rfl := Option.some.inj hg
  exact MemberItem.ext he (hp.symm.trans hp')

theorem other (h : G.Ranked J) {x : MemberItem} {m : CpgLockMsg} (hj : m.request ≠ .join)
    (hh : m.request ≠ .halt) : (G.step (.msg x m)).Ranked (Event.promote J (.msg x m)) := by
  have hv : (G.step (.msg x m)).views = G.views := by
    funext n
    simp only [Ledger.step, viewsAfter]
  have hJ : Event.promote J (.msg x m) = J := by simp [Event.promote, hj]
  rw [hJ]
  refine ⟨?_, ?_, ?_, ?_, ?_⟩ <;> simp only [Live, hv]
  exacts [h.me, h.exact, h.listed, h.senior, h.order]

/-- The sender of a JOIN goes to the end of every list. -/
theorem join (h : G.Ranked J) (hi : G.Inv) {x : MemberItem} {m : CpgLockMsg}
    (hj : m.request = .join) {gx : Membership} (hx : G.views x.nodeid = some gx)
    (hnew : gx.joined = false) (hpid : gx.myPid = x.pid) :
    (G.step (.msg x m)).Ranked (Event.promote J (.msg x m)) := by
  have hJ : Event.promote J (.msg x m) = J ++ [x] := by simp [Event.promote, hj]
  have hv : ∀ n, (G.step (.msg x m)).views n = (G.views n).map (·.processJoin x.nodeid x.pid) := by
    intro n
    simp only [Ledger.step, viewsAfter, hj]
  have hlive : ∀ y, (G.step (.msg x m)).Live y ↔ G.Live y := by
    intro y
    simp [Live, hv]
  have hxJ : x ∉ J := by
    intro hm
    obtain ⟨g, hg, hjg, -⟩ := (h.senior x).1 hm
    rw [hx] at hg
    rw [← Option.some.inj hg, hnew] at hjg
    cases hjg
  -- an entry of the sender's node is the sender
  have hsame : ∀ n g, G.views n = some g → ∀ y ∈ g.groupMembers, y.nodeid = x.nodeid → y = x :=
    fun n g hg y hy he => Live.unique (h.listed n g hg y hy) ⟨gx, hx, hpid⟩ he
  rw [hJ]
  refine ⟨fun n g' hg' => ?_, fun n g' hg' => ?_, fun n g' hg' y hy => ?_, fun y => ?_,
    fun n g' hg' => ?_⟩
  · rw [hv] at hg'
    obtain ⟨g, hg, rfl⟩ := Option.map_eq_some_iff.1 hg'
    rw [Membership.processJoin_myNodeId]
    exact h.me n g hg
  · rw [hv] at hg'
    obtain ⟨g, hg, rfl⟩ := Option.map_eq_some_iff.1 hg'
    exact ⟨(h.exact n g hg).1.processJoin _ _, by simpa using (h.exact n g hg).2⟩
  · rw [hv] at hg'
    obtain ⟨g, hg, rfl⟩ := Option.map_eq_some_iff.1 hg'
    rw [hlive]
    rw [Membership.processJoin_groupMembers (hsame n g hg)] at hy
    rcases List.mem_append.1 hy with hy | hy
    · exact h.listed n g hg y (List.mem_of_mem_eraseP hy)
    · rw [List.mem_singleton.1 hy]
      exact ⟨gx, hx, hpid⟩
  · simp only [hv, List.mem_append, List.mem_singleton, h.senior, Option.map_eq_some_iff]
    constructor
    · rintro (⟨g, hg, hjg, hp⟩ | rfl)
      · refine ⟨_, ⟨g, hg, rfl⟩, ?_, by simpa using hp⟩
        exact (Membership.processJoin_joined ..).2 (.inl hjg)
      · refine ⟨_, ⟨gx, hx, rfl⟩, ?_, by simpa using hpid⟩
        refine (Membership.processJoin_joined ..).2 (.inr ⟨(h.me _ _ hx).symm, fun hm => ?_⟩)
        rw [(hi.self _ _ hx).2, hnew] at hm
        cases hm
    · rintro ⟨_, ⟨g, hg, rfl⟩, hjg, hp⟩
      rw [Membership.processJoin_myPid] at hp
      rcases (Membership.processJoin_joined ..).1 hjg with hjg | ⟨hme, -⟩
      · exact .inl ⟨g, hg, hjg, hp⟩
      · refine .inr (Live.unique ⟨g, hg, hp⟩ ⟨gx, hx, hpid⟩ ?_)
        exact ((h.me _ g hg).symm.trans hme.symm)
  · rw [hv] at hg'
    obtain ⟨g, hg, rfl⟩ := Option.map_eq_some_iff.1 hg'
    rw [Membership.processJoin_groupMembers (hsame n g hg)]
    refine filter_mem_append ?_ ((h.exact n g hg).1.not_mem_eraseP x)
    rw [filter_eraseP_of_not_mem fun y hy hp => ?_]
    · exact h.order n g hg
    · rw [hsame n g hg y hy (by simpa using hp)]
      exact hxJ

/-- A change lets one daemon in, which lists the joined members in their order. -/
theorem enter (h : G.Ranked J) {members : UInt32 → List MemberItem} {x : MemberItem}
    (hx : G.views x.nodeid = none) (hnd : ((members x.nodeid).map (·.nodeid)).Nodup)
    (hm : ∀ y, y ∈ members x.nodeid ↔ y = x ∨ G.Live y)
    (ho : (members x.nodeid).filter (fun y => y ∈ J) = J) :
    (G.step (.confchg members [] [x])).Ranked (Event.promote J (.confchg members [] [x])) := by
  have hJ : Event.promote J (.confchg members [] [x]) = J := by simp [Event.promote]
  let gx := (Membership.init x.nodeid x.pid).configChange (members x.nodeid) [] [x]
  obtain ⟨hlist, hdist⟩ : gx.groupMembers = _ ∧ gx.Distinct :=
    Membership.configChange_init rfl hnd ((hm x).2 (.inl rfl)) (by simp)
  have hvx : (G.step (.confchg members [] [x])).views x.nodeid = some gx := by
    simp [Ledger.step, viewsAfter, gx]
  have hvn : ∀ n, n ≠ x.nodeid → (G.step (.confchg members [] [x])).views n =
      (G.views n).map (·.configChange (members n) [] [x]) := by
    intro n hn
    simp [Ledger.step, viewsAfter, Ne.symm hn]
  have hcases : ∀ n g', (G.step (.confchg members [] [x])).views n = some g' →
      n = x.nodeid ∧ g' = gx ∨ ∃ g, G.views n = some g ∧ g' = g.configChange (members n) [] [x] := by
    intro n g' hg'
    by_cases hn : n = x.nodeid
    · subst hn
      exact .inl ⟨rfl, Option.some.inj (hg'.symm.trans hvx)⟩
    · rw [hvn n hn] at hg'
      obtain ⟨g, hg, rfl⟩ := Option.map_eq_some_iff.1 hg'
      exact .inr ⟨g, hg, rfl⟩
  have hlive : ∀ y, (G.step (.confchg members [] [x])).Live y ↔ y = x ∨ G.Live y := by
    intro y
    constructor
    · rintro ⟨g', hg', hp⟩
      rcases hcases _ g' hg' with ⟨hn, rfl⟩ | ⟨g, hg, rfl⟩
      · rw [Membership.configChange_myPid] at hp
        exact .inl (MemberItem.ext hn hp.symm)
      · exact .inr ⟨g, hg, by simpa using hp⟩
    · rintro (rfl | ⟨g, hg, hp⟩)
      · exact ⟨gx, hvx, Membership.configChange_myPid ..⟩
      · have hn : y.nodeid ≠ x.nodeid := by
          intro he
          rw [he, hx] at hg
          cases hg
        exact ⟨_, (hvn _ hn).trans (congrArg _ hg), by simpa using hp⟩
  have hxJ : ∀ y ∈ J, y.nodeid ≠ x.nodeid := by
    intro y hy he
    obtain ⟨g, hg, -⟩ := h.live_of_mem hy
    rw [he, hx] at hg
    cases hg
  rw [hJ]
  refine ⟨fun n g' hg' => ?_, fun n g' hg' => ?_, fun n g' hg' y hy => ?_, fun y => ?_,
    fun n g' hg' => ?_⟩
  · rcases hcases n g' hg' with ⟨rfl, rfl⟩ | ⟨g, hg, rfl⟩
    · exact Membership.configChange_myNodeId ..
    · rw [Membership.configChange_myNodeId]
      exact h.me n g hg
  · rcases hcases n g' hg' with ⟨rfl, rfl⟩ | ⟨g, hg, rfl⟩
    · exact ⟨hdist, Membership.configChange_stopped (by simp)⟩
    · refine ⟨(h.exact n g hg).1.configChange _ _ _, ?_⟩
      rw [Membership.configChange_stopped (by simp)]
      exact (h.exact n g hg).2
  · rw [hlive]
    rcases hcases n g' hg' with ⟨rfl, rfl⟩ | ⟨g, hg, rfl⟩
    · rw [hlist] at hy
      exact (hm y).1 (List.mem_filter.1 hy).1
    · rw [(h.exact n g hg).1.configChange_enter] at hy
      exact .inr (h.listed n g hg y hy)
  · rw [h.senior]
    constructor
    · rintro ⟨g, hg, hjg, hp⟩
      have hn := hxJ y ((h.senior y).2 ⟨g, hg, hjg, hp⟩)
      exact ⟨_, (hvn _ hn).trans (congrArg _ hg), by simpa using hjg, by simpa using hp⟩
    · rintro ⟨g', hg', hjg, hp⟩
      rcases hcases _ g' hg' with ⟨-, rfl⟩ | ⟨g, hg, rfl⟩
      · rw [Membership.configChange_joined] at hjg
        cases hjg
      · exact ⟨g, hg, by simpa using hjg, by simpa using hp⟩
  · rcases hcases n g' hg' with ⟨rfl, rfl⟩ | ⟨g, hg, rfl⟩
    · rw [hlist, List.filter_filter]
      conv_rhs => rw [← ho]
      refine List.filter_congr fun y _ => ?_
      by_cases hy : y ∈ J
      · have hne := hxJ y hy
        have hyx : y ≠ x := fun he => hne (congrArg _ he)
        simp [hy, hne, hyx]
      · simp [hy]
    · rw [(h.exact n g hg).1.configChange_enter]
      exact h.order n g hg

/-- A member leaves every list. -/
theorem leave (h : G.Ranked J) {members : UInt32 → List MemberItem} {x : MemberItem}
    (hx : G.Live x) :
    (G.step (.confchg members [x] [])).Ranked (Event.promote J (.confchg members [x] [])) := by
  have hJ : Event.promote J (.confchg members [x] []) = J.filter fun z => z ∉ [x] := rfl
  have hcases : ∀ n g', (G.step (.confchg members [x] [])).views n = some g' →
      n ≠ x.nodeid ∧ ∃ g, G.views n = some g ∧ g' = g.configChange (members n) [x] [] := by
    intro n g' hg'
    by_cases hn : n = x.nodeid
    · simp [Ledger.step, viewsAfter, hn] at hg'
    · simp only [Ledger.step, viewsAfter, List.map_cons, List.map_nil, List.mem_singleton, hn,
        if_false, List.find?_nil] at hg'
      obtain ⟨g, hg, rfl⟩ := Option.map_eq_some_iff.1 hg'
      exact ⟨hn, g, hg, rfl⟩
  have hkeep : ∀ n g, n ≠ x.nodeid → G.views n = some g →
      (G.step (.confchg members [x] [])).views n = some (g.configChange (members n) [x] []) := by
    intro n g hn hg
    simp [Ledger.step, viewsAfter, hn, hg]
  have hlive : ∀ y, y ≠ x → G.Live y → (G.step (.confchg members [x] [])).Live y := by
    rintro y hyx ⟨g, hg, hp⟩
    have hn : y.nodeid ≠ x.nodeid := fun he => hyx (Live.unique ⟨g, hg, hp⟩ hx he)
    exact ⟨_, hkeep _ g hn hg, by simpa using hp⟩
  have hlist : ∀ n g, n ≠ x.nodeid → G.views n = some g →
      (g.configChange (members n) [x] []).groupMembers = g.groupMembers.erase x := by
    intro n g hn hg
    refine (h.exact n g hg).1.configChange_leave (h.exact n g hg).2 _ ?_
    rw [h.me n g hg]
    exact hn.symm
  have hnd : ∀ n g, G.views n = some g → g.groupMembers.Nodup := fun n g hg =>
    List.Nodup.of_map _ (h.exact n g hg).1.nodup
  rw [hJ]
  refine ⟨fun n g' hg' => ?_, fun n g' hg' => ?_, fun n g' hg' y hy => ?_, fun y => ?_,
    fun n g' hg' => ?_⟩
  · obtain ⟨-, g, hg, rfl⟩ := hcases n g' hg'
    rw [Membership.configChange_myNodeId]
    exact h.me n g hg
  · obtain ⟨hn, g, hg, rfl⟩ := hcases n g' hg'
    refine ⟨(h.exact n g hg).1.configChange _ _ _, ?_⟩
    rw [Membership.configChange_stopped (by simpa [h.me n g hg] using hn)]
    exact (h.exact n g hg).2
  · obtain ⟨hn, g, hg, rfl⟩ := hcases n g' hg'
    rw [hlist n g hn hg] at hy
    have hyx : y ≠ x := by
      rintro rfl
      exact (hnd n g hg).not_mem_erase hy
    exact hlive y hyx (h.listed n g hg y (List.mem_of_mem_erase hy))
  · rw [List.mem_filter, h.senior]
    constructor
    · rintro ⟨⟨g, hg, hjg, hp⟩, hyx⟩
      have hyx : y ≠ x := by simpa using hyx
      have hn : y.nodeid ≠ x.nodeid := fun he => hyx (Live.unique ⟨g, hg, hp⟩ hx he)
      exact ⟨_, hkeep _ g hn hg, by simpa using hjg, by simpa using hp⟩
    · rintro ⟨g', hg', hjg, hp⟩
      obtain ⟨hn, g, hg, rfl⟩ := hcases _ g' hg'
      refine ⟨⟨g, hg, by simpa using hjg, by simpa using hp⟩, ?_⟩
      simpa using fun he : y = x => hn (congrArg _ he)
  · obtain ⟨hn, g, hg, rfl⟩ := hcases n g' hg'
    rw [hlist n g hn hg]
    exact filter_mem_erase (hnd n g hg) (h.order n g hg)

theorem step (h : G.Ranked J) (hi : G.Inv) {e : Event} (he : G.Orderly J e) :
    (G.step e).Ranked (e.promote J) := by
  cases he with
  | @msg x m hh hj =>
    by_cases hm : m.request = .join
    · obtain ⟨g, hg, hnew, hp⟩ := hj hm
      exact h.join hi hm hg hnew hp
    · exact h.other hm hh
  | enter hx hnd hm ho => exact h.enter hx hnd hm ho
  | leave hx => exact h.leave hx

/-- When all have joined, all lists are the same. -/
theorem groupMembers_eq (h : G.Ranked J) (hf : G.Formed) {n : UInt32} {g : Membership}
    (hg : G.views n = some g) : g.groupMembers = J := by
  have hall : g.groupMembers.filter (fun y => y ∈ J) = g.groupMembers := by
    refine List.filter_eq_self.2 fun y hy => ?_
    obtain ⟨gy, hgy, hp⟩ := h.listed n g hg y hy
    obtain ⟨g', hg', hj⟩ := hf y.nodeid (by simp [hgy])
    obtain rfl := Option.some.inj (hgy.symm.trans hg')
    simpa using (h.senior y).2 ⟨gy, hgy, hj, hp⟩
  exact hall.symm.trans (h.order n g hg)

end Ranked

end Ledger

end Cpglock
