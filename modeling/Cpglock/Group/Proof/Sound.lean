import Mathlib
import Cpglock.Group.Proof.Oldest
import Cpglock.Group.Proof.Steps

/-!
# Every run follows the order

`Sys.Sound`: CPG's group is the set of live daemons, every event of the order is one that
`Ledger.EventOk` allows, and a daemon's membership is the one the ledger computes from the part of
the order behind it (`Enrolled.member`). It holds in every reachable state (`Runs.sound`), so what
`Oldest.lean` proves of the ledger holds of the daemons.
-/

namespace Cpglock

/-! ## Orders whose events are allowed -/

/-- Every event is allowed after the events before it. -/
def WellOrdered (log : List Event) : Prop :=
  ∀ k e, log[k]? = some e → (Ledger.of (log.take k)).EventOk e

theorem WellOrdered.append {log : List Event} {e : Event} (h : WellOrdered log)
    (he : (Ledger.of log).EventOk e) : WellOrdered (log ++ [e]) := by
  intro k e' hk
  obtain ⟨hlt, hk'⟩ := List.getElem?_eq_some_iff.1 hk
  simp only [List.length_append, List.length_cons, List.length_nil] at hlt
  by_cases hlast : k = log.length
  · subst hlast
    obtain rfl : e = e' := by simpa using hk
    rwa [List.take_left]
  · have hlt' : k < log.length := by omega
    rw [List.getElem?_append_left hlt'] at hk
    rw [List.take_append_of_le_length hlt'.le]
    exact h k e' hk

/-- The ledger after one more event. -/
theorem Ledger.of_take_succ {log : List Event} {k : Nat} {e : Event} (h : log[k]? = some e) :
    of (log.take (k + 1)) = (of (log.take k)).step e := by
  rw [List.take_add_one, h]
  exact of_append _ _

theorem WellOrdered.inv {log : List Event} (h : WellOrdered log) :
    ∀ k, k ≤ log.length → (Ledger.of (log.take k)).Inv
  | 0, _ => Ledger.inv_init
  | k + 1, hk => by
    obtain ⟨e, he⟩ : ∃ e, log[k]? = some e := ⟨_, List.getElem?_eq_getElem (by omega)⟩
    rw [Ledger.of_take_succ he]
    exact (h.inv k (by omega)).step (h k e he)

theorem WellOrdered.inv_all {log : List Event} (h : WellOrdered log) : (Ledger.of log).Inv := by
  have := h.inv log.length le_rfl
  rwa [List.take_length] at this

/-! ## Members that stay -/

/-- The event neither removes nor announces node `n`. -/
def Stays (n : UInt32) (e : Event) : Prop :=
  ∀ members left join, e = .confchg members left join →
    n ∉ left.map (·.nodeid) ∧ join.find? (fun x => x.nodeid = n) = none

theorem stays_msg (n : UInt32) (s : MemberItem) (m : CpgLockMsg) : Stays n (.msg s m) :=
  fun _ _ _ h => nomatch h

theorem Ledger.viewsAfter_of_stays {G : Ledger} {e : Event} {n : UInt32} {g : Membership}
    (hs : Stays n e) (hg : G.views n = some g) (hme : g.myNodeId = n) :
    G.viewsAfter e n = some (g.deliver e) := by
  cases e with
  | msg s m =>
    simp only [viewsAfter, hg]
    by_cases hj : m.request = .join
    · simp only [hj, Membership.deliver, Option.map_some]
    · by_cases hh : m.request = .halt
      · simp only [hh, Membership.deliver, Option.map_some]
      · rw [Membership.deliver_msg_of_ne hj hh]
        split
        · next h => exact absurd h hj
        · next h => exact absurd h hh
        · rfl
  | confchg members left join =>
    obtain ⟨hl, hj⟩ := hs _ _ _ rfl
    simp [viewsAfter, hl, hj, hg, Membership.deliver, hme]

/-- A message is ordered without a change of who is live. -/
theorem Ledger.viewsAfter_msg_isSome (G : Ledger) (s : MemberItem) (m : CpgLockMsg) (n : UInt32) :
    (G.viewsAfter (.msg s m) n).isSome = (G.views n).isSome := by
  simp only [viewsAfter]
  split <;> simp

@[simp] theorem Membership.deliver_myNodeId (g : Membership) (e : Event) :
    (g.deliver e).myNodeId = g.myNodeId := by
  cases e with
  | confchg members left join => exact configChange_myNodeId ..
  | msg s m =>
    unfold Membership.deliver
    split <;> simp_all
    split <;> simp

@[simp] theorem Membership.deliver_myPid (g : Membership) (e : Event) :
    (g.deliver e).myPid = g.myPid := by
  cases e with
  | confchg members left join => exact configChange_myPid ..
  | msg s m =>
    unfold Membership.deliver
    split <;> simp_all
    split <;> simp

/-- Only the JOIN of its own node joins a daemon. -/
theorem Membership.deliver_joined {g : Membership} {e : Event}
    (h : ∀ s m, e = .msg s m → m.request = .join → s.nodeid ≠ g.myNodeId) :
    (g.deliver e).joined = g.joined := by
  cases e with
  | confchg members left join => exact configChange_joined ..
  | msg s m =>
    by_cases hj : m.request = .join
    · have hne := h s m rfl hj
      have := processJoin_joined g s.nodeid s.pid
      simp only [Membership.deliver, hj]
      simp only [hne, false_and, or_false] at this
      exact Bool.eq_iff_iff.2 this
    · by_cases hh : m.request = .halt
      · simp only [Membership.deliver, hh]
      · rw [deliver_msg_of_ne hj hh]

/-! ## What holds of every live daemon -/

def CpgLockMsg.isJoin (m : CpgLockMsg) : Bool := m.request = .join

/-- A live daemon's place in the order. -/
structure Enrolled (log : List Event) (n : UInt32) (nd : Node) : Prop where
  since_le : nd.since ≤ nd.pos
  me : nd.d.myNodeId = n
  enters : ∃ members left join, log[nd.since]? = some (.confchg members left join) ∧
    join.find? (fun x => x.nodeid = n) = some ⟨n, nd.d.myPid⟩ ∧ n ∉ left.map (·.nodeid)
  stays : ∀ k e, nd.since < k → log[k]? = some e → Stays n e
  member : if nd.pos = nd.since then nd.d.toMembership = .init n nd.d.myPid
    else (Ledger.of (log.take nd.pos)).views n = some nd.d.toMembership
  join : ∃ g, (Ledger.of log).views n = some g ∧ g.myNodeId = n ∧
    nd.d.out.countP CpgLockMsg.isJoin + (if g.joined then 1 else 0) ≤ 1

/-- What holds in every reachable state. -/
structure Sys.Sound (s : Sys) : Prop where
  bounded : s.Bounded
  ordered : WellOrdered s.log
  group : ∀ x, x ∈ s.group ↔ ∃ nd, s.nodes x.nodeid = some nd ∧ nd.d.myPid = x.pid
  views : ∀ n, ((Ledger.of s.log).views n).isSome = (s.nodes n).isSome
  node : ∀ n nd, s.nodes n = some nd → Enrolled s.log n nd

theorem Sys.Sound.exists_node {s : Sys} (hs : s.Sound) {k : UInt32}
    (hk : (Ledger.of s.log).Joined k) : ∃ nd, s.nodes k = some nd := by
  obtain ⟨g, hg, -⟩ := hk
  have := hs.views k
  rw [hg] at this
  exact Option.isSome_iff_exists.1 this.symm

/-- The order behind a live daemon agrees with any longer order. -/
theorem Enrolled.append {log : List Event} {n : UInt32} {nd : Node} {e : Event}
    (h : Enrolled log n nd) (hp : nd.pos ≤ log.length) (hs : Stays n e)
    (hj : ∀ g, (Ledger.of log).views n = some g →
      nd.d.out.countP CpgLockMsg.isJoin + (if (g.deliver e).joined then 1 else 0) ≤ 1) :
    Enrolled (log ++ [e]) n nd := by
  obtain ⟨members, left, join, he, hrest⟩ := h.enters
  obtain ⟨g, hg, hme, -⟩ := h.join
  have hlt : nd.since < log.length := (List.getElem?_eq_some_iff.1 he).1
  refine ⟨h.since_le, h.me, ⟨members, left, join, by rwa [List.getElem?_append_left hlt], hrest⟩,
    fun k e' hk hke => ?_, ?_, g.deliver e, ?_, ?_, hj g hg⟩
  · by_cases hlk : k < log.length
    · exact h.stays k e' hk (by rwa [List.getElem?_append_left hlk] at hke)
    · have hk' := (List.getElem?_eq_some_iff.1 hke).1
      simp only [List.length_append, List.length_cons, List.length_nil] at hk'
      obtain rfl : k = log.length := by omega
      obtain rfl : e = e' := by simpa using hke
      exact hs
  · rw [List.take_append_of_le_length hp]
    exact h.member
  · rw [Ledger.of_append]
    exact Ledger.viewsAfter_of_stays hs hg hme
  · rw [Membership.deliver_myNodeId, hme]

/-- A delivery takes a daemon's membership where the ledger takes it. -/
theorem Enrolled.member_deliver {log : List Event} {n : UInt32} {nd : Node} {e : Event}
    (h : Enrolled log n nd) (he : log[nd.pos]? = some e) :
    (Ledger.of (log.take (nd.pos + 1))).views n = some (nd.d.toMembership.deliver e) := by
  rw [Ledger.of_take_succ he]
  have hm := h.member
  split at hm
  · next heq =>
    obtain ⟨members, left, join, he', hfind, hl⟩ := h.enters
    rw [heq, he'] at he
    obtain rfl := Option.some.inj he
    simp only [Ledger.step, Ledger.viewsAfter, hl, hfind, Membership.deliver, h.me, if_false]
    exact congrArg (fun g : Membership => some (g.configChange (members n) left join)) hm.symm
  · next hne =>
    have hlt := h.since_le
    exact Ledger.viewsAfter_of_stays (h.stays _ e (by omega) he) hm h.me

/-! ## The steps -/

theorem Sys.Sound.same {s : Sys} (h : s.Sound) {x y : MemberItem} (hx : x ∈ s.group)
    (hy : y ∈ s.group) (he : x.nodeid = y.nodeid) : x = y := by
  obtain ⟨nx, hnx, hpx⟩ := (h.group x).1 hx
  obtain ⟨ny, hny, hpy⟩ := (h.group y).1 hy
  rw [he, hny] at hnx
  obtain rfl := Option.some.inj hnx
  exact MemberItem.ext he (hpx.symm.trans hpy)

theorem Sys.Sound.mem_left {s : Sys} (h : s.Sound) {left : List MemberItem}
    (hl : ∀ x ∈ left, x ∈ s.group) {x : MemberItem} (hx : x ∈ s.group) :
    x.nodeid ∈ left.map (·.nodeid) ↔ x ∈ left := by
  refine ⟨fun hm => ?_, fun hm => List.mem_map_of_mem hm⟩
  obtain ⟨y, hy, he⟩ := List.mem_map.1 hm
  exact h.same (hl y hy) hx he ▸ hy

/-- The nodes of entering processes have no daemon. -/
theorem Sys.Sound.nodes_join {s : Sys} (h : s.Sound) {members : UInt32 → List MemberItem}
    {left join : List MemberItem} (hok : s.ConfOk members left join) {x : MemberItem}
    (hx : x ∈ join) : s.nodes x.nodeid = none := by
  obtain ⟨-, -, -, hj, -⟩ := hok
  cases hn : s.nodes x.nodeid with
  | none => rfl
  | some nd =>
    have := (h.group ⟨x.nodeid, nd.d.myPid⟩).2 ⟨nd, hn, rfl⟩
    exact absurd rfl ((hj x hx).2 ⟨x.nodeid, nd.d.myPid⟩ this)

theorem Sys.Sound.change {s : Sys} (h : s.Sound) {members : UInt32 → List MemberItem}
    {left join : List MemberItem} {boot : UInt32 → Boot} (hok : s.ConfOk members left join) :
    (s.change members left join boot).Sound := by
  obtain ⟨hnd, hleft, hnodup, hjoin, hmem⟩ := id hok
  have hjn := fun {x} (hx : x ∈ join) => h.nodes_join hok hx
  -- an entering node has not left by the same change
  have hjl : ∀ x ∈ join, x.nodeid ∉ left.map (·.nodeid) := by
    intro x hx hl
    obtain ⟨y, hy, he⟩ := List.mem_map.1 hl
    exact (hjoin x hx).2 y (hleft y hy) he
  have hfind : ∀ x ∈ join, join.find? (fun y => y.nodeid = x.nodeid) = some x := by
    intro x hx
    obtain ⟨y, hy⟩ : ∃ y, join.find? (fun y => y.nodeid = x.nodeid) = some y :=
      Option.isSome_iff_exists.1 (List.find?_isSome.2 ⟨x, hx, by simp⟩)
    rw [hy, List.inj_on_of_nodup_map hnodup (List.mem_of_find?_eq_some hy) hx
      (by simpa using List.find?_some hy)]
  have hfind_none : ∀ n nd, s.nodes n = some nd → join.find? (fun y => y.nodeid = n) = none := by
    intro n nd hn
    refine List.find?_eq_none.2 fun y hy he => ?_
    have he : y.nodeid = n := by simpa using he
    rw [← he, hjn hy] at hn
    cases hn
  have hgroup : ∀ x, x ∈ s.groupAfter left join ↔
      ∃ nd, s.nodesAfter left join boot x.nodeid = some nd ∧ nd.d.myPid = x.pid := by
    intro x
    constructor
    · intro hx
      rcases List.mem_append.1 hx with hx | hx
      · obtain ⟨hx, hnl⟩ := List.mem_filter.1 hx
        obtain ⟨nd, hn, hp⟩ := (h.group x).1 hx
        refine ⟨nd, ?_, hp⟩
        have : x.nodeid ∉ left.map (·.nodeid) := fun hm =>
          (by simpa using hnl : x ∉ left) ((h.mem_left hleft hx).1 hm)
        simp only [nodesAfter, this, if_false, hfind_none _ nd hn, hn]
      · refine ⟨{ d := .start x (boot x.nodeid), since := s.log.length, pos := s.log.length }, ?_,
          rfl⟩
        simp only [nodesAfter, hjl x hx, if_false, hfind x hx]
    · rintro ⟨nd, hn, hp⟩
      obtain ⟨hnl, ⟨y, hy, hyj, he, rfl⟩ | ⟨-, hn⟩⟩ := nodesAfter_cases hn
      · refine List.mem_append_right _ ?_
        exact (MemberItem.ext he hp : y = x) ▸ hyj
      · have hx := (h.group x).2 ⟨nd, hn, hp⟩
        exact List.mem_append_left _ (List.mem_filter.2
          ⟨hx, by simpa using fun hm => hnl (List.mem_map_of_mem hm)⟩)
  have hviews : ∀ n, ((Ledger.of s.log).viewsAfter (.confchg members left join) n).isSome =
      (s.nodesAfter left join boot n).isSome := by
    intro n
    simp only [Ledger.viewsAfter, nodesAfter]
    split
    · rfl
    · cases join.find? fun x => x.nodeid = n with
      | some x => rfl
      | none => simpa using h.views n
  have hev : (Ledger.of s.log).EventOk (.confchg members left join) := by
    refine ⟨fun x hx => ?_, fun x hx c hc => ?_⟩
    · have := h.views x.nodeid
      rw [hjn hx] at this
      simpa using this
    · rw [hviews] at hc
      obtain ⟨nd, hn⟩ := Option.isSome_iff_exists.1 hc
      have hc : (⟨c, nd.d.myPid⟩ : MemberItem) ∈ s.groupAfter left join :=
        (hgroup ⟨c, nd.d.myPid⟩).2 ⟨nd, hn, rfl⟩
      have hxg : x ∈ s.groupAfter left join := List.mem_append_right _ hx
      exact List.mem_map.2 ⟨_, (hmem x hxg).mem_iff.2 hc, rfl⟩
  refine ⟨?_, h.ordered.append hev, hgroup, fun n => ?_, fun n nd hn => ?_⟩
  · exact bounded_step (a := .confchg members left join boot) (by simp [step, hok]) h.bounded
  · refine Eq.trans ?_ (hviews n)
    exact congrArg (fun G : Ledger => (G.views n).isSome) (Ledger.of_append _ _)
  · obtain ⟨hnl, ⟨x, hf, hx, rfl, rfl⟩ | ⟨hf, hn⟩⟩ := nodesAfter_cases hn
    · refine ⟨le_rfl, rfl, ⟨members, left, join, by simp [Sys.change], hf, hnl⟩,
        fun k e hk hke => ?_, by rw [if_pos rfl]; rfl, ?_⟩
      · have := (List.getElem?_eq_some_iff.1 hke).1
        simp only [Sys.change, List.length_append, List.length_cons, List.length_nil] at this
        exact absurd hk (by simp only; omega)
      · refine ⟨(Membership.init x.nodeid x.pid).configChange (members x.nodeid) left join, ?_,
          by simp [Membership.init], ?_⟩
        · simp only [Sys.change, Ledger.of_append, Ledger.step, Ledger.viewsAfter, hnl, hf, if_false]
        · rw [Membership.configChange_joined]
          exact le_rfl
    · have hen := h.node n nd hn
      refine hen.append (h.bounded n nd hn) ?_ fun g hg => ?_
      · intro _ _ _ he
        cases he
        exact ⟨hnl, hf⟩
      · obtain ⟨g', hg', -, hcount⟩ := hen.join
        obtain rfl := Option.some.inj (hg.symm.trans hg')
        rwa [Membership.deliver_joined (by intro _ _ he; cases he)]

theorem Sys.Sound.orderNext {s : Sys} (h : s.Sound) {n : UInt32} {nd : Node} {m : CpgLockMsg}
    {out : List CpgLockMsg} (hn : s.nodes n = some nd) (hout : nd.d.out = m :: out) :
    (s.orderNext n nd m out).Sound := by
  have hen := h.node n nd hn
  have hev : (Ledger.of s.log).EventOk (.msg ⟨n, nd.d.myPid⟩ m) := by
    intro hj
    obtain ⟨g, hg, -, hcount⟩ := hen.join
    refine ⟨g, hg, ?_⟩
    rw [hout, List.countP_cons_of_pos (by simp [CpgLockMsg.isJoin, hj])] at hcount
    cases hgj : g.joined with
    | false => rfl
    | true => simp only [hgj, if_true] at hcount; omega
  refine ⟨bounded_step (a := .order n) (by simp [step, hn, hout]) h.bounded,
    h.ordered.append hev, fun x => ?_, fun k => ?_, fun k nd' hk => ?_⟩
  · rw [show (s.orderNext n nd m out).group = s.group from rfl, h.group x]
    show _ ↔ ∃ nd', s.setNode n _ x.nodeid = some nd' ∧ _
    by_cases hx : x.nodeid = n
    · simp [hx, hn, setNode_self]
    · rw [setNode_of_ne _ _ hx]
  · show ((Ledger.of (s.log ++ [_])).views k).isSome = (s.setNode n _ k).isSome
    rw [Ledger.of_append]
    refine (Ledger.viewsAfter_msg_isSome _ _ _ _).trans ((h.views k).trans ?_)
    by_cases hk : k = n
    · simp [hk, hn, setNode_self]
    · rw [setNode_of_ne _ _ hk]
  · rcases setNode_cases hk with ⟨rfl, rfl⟩ | ⟨hne, hk⟩
    · have hen' : Enrolled s.log k { nd with d := { nd.d with out } } := by
        refine ⟨hen.since_le, hen.me, hen.enters, hen.stays, hen.member, ?_⟩
        obtain ⟨g, hg, hme, hcount⟩ := hen.join
        refine ⟨g, hg, hme, le_trans ?_ hcount⟩
        rw [hout, List.countP_cons]
        simp only
        omega
      refine hen'.append (h.bounded k nd hn) (stays_msg _ _ _) fun g hg => ?_
      obtain ⟨g', hg', -, hcount⟩ := hen.join
      obtain rfl := Option.some.inj (hg.symm.trans hg')
      rw [hout, List.countP_cons] at hcount
      simp only
      by_cases hj : m.request = .join
      · simp only [CpgLockMsg.isJoin, hj, decide_true, if_true] at hcount
        split <;> omega
      · rw [Membership.deliver_joined fun _ _ he hj' => by cases he; exact absurd hj' hj]
        omega
    · have hen := h.node k nd' hk
      refine hen.append (h.bounded k nd' hk) (stays_msg _ _ _) fun g hg => ?_
      obtain ⟨g', hg', hme, hcount⟩ := hen.join
      obtain rfl := Option.some.inj (hg.symm.trans hg')
      rwa [Membership.deliver_joined fun _ _ he _ => by cases he; exact hme ▸ hne.symm]

theorem Sys.Sound.run {s : Sys} (h : s.Sound) {n : UInt32} {nd : Node} {a : Act} {d : Daemon}
    {pos : Nat} {cause : Option Nat} {seen : List Obs} (hn : s.nodes n = some nd)
    (hl : s.Local n nd a d pos cause seen) (hd : d.myPid = nd.d.myPid)
    (hen : Enrolled s.log n { nd with d, pos }) : (s.run n nd d pos cause seen).Sound := by
  refine ⟨fun k nd' hk => ?_, h.ordered, fun x => ?_, fun k => ?_, fun k nd' hk => ?_⟩
  · rcases setNode_cases hk with ⟨rfl, rfl⟩ | ⟨-, hk⟩
    · exact (hl.pos_le (h.bounded k nd hn)).2
    · exact h.bounded k nd' hk
  · rw [show (s.run n nd d pos cause seen).group = s.group from rfl, h.group x]
    show _ ↔ ∃ nd', s.setNode n _ x.nodeid = some nd' ∧ _
    by_cases hx : x.nodeid = n
    · simp [hx, hn, setNode_self, hd]
    · rw [setNode_of_ne _ _ hx]
  · show _ = (s.setNode n _ k).isSome
    refine (h.views k).trans ?_
    by_cases hk : k = n
    · simp [hk, hn, setNode_self]
    · rw [setNode_of_ne _ _ hk]
  · rcases setNode_cases hk with ⟨rfl, rfl⟩ | ⟨hne, hk⟩
    · exact hen
    · exact h.node k nd' hk

/-- A client's message or connection leaves the membership alone, and makes no JOIN wait. -/
theorem Enrolled.client {log : List Event} {n : UInt32} {nd : Node} {d : Daemon}
    (h : Enrolled log n nd) (hm : d.toMembership = nd.d.toMembership)
    (ho : ∃ ms, d.out = nd.d.out ++ ms ∧ ∀ m ∈ ms, m.request ≠ .join ∧ m.request ≠ .halt) :
    Enrolled log n { nd with d } := by
  have hpid : d.myPid = nd.d.myPid := congrArg Membership.myPid hm
  obtain ⟨ms, hms, hj⟩ := ho
  obtain ⟨g, hg, hme, hcount⟩ := h.join
  refine ⟨h.since_le, (congrArg Membership.myNodeId hm).trans h.me, by simpa [hpid] using h.enters,
    h.stays, by simpa [hm, hpid] using h.member, g, hg, hme, ?_⟩
  have : ms.countP CpgLockMsg.isJoin = 0 :=
    List.countP_eq_zero.2 fun m hm => by simpa [CpgLockMsg.isJoin] using (hj m hm).1
  simp only [hms, List.countP_append]
  omega

theorem Enrolled.deliver {log : List Event} {n : UInt32} {nd : Node} {e : Event}
    (h : Enrolled log n nd) (he : log[nd.pos]? = some e) :
    Enrolled log n { nd with d := nd.d.deliver nd.pos e, pos := nd.pos + 1 } := by
  have hm := Daemon.deliver_toMembership nd.d nd.pos e
  have hpid : (nd.d.deliver nd.pos e).myPid = nd.d.myPid := by
    have := congrArg Membership.myPid hm
    rwa [Membership.deliver_myPid] at this
  obtain ⟨ms, hms, hj⟩ := (Daemon.grows_deliver nd.d nd.pos e).out
  obtain ⟨g, hg, hme, hcount⟩ := h.join
  have hle := h.since_le
  refine ⟨by simp only; omega, ?_, by simpa [hpid] using h.enters, h.stays, ?_, g, hg, hme, ?_⟩
  · exact (congrArg Membership.myNodeId hm).trans ((Membership.deliver_myNodeId _ _).trans h.me)
  · have hne : ¬nd.pos + 1 = nd.since := by omega
    simp only [hne, if_false, hm]
    exact h.member_deliver he
  · have : ms.countP CpgLockMsg.isJoin = 0 :=
      List.countP_eq_zero.2 fun m hm => by simpa [CpgLockMsg.isJoin] using (hj m hm).1
    simp only [hms, List.countP_append]
    omega

theorem Sys.sound_init : Sys.init.Sound where
  bounded := Sys.bounded_init
  ordered := by intro k e h; simp [Sys.init] at h
  group := by intro x; simp [Sys.init]
  views := by intro n; rfl
  node := by intro n nd h; cases h

theorem Sys.Sound.step {s s' : Sys} {a : Act} (h : s.Sound) (hs : s.step a = some s') :
    s'.Sound := by
  obtain ⟨members, left, join, boot, rfl, hok, rfl⟩ | ⟨n, nd, m, out, rfl, hn, hout, rfl⟩ |
    ⟨n, nd, d, pos, cause, seen, hn, -, hl, rfl⟩ := step_cases hs
  · exact h.change hok
  · exact h.orderNext hn hout
  · have hen := h.node n nd hn
    have hpid : d.myPid = nd.d.myPid ∧ Enrolled s.log n { nd with d, pos } := by
      cases hl with
      | @deliver e he =>
        have hm := congrArg Membership.myPid (Daemon.deliver_toMembership nd.d nd.pos e)
        exact ⟨hm.trans (Membership.deliver_myPid _ _), hen.deliver he⟩
      | connect => exact ⟨rfl, hen.client rfl ⟨[], by simp [Daemon.insertClient]⟩⟩
      | @recv fd m =>
        have hf := Daemon.clientActivityCb_out nd.d fd m
        exact ⟨congrArg Membership.myPid hf.1, hen.client hf.1 hf.2⟩
      | @close fd =>
        have hf := Daemon.frame_delClient nd.d fd
        exact ⟨congrArg Membership.myPid hf.membership, hen.client hf.membership hf.out⟩
    exact h.run hn hl hpid.1 hpid.2

theorem Runs.sound {P : Sys → Act → Prop} {s : Sys} (h : Runs P .init s) : s.Sound :=
  h.invariant Sys.sound_init fun hi _ hs => hi.step hs

end Cpglock
