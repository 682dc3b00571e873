import Cpglock.Daemon.Proof.Claims
import Cpglock.Group.Proof.Authority
import Cpglock.Group.Proof.Owed

/-!
# The PURGE that follows a leave

The requests of a departed node go by the PURGE of the daemon that unlinks it as the oldest
(`Membership.Recovers`). If there is one and it stays until its PURGE is ordered
(`Sys.KeepsPurges`), then after every leave of a node that has sent a LOCK the PURGE is ordered, or
is still to be sent by a live daemon (`Sys.PurgeDue`). A queued request whose node is not listed
was there when the node left, and no PURGE has come since (`Unpurged`).
-/

namespace Cpglock

/-- A PURGE of all requests of node `n`. -/
def CpgLockMsg.PurgesNode (n : UInt32) (m : CpgLockMsg) : Prop :=
  m.request = .purge ∧ m.ownerNodeid = n ∧ m.ownerPid = 0

instance (n : UInt32) (m : CpgLockMsg) : Decidable (m.PurgesNode n) := by
  unfold CpgLockMsg.PurgesNode
  infer_instance

/-- The event is a LOCK of node `n`. -/
def Event.asks (n : UInt32) : Event → Bool
  | .msg _ m => m.request = .lock && m.ownerNodeid = n
  | .confchg _ _ _ => false

/-- The event is a PURGE of all requests of node `n`. -/
def Event.purges (n : UInt32) : Event → Bool
  | .msg _ m => decide (m.PurgesNode n)
  | .confchg _ _ _ => false

namespace Membership

/-- The membership when the loop of `cpg_config_change` over `left` reaches `x`. -/
def reach (g : Membership) (members left join : List MemberItem) (x : MemberItem) : Membership :=
  ((left.takeWhile (· ≠ x)).foldl dropLeft (g.setUp members join, 0)).1

/-- The daemon unlinks `x` and is then the oldest on its list. -/
def Recovers (g : Membership) (members left join : List MemberItem) (x : MemberItem) : Prop :=
  let g := g.reach members left join x
  g.stopped = false ∧ x ∈ g.groupMembers ∧ x.nodeid ≠ g.myNodeId ∧
    (g.groupMembers.erase x).head?.map (·.nodeid) = some g.myNodeId

instance decidableRecovers (g : Membership) (members left join : List MemberItem) (x : MemberItem) :
    Decidable (g.Recovers members left join x) := by
  unfold Recovers
  infer_instance

end Membership

/-- Daemon `n` is the one that recovers `x` when it is delivered the change `e`. -/
def Ledger.Recovers (G : Ledger) (e : Event) (n : UInt32) (x : MemberItem) : Prop :=
  match e with
  | .msg _ _ => False
  | .confchg members left join =>
    x ∈ left ∧ ∃ g ∈ G.views n, g.Recovers (members n) left join x

instance Ledger.decidableRecovers (G : Ledger) (e : Event) (n : UInt32) (x : MemberItem) :
    Decidable (G.Recovers e n x) := by
  refine e.casesOn ?_ ?_ <;> intros <;> dsimp only [Ledger.Recovers] <;> infer_instance

/-- The members that the event removes. -/
def Event.left : Event → List MemberItem
  | .msg _ _ => []
  | .confchg _ left _ => left

/-- Daemon `n` has a PURGE of a departed node that waits to be ordered, or has to be delivered a
change after which it sends one. -/
def Sys.OwesPurge (s : Sys) (n : UInt32) (nd : Node) : Prop :=
  (∃ m ∈ nd.d.out, m.PurgesNode m.ownerNodeid) ∨
    ∃ k < s.log.length, nd.pos ≤ k ∧ ∃ e ∈ s.log[k]?, ∃ x ∈ e.left,
      (Ledger.of (s.log.take k)).Recovers e n x

instance (s : Sys) (n : UInt32) (nd : Node) : Decidable (s.OwesPurge n nd) := by
  unfold Sys.OwesPurge
  infer_instance

/-- A node that has sent LOCKs leaves only if a member that stays recovers it, and no daemon leaves
that owes a PURGE. -/
def Sys.KeepsPurges (s : Sys) : Act → Prop
  | .confchg members left join _ =>
    (∀ x ∈ left, s.log.any (·.asks x.nodeid) = true → ∃ y ∈ s.group, y ∉ left ∧
      (Ledger.of s.log).Recovers (.confchg members left join) y.nodeid x) ∧
    ∀ x ∈ left, ∀ nd ∈ s.nodes x.nodeid, ¬s.OwesPurge x.nodeid nd
  | _ => True

instance (s : Sys) (a : Act) : Decidable (s.KeepsPurges a) := by
  refine a.casesOn ?_ ?_ ?_ ?_ ?_ ?_ <;> intros <;> dsimp only [Sys.KeepsPurges] <;> infer_instance

/-! ## Recovery -/

namespace Daemon

theorem purge_mem_recoverNode (d : Daemon) (nodeid : UInt32) :
    ∃ m ∈ (d.recoverNode nodeid).out, m.PurgesNode nodeid := by
  obtain ⟨ms, hms, -⟩ := (Frame.iter (frame_recoverNodeLock nodeid) (d.purgeRequests nodeid 0).locks
    ((d.purgeRequests nodeid 0).sendLockMsg
      { CpgLockMsg.blank .purge with ownerNodeid := nodeid, ownerPid := 0 })).out
  refine ⟨{ CpgLockMsg.blank .purge with ownerNodeid := nodeid, ownerPid := 0 }, ?_, rfl, rfl, rfl⟩
  rw [show (d.recoverNode nodeid).out = _ from hms]
  exact List.mem_append_left _ (List.mem_append_right _ (List.mem_singleton_self _))

/-- The loop over `left` reaches each of its members. -/
theorem exists_takeWhile_ne {x : MemberItem} {left : List MemberItem} (hx : x ∈ left) :
    ∃ l, left = left.takeWhile (· ≠ x) ++ x :: l := by
  induction left with
  | nil => cases hx
  | cons y left ih =>
    by_cases hy : y = x
    · exact ⟨left, by simp [hy]⟩
    · obtain ⟨l, hl⟩ := ih ((List.mem_cons.1 hx).resolve_left (Ne.symm hy))
      exact ⟨l, by simpa [hy] using hl⟩

/-- The daemon that recovers a departed member sends the PURGE. -/
theorem purge_mem_configChange {d : Daemon} {members left join : List MemberItem} {x : MemberItem}
    (hx : x ∈ left) (h : d.toMembership.Recovers members left join x) :
    ∃ m ∈ (d.cpgConfigChange members left join).out, m.PurgesNode x.nodeid := by
  obtain ⟨hstop, hmem, hme, hhead⟩ := h
  let d₀ : Daemon := { d with
    history := d.history.oldMsg { CpgLockMsg.blank .confchg with resource := .none }
    toMembership := d.toMembership.setUp members join }
  let p := (left.takeWhile (· ≠ x)).foldl dropLeft (d₀, 0)
  have hp : p.1.toMembership = d.toMembership.reach members left join x :=
    congrArg Prod.fst (foldl_dropLeft (left.takeWhile (· ≠ x)) (d₀, 0)).2
  obtain ⟨l, hl⟩ := exists_takeWhile_ne hx
  rw [← hp] at hstop hmem hme hhead
  have hdrop : dropLeft p x = (p.1.removeMember x, p.2 + 1) := by
    unfold dropLeft
    rw [if_neg (by simp [hstop]), if_pos hmem, if_neg hme]
  have hold : (({ p.1 with groupMembers := p.1.groupMembers.erase x } : Daemon).getOldestNode).nodeid =
      p.1.myNodeId := by
    unfold getOldestNode
    cases he : p.1.groupMembers.erase x with
    | nil => simp [he] at hhead
    | cons y l => simpa [he] using hhead
  have hrec : p.1.removeMember x =
      ({ p.1 with groupMembers := p.1.groupMembers.erase x } : Daemon).recoverNode x.nodeid := by
    unfold removeMember delNode
    exact if_neg (not_not.2 hold)
  obtain ⟨m, hm, hpu⟩ := purge_mem_recoverNode
    ({ p.1 with groupMembers := p.1.groupMembers.erase x } : Daemon) x.nodeid
  refine ⟨m, ?_, hpu⟩
  have hfold : left.foldl dropLeft (d₀, 0) = l.foldl dropLeft (dropLeft p x) := by
    conv_lhs => rw [hl, List.foldl_append, List.foldl_cons]
  obtain ⟨ms, hms, -⟩ := (foldl_dropLeft l (dropLeft p x)).1.out
  have hout : (d.cpgConfigChange members left join).out = (left.foldl dropLeft (d₀, 0)).1.out := rfl
  rw [hout, hfold, hms, hdrop, hrec]
  exact List.mem_append_left _ hm

end Daemon

/-! ## Senders -/

/-- A live daemon has joined by the ledger, or its JOIN is the first that waits. -/
def Sys.Announced (s : Sys) : Prop :=
  ∀ n nd, s.nodes n = some nd →
    (Ledger.of s.log).Joined n ∨ ∃ m out, nd.d.out = m :: out ∧ m.request = .join

theorem Ledger.Joined.msg {G : Ledger} {n : UInt32} (h : G.Joined n) (x : MemberItem)
    (m : CpgLockMsg) : (G.step (.msg x m)).Joined n := by
  obtain ⟨g, hg, hj⟩ := h
  obtain ⟨g', hg', hj'⟩ := views_msg_isSome (s := x) (m := m) hg
  exact ⟨g', hg', hj' hj⟩

theorem Ledger.Joined.change {G : Ledger} (hi : G.Inv) {n : UInt32} (h : G.Joined n)
    {members : UInt32 → List MemberItem} {left join : List MemberItem}
    (hs : Stays n (.confchg members left join)) :
    (G.step (.confchg members left join)).Joined n := by
  obtain ⟨g, hg, hj⟩ := h
  exact ⟨_, viewsAfter_of_stays hs hg (hi.self n g hg).1, Membership.deliver_joined_mono _ hj⟩

/-- A daemon joins by its JOIN. -/
theorem Ledger.Inv.joined_of_join {G : Ledger} (hi : G.Inv) {n : UInt32} {g : Membership}
    (hg : G.views n = some g) {x : MemberItem} {m : CpgLockMsg} (hx : x.nodeid = n)
    (hm : m.request = .join) : (G.step (.msg x m)).Joined n := by
  refine ⟨g.processJoin x.nodeid x.pid, ?_, ?_⟩
  · change G.viewsAfter (.msg x m) n = _
    simp only [viewsAfter, hm, hg, Option.map_some]
  · obtain ⟨hme, hself⟩ := hi.self n g hg
    rw [Membership.processJoin_joined, hx, hme, hself]
    cases g.joined <;> simp

theorem Runs.senders {P : Sys → Act → Prop} {s : Sys} (h : Runs P .init s) :
    s.Announced ∧ Ordered (fun done x m => m.request = .join ∨ (Ledger.of done).Joined x) s.log := by
  refine h.invariant_of (J := Sys.Sound)
    (I := fun s => s.Announced ∧
      Ordered (fun done x m => m.request = .join ∨ (Ledger.of done).Joined x) s.log) Runs.sound
    ⟨(by intro n nd h; cases h), (by intro k x m h; simp [Sys.init] at h)⟩
    fun {s s' a} hs _ ⟨hi, hlog⟩ _ hstep => ?_
  have hinv := hs.ordered.inv_all
  obtain ⟨members, left, join, boot, rfl, -, rfl⟩ | ⟨n, nd, m, out, rfl, hn, hout, rfl⟩ |
    ⟨n, nd, d, pos, cause, seen, hn, -, hl, rfl⟩ := Sys.step_cases hstep
  · refine ⟨fun k nd hk => ?_, hlog.append (by rintro x m ⟨⟩)⟩
    obtain ⟨hleft, ⟨x, -, -, -, rfl⟩ | ⟨hnone, hk⟩⟩ := Sys.nodesAfter_cases hk
    · exact .inr ⟨_, [], rfl, rfl⟩
    · refine (hi k nd hk).imp_left fun hj => ?_
      rw [Sys.change, Ledger.of_append]
      refine hj.change hinv ?_
      rintro _ _ _ ⟨⟩
      exact ⟨hleft, hnone⟩
  · have hlive : ∃ g, (Ledger.of s.log).views n = some g := by
      rw [← Option.isSome_iff_exists, hs.views, hn]
      rfl
    obtain ⟨g, hg⟩ := hlive
    have hsender : m.request = .join ∨ (Ledger.of s.log).Joined n := by
      rcases hi n nd hn with hj | ⟨m', out', hout', hm'⟩
      · exact .inr hj
      · rw [hout] at hout'
        obtain rfl := (List.cons.inj hout').1
        exact .inl hm'
    refine ⟨fun k nd' hk => ?_, hlog.append ?_⟩
    · rw [Sys.orderNext, Ledger.of_append]
      rcases Sys.setNode_cases hk with ⟨rfl, rfl⟩ | ⟨-, hk⟩
      · left
        rcases hsender with hm | hj
        · exact hinv.joined_of_join hg rfl hm
        · exact hj.msg _ _
      · exact (hi k nd' hk).imp_left fun hj => hj.msg _ _
    · rintro x m' ⟨⟩
      exact hsender
  · refine ⟨fun k nd' hk => ?_, hlog⟩
    rcases Sys.setNode_cases hk with ⟨rfl, rfl⟩ | ⟨-, hk⟩
    · refine (hi k nd hn).imp_right ?_
      rintro ⟨m, out, hout, hm⟩
      obtain ⟨ms, hms, -⟩ := hl.out
      exact ⟨m, out ++ ms, by rw [hms, hout]; rfl, hm⟩
    · exact hi k nd' hk

/-! ## The PURGE that is due -/

/-- After the change at position `k` a PURGE of the requests of `x` is ordered, or a live daemon has
still to send it. -/
def Sys.PurgeDue (s : Sys) (k : Nat) (x : MemberItem) : Prop :=
  (∃ i e, k < i ∧ s.log[i]? = some e ∧ e.purges x.nodeid = true) ∨
    ∃ n nd, s.nodes n = some nd ∧ ((∃ m ∈ nd.d.out, m.PurgesNode x.nodeid) ∨
      nd.pos ≤ k ∧ ∃ e, s.log[k]? = some e ∧ (Ledger.of (s.log.take k)).Recovers e n x)

/-- A PURGE is due for every node that has left and had sent a LOCK. -/
def Sys.PurgesDue (s : Sys) : Prop :=
  ∀ k e x, s.log[k]? = some e → x ∈ e.left →
    (s.log.take k).any (·.asks x.nodeid) = true → s.PurgeDue k x

theorem Event.left_of_recovers {G : Ledger} {e : Event} {n : UInt32} {x : MemberItem}
    (h : G.Recovers e n x) : x ∈ e.left := by
  cases e with
  | msg y m => exact h.elim
  | confchg members left join => exact h.1

/-- A daemon that is to recover `x` sends the PURGE when it is delivered the change. -/
theorem Sys.Sound.purge_sent {s : Sys} (hs : s.Sound) {n : UInt32} {nd : Node}
    (hn : s.nodes n = some nd) {e : Event} (he : s.log[nd.pos]? = some e) {x : MemberItem}
    (hr : (Ledger.of (s.log.take nd.pos)).Recovers e n x) :
    ∃ m ∈ (nd.d.deliver nd.pos e).out, m.PurgesNode x.nodeid := by
  cases e with
  | msg y m => exact hr.elim
  | confchg members left join =>
    obtain ⟨hx, g, hg, hrec⟩ := hr
    have hen := hs.node n nd hn
    have hview : (Ledger.of (s.log.take nd.pos)).views n = some nd.d.toMembership := by
      have hm := hen.member
      split at hm
      · next hpos =>
        -- the change that announces a daemon is not one that the daemon recovers
        obtain ⟨members', left', join', hlog, hfind, -⟩ := hen.enters
        have hok := hs.ordered _ _ hlog
        have hnone := hok.1 _ (List.mem_of_find?_eq_some hfind)
        rw [← hpos, show (Ledger.of (s.log.take nd.pos)).views n = some g from hg] at hnone
        cases hnone
      · exact hm
    obtain rfl := Option.some.inj (hview.symm.trans hg)
    rw [← hen.me] at hrec
    exact Daemon.purge_mem_configChange hx hrec

/-- A daemon that does not leave stays as it is through a change. -/
theorem Sys.Sound.nodes_stay {s : Sys} (hs : s.Sound) {members : UInt32 → List MemberItem}
    {left join : List MemberItem} {boot : UInt32 → Boot} (hok : s.ConfOk members left join)
    {n : UInt32} {nd : Node} (hn : s.nodes n = some nd) (hl : n ∉ left.map (·.nodeid)) :
    (s.change members left join boot).nodes n = some nd := by
  have hj : join.find? (fun y => y.nodeid = n) = none := by
    rw [List.find?_eq_none]
    intro y hy hyn
    have := hs.nodes_join hok hy
    rw [show y.nodeid = n by simpa using hyn, hn] at this
    cases this
  simp only [Sys.change, Sys.nodesAfter, hj, if_neg hl]
  exact hn

theorem Sys.PurgesDue.change {s : Sys} (h : s.PurgesDue) (hs : s.Sound)
    {members : UInt32 → List MemberItem} {left join : List MemberItem} {boot : UInt32 → Boot}
    (hok : s.ConfOk members left join) (hp : s.KeepsPurges (.confchg members left join boot)) :
    (s.change members left join boot).PurgesDue := by
  obtain ⟨hrec, howe⟩ := hp
  intro k e x he hx hask
  have hlt := (List.getElem?_eq_some_iff.1 he).1
  simp only [Sys.change, List.length_append, List.length_singleton] at hlt
  by_cases hk : k < s.log.length
  · -- a daemon that was to send the PURGE has not left
    rw [Sys.change, List.getElem?_append_left hk] at he
    rw [Sys.change, List.take_append_of_le_length hk.le] at hask
    have hstay : ∀ n nd, s.nodes n = some nd → s.OwesPurge n nd →
        (s.change members left join boot).nodes n = some nd := by
      intro n nd hn ho
      refine hs.nodes_stay hok hn fun hm => ?_
      obtain ⟨y, hy, rfl⟩ := List.mem_map.1 hm
      exact howe y hy nd hn ho
    rcases h k e x he hx hask with ⟨i, e', hki, he', hpu⟩ | ⟨n, nd, hn, hdue⟩
    · have hi := (List.getElem?_eq_some_iff.1 he').1
      exact .inl ⟨i, e', hki, by rw [Sys.change, List.getElem?_append_left hi]; exact he', hpu⟩
    · refine .inr ⟨n, nd, hstay n nd hn ?_, ?_⟩
      · rcases hdue with ⟨m, hm, hpu⟩ | ⟨hpos, e', he', hr⟩
        · exact .inl ⟨m, hm, hpu.1, rfl, hpu.2.2⟩
        · exact .inr ⟨k, hk, hpos, e', he', x, Event.left_of_recovers hr, hr⟩
      · refine hdue.imp_right ?_
        rintro ⟨hpos, e', he', hr⟩
        refine ⟨hpos, e', ?_, ?_⟩
        · rwa [Sys.change, List.getElem?_append_left hk]
        · rwa [Sys.change, List.take_append_of_le_length hk.le]
  · obtain rfl : k = s.log.length := by omega
    rw [Sys.change, List.take_left] at hask
    obtain rfl : Event.confchg members left join = e := by simpa [Sys.change] using he
    obtain ⟨y, hy, hyl, hr⟩ := hrec x hx hask
    obtain ⟨nd, hn, -⟩ := (hs.group y).1 hy
    have hl : y.nodeid ∉ left.map (·.nodeid) := fun hm => hyl ((hs.mem_left hok.2.1 hy).1 hm)
    refine .inr ⟨y.nodeid, nd, hs.nodes_stay hok hn hl, .inr ⟨hs.bounded _ nd hn, _, he, ?_⟩⟩
    rw [Sys.change, List.take_left]
    exact hr

theorem Runs.purgesDue {P : Sys → Act → Prop} (hP : ∀ s a, P s a → s.KeepsPurges a) {s : Sys}
    (h : Runs P .init s) : s.PurgesDue := by
  refine h.invariant_of (J := Sys.Sound) Runs.sound (by intro k e x he; simp [Sys.init] at he)
    fun {s s' a} hs _ hi hp hstep => ?_
  obtain ⟨members, left, join, boot, rfl, hok, rfl⟩ | ⟨n, nd, m, out, rfl, hn, hout, rfl⟩ |
    ⟨n, nd, d, pos, cause, seen, hn, -, hl, rfl⟩ := Sys.step_cases hstep
  · exact hi.change hs hok (hP _ _ hp)
  · intro k e x he hx hask
    have hlt := (List.getElem?_eq_some_iff.1 he).1
    simp only [Sys.orderNext, List.length_append, List.length_singleton] at hlt
    have hk : k < s.log.length := by
      by_contra hk
      obtain rfl : k = s.log.length := by omega
      obtain rfl : Event.msg ⟨n, nd.d.myPid⟩ m = e := by simpa [Sys.orderNext] using he
      cases hx
    rw [Sys.orderNext, List.getElem?_append_left hk] at he
    rw [Sys.orderNext, List.take_append_of_le_length hk.le] at hask
    have hlog : ∀ {i : Nat} {e : Event}, s.log[i]? = some e →
        (s.log ++ [.msg ⟨n, nd.d.myPid⟩ m])[i]? = some e := fun {i e} he => by
      rwa [List.getElem?_append_left (List.getElem?_eq_some_iff.1 he).1]
    rcases hi k e x he hx hask with ⟨i, e', hki, he', hpu⟩ | ⟨n', nd', hn', hdue⟩
    · exact .inl ⟨i, e', hki, hlog he', hpu⟩
    · by_cases hnn : n' = n
      · subst hnn
        obtain rfl := Option.some.inj (hn.symm.trans hn')
        rcases hdue with ⟨m', hm', hpu⟩ | ⟨hpos, e', he', hr⟩
        · rw [hout] at hm'
          rcases List.mem_cons.1 hm' with rfl | hm'
          · refine .inl ⟨s.log.length, .msg ⟨n', nd.d.myPid⟩ m', hk, by simp [Sys.orderNext], ?_⟩
            simpa [Event.purges] using hpu
          · exact .inr ⟨n', _, s.setNode_self n' _, .inl ⟨m', hm', hpu⟩⟩
        · refine .inr ⟨n', _, s.setNode_self n' _, .inr ⟨hpos, e', hlog he', ?_⟩⟩
          rwa [Sys.orderNext, List.take_append_of_le_length hk.le]
      · refine .inr ⟨n', nd', (s.setNode_of_ne _ hnn).trans hn', hdue.imp_right ?_⟩
        rintro ⟨hpos, e', he', hr⟩
        refine ⟨hpos, e', hlog he', ?_⟩
        rwa [Sys.orderNext, List.take_append_of_le_length hk.le]
  · intro k e x he hx hask
    refine (hi k e x he hx hask).imp_right ?_
    rintro ⟨n', nd', hn', hdue⟩
    by_cases hnn : n' = n
    · subst hnn
      obtain rfl := Option.some.inj (hn.symm.trans hn')
      refine ⟨n', _, s.setNode_self n' _, ?_⟩
      obtain ⟨ms, hms, -⟩ := hl.out
      rcases hdue with ⟨m, hm, hpu⟩ | ⟨hpos, e', he', hr⟩
      · exact .inl ⟨m, by rw [hms]; exact List.mem_append_left _ hm, hpu⟩
      · cases hl with
        | @deliver e'' he'' =>
          rcases Nat.lt_or_eq_of_le hpos with hlt | rfl
          · exact .inr ⟨hlt, e', he', hr⟩
          · obtain rfl := Option.some.inj (he'.symm.trans he'')
            exact .inl (hs.purge_sent hn he' hr)
        | _ => exact .inr ⟨hpos, e', he', hr⟩
    · exact ⟨n', nd', (s.setNode_of_ne _ hnn).trans hn', hdue⟩

/-! ## Requests of nodes that are not listed -/

/-- The node had sent a LOCK when it left, and no PURGE of it has come since. -/
def Unpurged (done : List Event) (n : UInt32) : Prop :=
  ∃ k e x, done[k]? = some e ∧ x ∈ e.left ∧ x.nodeid = n ∧
    (done.take k).any (·.asks n) = true ∧ ∀ i e', k < i → done[i]? = some e' → e'.purges n = false

/-- Whose requests are queued. -/
structure Queued (done : List Event) (v : Daemon) : Prop where
  idle : v.joined = false → v.keys = []
  asked : ∀ k ∈ v.keys, done.any (·.asks k.nodeid) = true
  listed : ∀ k ∈ v.keys, k.nodeid ∈ v.ids ∨ Unpurged done k.nodeid

theorem Unpurged.append {done : List Event} {n : UInt32} (h : Unpurged done n) {e : Event}
    (he : e.purges n = false) : Unpurged (done ++ [e]) n := by
  obtain ⟨k, e₀, x, hk, hx, hxn, hask, hno⟩ := h
  have hlt := (List.getElem?_eq_some_iff.1 hk).1
  refine ⟨k, e₀, x, by rwa [List.getElem?_append_left hlt], hx, hxn,
    by rwa [List.take_append_of_le_length hlt.le], fun i e' hi he' => ?_⟩
  by_cases hil : i < done.length
  · rw [List.getElem?_append_left hil] at he'
    exact hno i e' hi he'
  · have hil' := (List.getElem?_eq_some_iff.1 he').1
    simp only [List.length_append, List.length_singleton] at hil'
    obtain rfl : i = done.length := by omega
    obtain rfl : e = e' := by simpa using he'
    exact he

/-- A message takes no id off a member list. -/
theorem Membership.mem_ids_msg {g : Membership} {x : MemberItem} {m : CpgLockMsg} {c : UInt32}
    (h : c ∈ g.ids) : c ∈ (g.deliver (.msg x m)).ids := by
  unfold Membership.deliver
  dsimp only
  split
  · exact mem_processJoin.2 (.inl h)
  · exact h
  · exact h

namespace Queued

variable {done : List Event} {n : UInt32} {v v' : Daemon}

/-- Requests go. -/
theorem mono (h : Queued done v) (hm : v'.toMembership = v.toMembership)
    (hk : ∀ k ∈ v'.keys, k ∈ v.keys) : Queued done v' := by
  refine ⟨fun hj => ?_, fun k hk' => h.asked k (hk k hk'), fun k hk' => ?_⟩
  · have hnil := h.idle ((congrArg Membership.joined hm).symm.trans hj)
    refine List.eq_nil_iff_forall_not_mem.2 fun k hk' => ?_
    have := hk k hk'
    rw [hnil] at this
    cases this
  · rw [hm]
    exact h.listed k (hk k hk')

theorem msg (h : Queued done v) {out : List CpgLockMsg} {now : Nat} {x : MemberItem}
    {m : CpgLockMsg} (hown : OwnLock [] x.nodeid m)
    (hlist : v.joined = true → m.request = .lock → x.nodeid ∈ v.ids) :
    Queued (done ++ [.msg x m]) (({ v with out } : Daemon).deliver now (.msg x m)) := by
  have hkeys : ∀ k ∈ (({ v with out } : Daemon).deliver now (.msg x m)).keys,
      k ∈ v.keys ∨ v.joined = true ∧ m.request = .lock ∧ m.key = k :=
    fun k hk => Daemon.mem_keys_deliver (d := { v with out }) hk
  refine ⟨fun hj => ?_, fun k hk => ?_, fun k hk => ?_⟩
  · rw [Daemon.joined_deliver] at hj
    have hj : v.joined = false := Membership.joined_of_deliver hj
    refine List.eq_nil_iff_forall_not_mem.2 fun k hk => ?_
    rcases hkeys k hk with hk | ⟨hj', -⟩
    · rw [h.idle hj] at hk
      cases hk
    · rw [hj] at hj'
      cases hj'
  · rw [List.any_append, Bool.or_eq_true]
    rcases hkeys k hk with hk | ⟨-, hm, rfl⟩
    · exact .inl (h.asked k hk)
    · exact .inr (by simp [Event.asks, hm, CpgLockMsg.key])
  · have hids := Daemon.ids_deliver ({ v with out } : Daemon) now (.msg x m)
    rw [hids]
    rcases hkeys k hk with hold | ⟨hj, hm, rfl⟩
    · refine (h.listed k hold).imp Membership.mem_ids_msg fun hun => hun.append ?_
      -- a PURGE that is delivered takes the node's requests along
      refine Bool.eq_false_iff.2 fun hpu => ?_
      obtain ⟨hreq, hn, hp⟩ := of_decide_eq_true hpu
      exact Daemon.mem_keys_purge hreq hk ⟨hn.symm, .inl hp⟩
    · left
      refine Membership.mem_ids_msg ?_
      rw [show m.key.nodeid = x.nodeid from hown hm]
      exact hlist hj hm

theorem change (h : Queued done v) {now : Nat} {members : UInt32 → List MemberItem}
    {left join : List MemberItem} :
    Queued (done ++ [.confchg members left join]) (v.deliver now (.confchg members left join)) := by
  have hkeys : ∀ k ∈ (v.deliver now (.confchg members left join)).keys, k ∈ v.keys :=
    fun k hk => Daemon.keys_configChange hk
  refine ⟨fun hj => ?_, fun k hk => ?_, fun k hk => ?_⟩
  · refine List.eq_nil_iff_forall_not_mem.2 fun k hk => ?_
    have := hkeys k hk
    rw [Daemon.joined_deliver] at hj
    rw [h.idle (Membership.joined_of_deliver hj)] at this
    cases this
  · rw [List.any_append, h.asked k (hkeys k hk), Bool.true_or]
  · rw [Daemon.ids_deliver]
    have hold := hkeys k hk
    rcases h.listed k hold with hin | hun
    · by_cases hl : k.nodeid ∈ left.map (·.nodeid)
      · obtain ⟨x, hx, hxn⟩ := List.mem_map.1 hl
        refine .inr ⟨done.length, .confchg members left join, x, by simp, hx, hxn, ?_, ?_⟩
        · rw [List.take_left]
          exact h.asked k hold
        · intro i e' hi he'
          have := (List.getElem?_eq_some_iff.1 he').1
          simp only [List.length_append, List.length_singleton] at this
          omega
      · exact .inl (Membership.mem_configChange hin hl)
    · exact .inr (hun.append rfl)

end Queued

theorem Runs.queued {P : Sys → Act → Prop} {s : Sys} (h : Runs P .init s) :
    s.Views fun done _ v => Queued done v := by
  refine (h.rule (L := fun _ _ _ => True) Sys.sound_init (fun _ _ _ _ => trivial)
    (by intro n nd h; cases h) ?_ (fun _ _ _ _ _ _ _ _ _ _ _ _ => trivial) ?_).2.2
  · intro s members left join boot _ _ _ _ x b _ _
    exact ⟨fun _ => rfl, (by intro k hk; cases hk), (by intro k hk; cases hk)⟩
  · intro s a n nd v pos hs hr _ _ hv hn _ hstep
    have hq := hv n nd hn
    have hb := hs.bounded n nd hn
    have hinv := hs.ordered.inv nd.pos hb
    cases hstep with
    | @msg x m out he hout =>
      rw [List.take_add_one, he]
      refine hq.msg (Runs.ownLock hr _ x m he) fun hj hm => ?_
      have hview := (hs.node n nd hn).views_of_msg he
      have hsender := ((Runs.senders hr).2 _ x m he).resolve_left (by simp [hm])
      by_cases hx : x.nodeid = n
      · rw [hx]
        exact (hinv.self n _ hview).2.2 hj
      · exact hinv.listed n x.nodeid _ hview hsender hx
    | change he =>
      rw [List.take_add_one, he]
      exact hq.change
    | connect => exact hq.mono rfl fun k hk => hk
    | recv =>
      refine hq.mono (Daemon.clientActivityCb_out _ _ _).1 fun k hk => ?_
      rwa [Daemon.keys_clientActivityCb] at hk
    | close =>
      refine hq.mono (Daemon.frame_delClient _ _).membership fun k hk => ?_
      rw [Daemon.keys_delClient] at hk
      split at hk
      · exact hk
      · exact (purgeKeys_sublist ..).subset hk

end Cpglock
