import Cpglock.Daemon.Proof.Turn
import Cpglock.Group.OwnUnlock
import Cpglock.Group.Proof.Asked
import Cpglock.Group.Proof.Connections

/-!
# Runs without failures

`Sys.FailureFree`: no daemon leaves, no client disconnects, and the clients use the library, which
numbers its requests and sends one UNLOCK for a lock it was given. Daemons may enter at any time. Then
every GRANT and NAK answers a LOCK that was ordered before it (`Runs.heard`), and every delivery is
smooth (`Runs.smooth`).
-/

namespace Cpglock

/-! ## Promises -/

/-- No daemon leaves the group. -/
def Sys.NobodyLeaves (_ : Sys) : Act → Prop
  | .confchg _ left _ _ => left = []
  | _ => True

/-- The process and the request number of a LOCK that daemon `n` read. -/
def Obs.asker (n : UInt32) : Obs → Option (UInt32 × UInt32)
  | .recv k _ m => if k = n ∧ m.request = .lock then some (m.ownerPid, m.ownerTid) else none
  | _ => none

/-- A process numbers its requests differently. -/
def Sys.FreshTids (s : Sys) : Act → Prop
  | .recv n _ m => m.request = .lock → (m.ownerPid, m.ownerTid) ∉ s.trace.filterMap (Obs.asker n)
  | _ => True

/-- An UNLOCK names a lock id that was given on its connection and is not unlocked. -/
def Sys.UnlocksOnce (s : Sys) : Act → Prop
  | .recv n fd m => m.request = .unlock → m.lockid ∈ s.ids n fd
  | _ => True

def Sys.FailureFree (s : Sys) (a : Act) : Prop :=
  s.NobodyLeaves a ∧ s.ClientsStay a ∧ s.LibClient a ∧ s.FreshTids a ∧ s.UnlocksOnce a

instance (s : Sys) (a : Act) : Decidable (s.NobodyLeaves a) := by
  refine a.casesOn ?_ ?_ ?_ ?_ ?_ ?_ <;> intros <;> dsimp only [Sys.NobodyLeaves] <;> infer_instance

instance (s : Sys) (a : Act) : Decidable (s.FreshTids a) := by
  refine a.casesOn ?_ ?_ ?_ ?_ ?_ ?_ <;> intros <;> dsimp only [Sys.FreshTids] <;> infer_instance

instance (s : Sys) (a : Act) : Decidable (s.UnlocksOnce a) := by
  refine a.casesOn ?_ ?_ ?_ ?_ ?_ ?_ <;> intros <;> dsimp only [Sys.UnlocksOnce] <;> infer_instance

instance (s : Sys) (a : Act) : Decidable (s.FailureFree a) := by
  unfold Sys.FailureFree
  infer_instance

theorem Runs.nobody_left {P : Sys → Act → Prop} (hP : ∀ s a, P s a → s.NobodyLeaves a) {s : Sys}
    (h : Runs P .init s) :
    ∀ members left join, Event.confchg members left join ∈ s.log → left = [] := by
  refine h.invariant (I := fun s => ∀ members left join, Event.confchg members left join ∈ s.log →
    left = []) (by simp [Sys.init]) ?_
  intro s s' a hi hp hstep members left join hm
  obtain ⟨members', left', join', boot, rfl, -, rfl⟩ | ⟨n, nd, m, out, rfl, -, -, rfl⟩ |
    ⟨n, nd, d, pos, cause, seen, -, -, -, rfl⟩ := Sys.step_cases hstep
  · rcases List.mem_append.1 hm with hm | hm
    · exact hi _ _ _ hm
    · obtain ⟨-, rfl, -⟩ := Event.confchg.inj (List.mem_singleton.1 hm)
      exact hP s _ hp
  · rcases List.mem_append.1 hm with hm | hm
    · exact hi _ _ _ hm
    · cases List.mem_singleton.1 hm
  · exact hi _ _ _ hm

/-! ## Answers follow LOCKs -/

/-- A LOCK of identity `k` has been ordered. -/
def Locked (done : List Event) (k : RequestKey) : Prop :=
  ∃ x m, Event.msg x m ∈ done ∧ m.request = .lock ∧ m.key = k

/-- What a message of node `x` is like after the order `done`. -/
structure HeardMsg (done : List Event) (x : UInt32) (m : CpgLockMsg) : Prop where
  lock : m.request = .lock → m.ownerNodeid = x ∧ (Ledger.of done).Joined x
  answer : m.request = .grant ∨ m.request = .nak → Locked done m.key
  kept : m.request ≠ .purge

/-- What a daemon knows after the order `done`. -/
structure Heard (done : List Event) (n : UInt32) (v : Daemon) : Prop where
  queued : ∀ r, ∀ k ∈ (v.cell r).keys, Locked done k
  sent : ∀ m ∈ v.out, (m.request = .lock → m.ownerNodeid = n) ∧
    (m.request = .grant ∨ m.request = .nak → Locked done m.key) ∧ m.request ≠ .purge
  mine : ∀ k, Locked done k → k.nodeid = n → v.joined = true ∧ (v.cell k.resource).lock ≠ none
  first : v.joined = false → ∃ m out, v.out = m :: out ∧ m.request = .join

theorem Locked.append {done : List Event} {k : RequestKey} (h : Locked done k) (e : Event) :
    Locked (done ++ [e]) k := by
  obtain ⟨x, m, hm, h⟩ := h
  exact ⟨x, m, List.mem_append_left _ hm, h⟩

theorem Locked.of_append {done : List Event} {k : RequestKey} {e : Event}
    (h : Locked (done ++ [e]) k) :
    Locked done k ∨ ∃ x m, e = .msg x m ∧ m.request = .lock ∧ m.key = k := by
  obtain ⟨x, m, hm, h⟩ := h
  rcases List.mem_append.1 hm with hm | hm
  · exact .inl ⟨x, m, hm, h⟩
  · exact .inr ⟨x, m, (List.mem_singleton.1 hm).symm, h⟩

/-- A daemon's JOIN makes it join. -/
theorem Membership.deliver_join {G : Ledger} (hi : G.Inv) {g : Membership} {x : MemberItem}
    {m : CpgLockMsg} (hg : G.views x.nodeid = some g) (hm : m.request = .join) :
    (g.deliver (.msg x m)).joined = true := by
  obtain ⟨hme, hids⟩ := hi.self _ g hg
  simp only [Membership.deliver, hm]
  rw [Membership.processJoin_joined, hme]
  cases hj : g.joined with
  | true => exact .inl rfl
  | false => exact .inr ⟨rfl, fun h => by simpa [hj] using hids.1 h⟩

/-- After its JOIN has been ordered a daemon has joined. -/
theorem WellOrdered.joined_of_join {log : List Event} (hw : WellOrdered log)
    (hleft : ∀ members left join, Event.confchg members left join ∈ log → left = []) {j : Nat}
    {x : MemberItem} {m : CpgLockMsg} (hj : log[j]? = some (.msg x m)) (hm : m.request = .join) :
    (Ledger.of log).Joined x.nodeid := by
  have hlt := (List.getElem?_eq_some_iff.1 hj).1
  have hinv := hw.inv j hlt.le
  obtain ⟨g, hg, -⟩ := hw j _ hj hm
  have hnext : (Ledger.of (log.take (j + 1))).Joined x.nodeid := by
    rw [Ledger.of_take_succ hj]
    exact ⟨_, Ledger.viewsAfter_of_stays (stays_msg _ _ _) hg (hinv.self _ g hg).1,
      Membership.deliver_join hinv hg hm⟩
  have := hw.joined_mono hleft hlt le_rfl hnext
  rwa [List.take_length] at this

/-- A change that only lets daemons in leaves the tables alone. -/
theorem Daemon.cell_cpgConfigChange_nil (d : Daemon) (members join : List MemberItem)
    (r : Resource) : (d.cpgConfigChange members [] join).cell r = d.cell r := rfl

namespace Heard

variable {done : List Event} {n : UInt32} {v : Daemon}

theorem start (x : MemberItem) (b : Boot)
    (hmine : ∀ k, Locked done k → k.nodeid ≠ x.nodeid) : Heard done x.nodeid (.start x b) where
  queued r k hk := by cases hk
  sent m hm := by
    rw [List.mem_singleton.1 (show m ∈ [_] from hm)]
    simp [CpgLockMsg.blank]
  mine k hk hn := absurd hn (hmine k hk)
  first _ := ⟨_, [], rfl, rfl⟩

/-- The delivery of a message. -/
theorem message {out : List CpgLockMsg} {now : Nat} {x : MemberItem} {m : CpgLockMsg}
    (h : Heard done n v) (hs : v.Smooth m) (hm : HeardMsg done x.nodeid m)
    (hi : (Ledger.of done).Inv) (hviews : (Ledger.of done).views n = some v.toMembership)
    (hout : v.out = if x.nodeid = n then m :: out else out) :
    Heard (done ++ [.msg x m]) n (({ v with out } : Daemon).deliver now (.msg x m)) := by
  have hsub : ∀ g ∈ out, g ∈ v.out := mem_of_popped hout
  have hmove : ∀ r, ({ v with out } : Daemon).CellMove r now m
      ((({ v with out } : Daemon).deliver now (.msg x m)).cell r) := fun r =>
    (Daemon.cellStep_deliver _ now x m).move ⟨hs.kept, hs.real, hs.member, hs.mine, hs.connected⟩
  have hqueued : ∀ r, ∀ k ∈ ((({ v with out } : Daemon).deliver now (.msg x m)).cell r).keys,
      Locked (done ++ [.msg x m]) k := by
    intro r k hk
    rcases (hmove r).mem_keys hk with hk | ⟨hl, hk⟩
    · exact (h.queued r k hk).append _
    · exact ⟨x, m, by simp, hl, hk⟩
  refine ⟨hqueued, fun g hg => ?_, fun k hk hn => ?_, fun hj => ?_⟩
  · have hold : g ∈ (({ v with out } : Daemon).cell g.resource).sent →
        (g.request = .lock → g.ownerNodeid = n) ∧
        (g.request = .grant ∨ g.request = .nak → Locked (done ++ [.msg x m]) g.key) ∧
        g.request ≠ .purge := by
      intro hg
      obtain ⟨hl, ha, hp⟩ := h.sent g (hsub g (List.mem_filter.1 hg).1)
      exact ⟨hl, fun hr => (ha hr).append _, hp⟩
    have hgc := Daemon.mem_cell hg
    rcases (hmove g.resource).sent_cases with heq | ⟨q, heq, -, hk, -⟩ | ⟨-, -, -, hk, heq⟩
    · exact hold (heq ▸ hgc)
    · rw [heq] at hgc
      rcases List.mem_append.1 hgc with hgc | hgc
      · exact hold hgc
      · have hgq := List.mem_singleton.1 hgc
        have hkey : g.key = q.key := by rw [hgq]; rfl
        have hreq : g.request = .grant := by rw [hgq]; rfl
        exact ⟨by simp [hreq], fun _ => hkey ▸ hqueued _ _ hk, by simp [hreq]⟩
    · rw [heq] at hgc
      rcases List.mem_append.1 hgc with hgc | hgc
      · exact hold hgc
      · have hgq := List.mem_singleton.1 hgc
        have hkey : g.key = m.key := by rw [hgq]; rfl
        have hreq : g.request = .nak := by rw [hgq]
        exact ⟨by simp [hreq], fun _ => hkey ▸ hqueued _ _ hk, by simp [hreq]⟩
  · rw [Daemon.joined_deliver]
    rcases hk.of_append with hk | ⟨y, g, he, hl, rfl⟩
    · obtain ⟨hj, hlock⟩ := h.mine k hk hn
      exact ⟨Membership.deliver_joined_mono _ hj, (hmove _).lock_ne_none (.inl hlock)⟩
    · obtain ⟨rfl, rfl⟩ := Event.msg.inj he
      obtain ⟨hx, g, hg, hj⟩ := hm.lock hl
      have hxn : x.nodeid = n := hx.symm.trans hn
      rw [hxn] at hg
      obtain rfl := Option.some.inj (hviews.symm.trans hg)
      exact ⟨Membership.deliver_joined_mono _ hj, (hmove _).lock_ne_none (.inr ⟨hj, hl, rfl⟩)⟩
  · rw [Daemon.joined_deliver] at hj
    have hj0 : v.joined = false := Membership.joined_of_deliver hj
    obtain ⟨g, rest, hrest, hg⟩ := h.first hj0
    by_cases hx : x.nodeid = n
    · rw [if_pos hx, hrest] at hout
      obtain ⟨rfl, rfl⟩ := List.cons.inj hout
      have := Membership.deliver_join (x := x) hi (hx ▸ hviews) hg
      exact absurd (hj.symm.trans this) (by decide)
    · rw [if_neg hx, hrest] at hout
      obtain ⟨ms, hms, -⟩ := (Daemon.grows_deliver ({ v with out } : Daemon) now (.msg x m)).out
      refine ⟨g, rest ++ ms, ?_, hg⟩
      rw [hms]
      show out ++ ms = _
      rw [← hout]
      rfl

/-- The delivery of a change by which daemons enter. -/
theorem change (h : Heard done n v) (now : Nat) (members : UInt32 → List MemberItem)
    (join : List MemberItem) : Heard (done ++ [.confchg members [] join]) n
      (v.deliver now (.confchg members [] join)) where
  queued r k hk := (h.queued r k hk).append _
  sent m hm := by
    obtain ⟨hl, ha, hp⟩ := h.sent m hm
    exact ⟨hl, fun hr => (ha hr).append _, hp⟩
  mine k hk hn := by
    rcases hk.of_append with hk | ⟨x, m, he, -⟩
    · obtain ⟨hj, hl⟩ := h.mine k hk hn
      rw [Daemon.joined_deliver]
      exact ⟨Membership.deliver_joined_mono _ hj, hl⟩
    · cases he
  first hj := by
    rw [Daemon.joined_deliver] at hj
    exact h.first (Membership.joined_of_deliver hj)

/-- A client's message. -/
theorem client (h : Heard done n v) (hme : v.myNodeId = n) (fd : Nat) (m : CpgLockMsg) :
    Heard done n (v.clientActivityCb fd m) := by
  have hw := fun r => Daemon.cellWrite_clientActivityCb v r fd m
  obtain ⟨hmem, ms, hms, -⟩ := Daemon.clientActivityCb_out v fd m
  have hj : (v.clientActivityCb fd m).joined = v.joined := congrArg Membership.joined hmem
  refine ⟨fun r k hk => ?_, fun g hg => ?_, fun k hk hn => ?_, fun hj' => ?_⟩
  · rw [(hw r).keys] at hk
    exact h.queued r k hk
  · have hgc := Daemon.mem_cell hg
    have hold : g ∈ (v.cell g.resource).sent → _ := fun hg => h.sent g (List.mem_filter.1 hg).1
    rcases (hw g.resource).sent_cases with heq | ⟨hm, -, heq⟩ | ⟨q, heq, -, hk, -⟩ |
      ⟨u, hu, -, heq⟩
    · exact hold (heq ▸ hgc)
    all_goals
      rw [heq] at hgc
      rcases List.mem_append.1 hgc with hgc | hgc
      · exact hold hgc
      have hgq := List.mem_singleton.1 hgc
    · have hreq : g.request = .lock := by rw [hgq]; exact hm
      have hnode : g.ownerNodeid = n := by rw [hgq]; exact hme
      exact ⟨fun _ => hnode, by simp [hreq], by simp [hreq]⟩
    · have hkey : g.key = q.key := by rw [hgq]; rfl
      have hreq : g.request = .grant := by rw [hgq]; rfl
      exact ⟨by simp [hreq], fun _ => hkey ▸ h.queued _ _ hk, by simp [hreq]⟩
    · have hreq : g.request = .unlock := by rw [hgq]; exact hu
      simp [hreq]
  · rw [hj, (hw _).lock]
    exact h.mine k hk hn
  · obtain ⟨g, out, hout, hg⟩ := h.first (hj ▸ hj')
    exact ⟨g, out ++ ms, by rw [hms, hout]; rfl, hg⟩

end Heard

/-! ## Runs -/

/-- A LOCK of the order comes from a daemon that has joined. -/
theorem Locked.joined {log : List Event} (hlog : Ordered HeardMsg log) (hw : WellOrdered log)
    (hleft : ∀ members left join, Event.confchg members left join ∈ log → left = []) {k : Nat}
    (hk : k ≤ log.length) {q : RequestKey} (h : Locked (log.take k) q) :
    (Ledger.of (log.take k)).Joined q.nodeid := by
  obtain ⟨x, m, hm, hl, rfl⟩ := h
  obtain ⟨i, hi, hget⟩ := List.mem_iff_getElem.1 hm
  rw [List.length_take] at hi
  rw [List.getElem_take] at hget
  have hi' : log[i]? = some (.msg x m) := by
    rw [← hget]
    exact List.getElem?_eq_getElem (by omega)
  obtain ⟨hx, hj⟩ := (hlog i x m hi').lock hl
  rw [show m.key.nodeid = x.nodeid from hx]
  exact hw.joined_mono hleft (by omega) hk hj

section

variable {P : Sys → Act → Prop} (hP : ∀ s a, P s a → s.FailureFree a)
include hP

theorem Runs.plain_of {s : Sys} (h : Runs P .init s) :
    Ordered RealMsg s.log ∧ ∀ n nd, s.nodes n = some nd → Plain n (nd.view s.log n) :=
  h.plain fun s a hp => (hP s a hp).2.2.1.hasPid

/-- A process that asked is connected. -/
theorem Runs.asker_connected {s : Sys} (h : Runs P .init s) {k : RequestKey} (hk : s.Asked k) :
    k.pid ≠ 0 ∧ ∃ nd, s.nodes k.nodeid = some nd ∧ nd.d.connected k.pid = true := by
  obtain ⟨fd, m, hrecv, hl, hkey⟩ := hk
  have hpid : m.ownerPid = k.pid := congrArg RequestKey.pid hkey
  obtain ⟨h0, nd, hn, hc⟩ := Runs.askers_connected (fun s a hp => ⟨(hP s a hp).2.1,
    (hP s a hp).2.2.1, fun members left join boot ha => by
      have := (hP s a hp).1
      rwa [ha] at this⟩) h _ fd m hrecv hl
  rw [hpid] at h0 hc
  exact ⟨h0, nd, hn, hc⟩

/-- A message that answers what was heard is delivered smoothly. -/
theorem Runs.smooth_of {s : Sys} (h : Runs P .init s) (hlog : Ordered HeardMsg s.log) {n : UInt32}
    {nd : Node} (hheard : Heard (s.log.take nd.pos) n (nd.view s.log n))
    (hn : s.nodes n = some nd) {x : MemberItem} {m : CpgLockMsg}
    (he : s.log[nd.pos]? = some (.msg x m)) : (nd.view s.log n).Smooth m := by
  have hs := Runs.sound h
  have hleft := h.nobody_left fun s a hp => (hP s a hp).1
  obtain ⟨hreal, hplain⟩ := h.plain_of hP
  have hb := hs.bounded n nd hn
  have hm := hlog nd.pos x m he
  have hme : (nd.view s.log n).myNodeId = n := (hplain n nd hn).me
  have hinv := hs.ordered.inv nd.pos hb
  have hviews := (hs.node n nd hn).views_of_msg he
  refine ⟨hm.kept, fun hg => hreal nd.pos x m he (.inr (.inl hg)), fun hj hg => ?_,
    fun hg hown => ?_, fun hg hown => ?_⟩
  · have hjoined := (hm.answer (.inl hg)).joined hlog hs.ordered hleft hb
    have hmem : m.ownerNodeid ∈ nd.d.toMembership.ids := by
      by_cases hc : m.ownerNodeid = n
      · rw [hc]
        exact (hinv.self n _ hviews).2.2 hj
      · exact hinv.listed n _ _ hviews hjoined hc
    have hlisted : (nd.view s.log n).isMember m.ownerNodeid = true := by
      obtain ⟨y, hy, hyn⟩ := List.mem_map.1 hmem
      exact List.any_eq_true.2 ⟨y, hy, by simpa using hyn⟩
    simp [Daemon.lost, hlisted]
  · exact (hheard.mine m.key (hm.answer (.inl hg)) (hown.trans hme)).2
  · -- the process asked here, and is still connected
    have hasked := (Runs.fromClients h).log x m (List.mem_of_getElem? he) (.inr hg)
    obtain ⟨-, nd', hn', hc⟩ := h.asker_connected hP hasked
    rw [show m.key.nodeid = n from hown.trans hme, hn] at hn'
    obtain rfl := Option.some.inj hn'
    exact hc

theorem Runs.heard {s : Sys} (h : Runs P .init s) : Ordered HeardMsg s.log ∧ s.Views Heard := by
  refine (h.rule Sys.sound_init (by intro k x m h; simp [Sys.init] at h)
    (by intro n nd h; cases h) ?_ ?_ ?_).2
  · intro s members left join boot hs hr _ hok x b hx _
    refine .start x b fun k hk hkx => ?_
    -- its node would have a daemon already
    obtain ⟨y, m, hm, hl, rfl⟩ := hk
    obtain ⟨-, nd, hnd, -⟩ := hr.asker_connected hP ((Runs.fromClients hr).log y m hm (.inl hl))
    rw [hkx, hs.nodes_join hok hx] at hnd
    cases hnd
  · intro s n nd m out hs hr hp hlog hv hn hout
    have hleft := hr.nobody_left fun s a hp => (hP s a hp).1
    have hb := hs.bounded n nd hn
    have hheard := hv n nd hn
    have hmem : m ∈ (nd.view s.log n).out := Node.mem_view hout
    obtain ⟨hown, hans, hkept⟩ := hheard.sent m hmem
    refine ⟨fun hl => ⟨hown hl, ?_⟩, fun hr => ?_, hkept⟩
    · cases hj : (nd.view s.log n).joined with
      | true =>
        have := hs.ordered.joined_mono hleft hb le_rfl
          ⟨_, ((hs.node n nd hn).views hj).2, hj⟩
        rwa [List.take_length] at this
      | false =>
        -- the JOIN is ahead of the LOCK
        obtain ⟨g, rest, hrest, hg⟩ := hheard.first hj
        have hview : (nd.view s.log n).out = coming s.log n nd.pos ++ m :: out := by
          rw [← hout]
          rfl
        cases hcoming : coming s.log n nd.pos with
        | nil =>
          rw [hview, hcoming, List.nil_append] at hrest
          obtain ⟨rfl, -⟩ := List.cons.inj hrest
          exact absurd (hl.symm.trans hg) (by decide)
        | cons g' l =>
          rw [hview, hcoming, List.cons_append] at hrest
          obtain ⟨rfl, -⟩ := List.cons.inj hrest
          have hin : g' ∈ coming s.log n nd.pos := by rw [hcoming]; exact List.mem_cons_self
          obtain ⟨e, he, hown⟩ := List.mem_filterMap.1 hin
          cases e with
          | confchg => cases hown
          | msg x g =>
            simp only [Event.own] at hown
            split at hown
            · next hx =>
              obtain rfl := Option.some.inj hown
              obtain ⟨j, hj'⟩ := List.mem_iff_getElem?.1 (List.mem_of_mem_drop he)
              exact hx ▸ hs.ordered.joined_of_join hleft hj' hg
            · cases hown
    · obtain ⟨y, g, hg, h⟩ := hans hr
      exact ⟨y, g, List.mem_of_mem_take hg, h⟩
  · intro s a n nd v pos hs hr hp hlog hv hn _ hstep
    have hheard := hv n nd hn
    have hme : (nd.view s.log n).myNodeId = n := ((hr.plain_of hP).2 n nd hn).me
    cases hstep with
    | @msg x m out he hout =>
      have hviews := (hs.node n nd hn).views_of_msg he
      have hinv := hs.ordered.inv nd.pos (hs.bounded n nd hn)
      rw [List.take_add_one, he]
      exact hheard.message (hr.smooth_of hP hlog hheard hn he) (hlog _ x m he) hinv hviews hout
    | @change members left join he =>
      obtain rfl := hr.nobody_left (fun s a hp => (hP s a hp).1) _ _ _ (List.mem_of_getElem? he)
      have := hheard.change nd.pos members join
      rwa [← Option.toList_some, ← he, ← List.take_add_one] at this
    | connect => exact ⟨hheard.queued, hheard.sent, hheard.mine, hheard.first⟩
    | @recv fd m => exact hheard.client hme fd m
    | close => exact ((hP _ _ hp).2.1 : False).elim

/-- What a delivery makes of a cell. -/
theorem Runs.cellMove {s : Sys} (h : Runs P .init s) {n : UInt32} {nd : Node}
    (hn : s.nodes n = some nd) {x : MemberItem} {m : CpgLockMsg}
    (he : s.log[nd.pos]? = some (.msg x m)) (out : List CpgLockMsg) (r : Resource) :
    ({ nd.view s.log n with out } : Daemon).CellMove r nd.pos m
      ((({ nd.view s.log n with out } : Daemon).deliver nd.pos (.msg x m)).cell r) := by
  obtain ⟨hlog, hheard⟩ := Runs.heard hP h
  have hs := h.smooth_of hP hlog (hheard n nd hn) hn he
  exact (Daemon.cellStep_deliver _ nd.pos x m).move
    ⟨hs.kept, hs.real, hs.member, hs.mine, hs.connected⟩

end

end Cpglock
