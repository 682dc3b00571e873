import Cpglock.Group.Proof.DepartureRun

/-!
# The survivors' steps

`View.step`: what a survivor's daemon does keeps `Leave.View`; a delivered message makes of its cell
what it makes of the entry (`View.cell_msg`), by the phase the cell is in. So in runs in which
clients only connect and send LOCKs the survivors stay within what the order determines
(`Runs.leave`).
-/

namespace Cpglock

/-- What a message of another node makes of the queue commutes with leaving out the requests of
`gone`. -/
theorem CpgLockMsg.requeue_filter {m : CpgLockMsg} {gone : UInt32}
    (h : m.request = .lock → m.ownerNodeid ≠ gone) (ks : List RequestKey) :
    m.requeue (ks.filter fun k => k.nodeid ≠ gone) =
      (m.requeue ks).filter fun k => k.nodeid ≠ gone := by
  unfold requeue
  split
  · next hm =>
    have hk : m.key.nodeid ≠ gone := h hm
    simp [List.filter_append, hk]
  · exact List.erase_filter
  · exact List.erase_filter
  · exact List.filter_comm ..
  · rfl

namespace Leave

section

variable {E : Leave} {done : List Event} {n : UInt32} {v : Daemon} {x : MemberItem} {m : CpgLockMsg}
  {out : List CpgLockMsg} {r : Resource}

/-! ## Rulings -/

theorem rulings_pop (hout : v.out = if x.nodeid = n then m :: out else out) (ho : m.OfEntry)
    (hr : m.resource = r) : (v.cell r).rulings = (if x.nodeid = n then [m] else []) ++
      (({ v with out } : Daemon).cell r).rulings := by
  have hc : m.concerns r = true := by simp [CpgLockMsg.concerns, hr]
  rw [cell_pop hout r]
  simp only [Cell.rulings, List.filter_append, hc, and_true]
  congr 1
  split <;> simp [ho]

theorem rulings_pop_of_not (hout : v.out = if x.nodeid = n then m :: out else out)
    (h : ¬(m.OfEntry ∧ m.resource = r)) :
    (v.cell r).rulings = (({ v with out } : Daemon).cell r).rulings := by
  rw [cell_pop hout r]
  simp only [Cell.rulings, List.filter_append]
  rw [List.append_left_eq_self, List.filter_eq_nil_iff]
  split
  · next hx =>
    have hno : ¬m.OfEntry := by
      intro ho
      have hc : m.request = .purge ∨ m.resource = r := by simpa [CpgLockMsg.concerns] using hx.2
      rcases hc with hp | hr
      · simp [CpgLockMsg.OfEntry, hp] at ho
      · exact h ⟨ho, hr⟩
    simp [hno]
  · simp

/-! ## A delivered message -/

section

variable (h : E.View done n v) (hm : E.Msg done x.nodeid m)
  (hout : v.out = if x.nodeid = n then m :: out else out)
include h hm hout

/-- An answer to a process of this node finds its client. -/
theorem View.connected (hr : m.request = .grant ∨ m.request = .nak) (hn : m.ownerNodeid = n) :
    v.connected m.ownerPid = true := by
  rcases hm.asked hr with hx | hk
  · have hmem : m ∈ v.out := by
      rw [hout, if_pos (hx.symm.trans hn)]
      exact List.mem_cons_self
    rcases Cell.All.of_out h.asked hmem (.inr hr) with hk | hk
    · exact hk.2.2
    · exact h.live _ hk hn (hm.known (.inr hr)).1.1
  · exact h.live _ hk hn (hm.known (.inr hr)).1.1

theorem View.keys_msg (now : Nat) :
    (({ v with out } : Daemon).deliver now (.msg x m)).keys = m.requeue v.keys := by
  have hlock : m.request = .grant → v.locks.get m.resource ≠ none := by
    intro hg hnone
    have hc := h.cell m.resource
    cases ht : (E.after done).lock m.resource with
    | none => exact hm.entry (.inl hg) ht
    | some t =>
      rw [ht] at hc
      obtain ⟨l, hl, -⟩ := hc
      exact absurd (hl.symm.trans hnone) (by simp)
  rcases Daemon.keys_deliver ({ v with out } : Daemon) now x m (fun _ => h.joined)
    (fun hg => ⟨hlock hg, (hm.known (.inr (.inl hg))).1⟩) with hk | ⟨hr, hn, hc, -⟩
  · exact hk
  · rw [show ({ v with out } : Daemon).connected m.ownerPid = v.connected m.ownerPid from rfl,
      h.connected hm hout hr (hn.trans h.me)] at hc
    cases hc

theorem View.queue_msg (hE : E.Ok) (hb : E.base ≤ done.length) (now : Nat) :
    (({ v with out } : Daemon).deliver now (.msg x m)).keys = if n = E.top.nodeid then
      (E.after (done ++ [.msg x m])).queue.filter (fun k => k.nodeid ≠ E.gone)
    else (E.after (done ++ [.msg x m])).queue := by
  have hgone : m.request = .lock → m.ownerNodeid ≠ E.gone := fun hl =>
    hm.lock hl ▸ (hE.alive _ hm.member).2
  rw [h.keys_msg hm hout now, h.queue, after_append hb]
  split
  · exact CpgLockMsg.requeue_filter hgone _
  · rfl

end

/-- A request that is queued for `r` besides those of the departed node waits at every survivor. -/
theorem View.waiting_ne_nil (h : E.View done n v) (ho : E.Others (E.after done) r) :
    (v.cell r).waiting ≠ [] := by
  obtain ⟨k, hk, hr, hg⟩ := ho
  have hkeys : k ∈ v.keys := by
    rw [h.queue]
    split
    · exact List.mem_filter.2 ⟨hk, decide_eq_true hg⟩
    · exact hk
  rw [← hr]
  intro hnil
  have := Daemon.mem_keys_cell.1 hkeys
  rw [Cell.keys, hnil] at this
  cases this

/-- The head's queue has no request of the departed node. -/
theorem View.waiting_head (h : E.View done n v) (hn : n = E.top.nodeid) :
    ∀ q ∈ (v.cell r).waiting, q.ownerNodeid ≠ E.gone := by
  intro q hq
  have hk : q.key ∈ v.keys := List.mem_map_of_mem (List.mem_filter.1 hq).1
  rw [h.queue, if_pos hn] at hk
  exact of_decide_eq_true (List.mem_filter.1 hk).2

theorem waiting_resource (v : Daemon) : ∀ q ∈ (v.cell r).waiting, q.resource = r := fun q hq => by
  simpa using (List.mem_filter.1 hq).2

theorem View.head (h : E.View done n v) (hE : E.Ok) : v.getOldestNode = E.top := by
  rw [Daemon.getOldestNode, h.members, hE.head, Option.getD_some]

theorem View.lost (h : E.View done n v) (hE : E.Ok) {k : UInt32} (hk : k ∈ E.ids ∨ k = E.gone) :
    v.lost k = true ↔ n = E.top.nodeid ∧ k = E.gone := by
  have hmember : v.isMember k = true ↔ k ∈ E.ids := by
    simp [Membership.isMember, h.members, ids]
  have hiff : k ∉ E.ids ↔ k = E.gone :=
    ⟨fun hno => hk.resolve_left hno, fun hg hin => (hE.alive k hin).2 hg⟩
  simp only [Daemon.lost, h.head hE, h.me, decide_eq_true_eq, Bool.not_eq_true',
    ← hiff, ← hmember, Bool.not_eq_true]
  exact and_congr_left' eq_comm

/-- A delivered message makes of the cell what it makes of the entry. -/
theorem View.cell_msg (h : E.View done n v) (hE : E.Ok) (hb : E.base ≤ done.length)
    (hm : E.Msg done x.nodeid m) (hout : v.out = if x.nodeid = n then m :: out else out)
    (now : Nat) (r : Resource) :
    Rejoins E.top E.gone n r ((E.after (done ++ [.msg x m])).lock r)
      ((({ v with out } : Daemon).deliver now (.msg x m)).cell r)
      ((({ v with out } : Daemon).deliver now (.msg x m)).cell r).rulings := by
  have hn := hE.alive n h.member
  have hx := hE.alive _ hm.member
  have hcell := h.cell r
  have hme : ({ v with out } : Daemon).myNodeId = n := h.me
  have hcon : ∀ hr : m.request = .grant ∨ m.request = .nak, m.ownerNodeid = n →
      ({ v with out } : Daemon).connected m.ownerPid = true := h.connected hm hout
  have hafter : (E.after (done ++ [.msg x m])).lock r =
      if m.resource = r then m.relock ((E.after done).lock r) else (E.after done).lock r := by
    rw [after_append hb]
    rfl
  have hold : m.resource ≠ r ∨ m.request = .purge → (E.after (done ++ [.msg x m])).lock r =
      (E.after done).lock r := by
    rintro (hne | hp)
    · rw [hafter, if_neg hne]
    · rw [hafter]
      simp [CpgLockMsg.relock, hp]
  have hstep := Daemon.cellStep_deliver ({ v with out } : Daemon) (r := r) now x m
  generalize (({ v with out } : Daemon).deliver now (.msg x m)).cell r = c at hstep
  cases hstep with
  | lock _ hl hr =>
    rw [hafter, if_pos hr, show ({ v with out } : Daemon).getOldestNode = E.top from h.head hE, hme]
    rw [rulings_pop_of_not hout fun ho => by simp [CpgLockMsg.OfEntry, hl] at ho] at hcell
    exact Rejoins.lock (c := ({ v with out } : Daemon).cell r) hcell hn now hr hl
      (hm.lock hl ▸ hx.2) (waiting_resource v) h.waiting_head
  | grant _ hg hr =>
    rw [rulings_pop hout (.inl hg) hr] at hcell
    obtain ⟨hreal, hnode⟩ := hm.known (.inr (.inl hg))
    have hhanded := hm.handed hg
    have hacts := hm.acts (.inl hg)
    have hentry := hm.entry (.inl hg)
    rw [hr] at hhanded hacts hentry
    rw [hafter, if_pos hr, hme]
    cases ht : (E.after done).lock r with
    | none => exact absurd ht hentry
    | some t =>
      rw [ht] at hcell hacts
      exact Rejoins.grant (c := ({ v with out } : Daemon).cell r) hcell Iff.rfl hn hx hacts hg
        hreal.1 hreal.2 _ (h.lost hE hnode) (hcon (.inl hg)) (waiting_resource v) h.waiting_head
        fun hgone => ⟨(hhanded hgone).1 t ht, fun _ => h.waiting_ne_nil (hhanded hgone).2⟩
  | nak _ hk hr =>
    rw [rulings_pop hout (.inr (.inl hk)) hr] at hcell
    rw [hafter, if_pos hr, hme]
    simp only [CpgLockMsg.relock, hk]
    exact Rejoins.nak (c := ({ v with out } : Daemon).cell r) hcell hk (hcon (.inr hk))
  | unlock _ hu hr =>
    rw [rulings_pop hout (.inr (.inr hu)) hr] at hcell
    obtain ⟨htop, hgives, htaken⟩ := hm.unlock hu
    have hentry := hm.entry (.inr (.inr hu))
    rw [hr] at htaken hentry
    rw [hafter, if_pos hr, hme]
    cases ht : (E.after done).lock r with
    | none => exact absurd ht hentry
    | some t =>
      rw [ht] at hcell
      exact Rejoins.unlock (c := ({ v with out } : Daemon).cell r) hcell (by rw [htop]) hn
        (htop ▸ hx) (htaken t ht) hgives
  | purge hp =>
    rw [rulings_pop_of_not hout fun ho => by simp [CpgLockMsg.OfEntry, hp] at ho] at hcell
    rw [hold (.inr hp)]
    exact Rejoins.purge (c := ({ v with out } : Daemon).cell r) hcell _ _
  | gone hr _ hn hc =>
    rw [hcon hr (hn.trans hme)] at hc
    cases hc
  | same hp hno =>
    have hne : m.resource ≠ r := by
      intro hr
      obtain ⟨h₁, h₂, h₃, h₄⟩ := hno h.joined hr
      rcases hm.kind with hk | hk | hk | hk | hk
      · exact h₁ hk
      · exact hp hk
      · exact h₂ hk
      · exact h₃ hk
      · exact h₄ hk
    rw [rulings_pop_of_not hout fun ho => hne ho.2] at hcell
    rw [hold (.inl hne)]
    exact hcell

/-- A survivor that is not the head answers nothing but LOCKs. -/
theorem View.quiet (h : E.View done n v) (hE : E.Ok) (hm : E.Msg done x.nodeid m)
    (hout : v.out = if x.nodeid = n then m :: out else out) (hn : n ≠ E.top.nodeid)
    (now : Nat) {r : Resource} (hl : ¬(m.request = .lock ∧ m.resource = r)) :
    ((({ v with out } : Daemon).deliver now (.msg x m)).cell r).sent =
      (({ v with out } : Daemon).cell r).sent := by
  have hme : ({ v with out } : Daemon).myNodeId = n := h.me
  have hstep := Daemon.cellStep_deliver ({ v with out } : Daemon) (r := r) now x m
  generalize (({ v with out } : Daemon).deliver now (.msg x m)).cell r = c at hstep
  have hentry : m.OfEntry → m.resource = r → ∃ l, (({ v with out } : Daemon).cell r).lock = some l := by
    intro ho hr
    have hcell := h.cell r
    have hne := hm.entry ho
    rw [hr] at hne
    cases ht : (E.after done).lock r with
    | none => exact absurd ht hne
    | some t =>
      rw [ht] at hcell
      obtain ⟨l, hl, -⟩ := hcell
      exact ⟨l, hl⟩
  cases hstep with
  | lock _ hlock hr => exact absurd ⟨hlock, hr⟩ hl
  | grant _ hg hr =>
    obtain ⟨hreal, hnode⟩ := hm.known (.inr (.inl hg))
    obtain ⟨l, hl⟩ := hentry (.inl hg) hr
    have hlost : ({ v with out } : Daemon).lost m.ownerNodeid = false :=
      Bool.eq_false_iff.2 fun hlost => hn ((h.lost hE hnode).1 hlost).1
    obtain ⟨l', -, heq⟩ := Cell.processGrant_connected (t := l) (r := r) (n := n) hl
      (({ v with out } : Daemon).lost m.ownerNodeid) (({ v with out } : Daemon).localLockid + 1)
      hreal.1 hreal.2 (h.connected hm hout (.inl hg))
    rw [hme]
    refine (congrArg Cell.sent heq).trans ?_
    rw [hlost]
    rfl
  | nak _ _ _ =>
    unfold Cell.processNak
    split
    · dsimp only
      split <;> rfl
    · rfl
  | unlock _ hu hr =>
    obtain ⟨-, hgives, -⟩ := hm.unlock hu
    unfold Cell.processUnlock
    split
    · next l hl =>
      split
      · next hc =>
        rw [if_neg]
        · rfl
        · rw [hme]
          exact fun ho => hn (ho.symm.trans (hc.2.1.trans hgives.2.1))
      · rfl
    · rfl
  | _ => rfl

theorem View.others_msg (h : E.View done n v) (hE : E.Ok) (hb : E.base ≤ done.length)
    (hm : E.Msg done x.nodeid m) (hout : v.out = if x.nodeid = n then m :: out else out)
    (now : Nat) {a : CpgLockMsg} (ha : a ∈ (({ v with out } : Daemon).deliver now (.msg x m)).out)
    (hg : a.request = .grant) (hgone : a.ownerNodeid = E.gone) :
    E.Others (E.after (done ++ [.msg x m])) a.resource := by
  have hcell := h.cell_msg hE hb hm hout now a.resource
  have hafter : E.after (done ++ [.msg x m]) = (E.after done).deliver m := after_append hb _
  have hrul : a ∈ ((({ v with out } : Daemon).deliver now (.msg x m)).cell a.resource).rulings :=
    List.mem_filter.2 ⟨Daemon.mem_cell ha, decide_eq_true (.inl hg)⟩
  obtain ⟨A, B, hAB⟩ := List.append_of_mem hrul
  rw [hAB] at hcell
  obtain ⟨-, hn, -⟩ := hcell.handed hg hgone
  by_cases hl : m.request = .lock ∧ m.resource = a.resource
  · -- the LOCK's own request is queued
    have hkey : m.key.nodeid ≠ E.gone := fun hk =>
      (hE.alive _ hm.member).2 ((hm.lock hl.1).symm.trans hk)
    refine ⟨m.key, ?_, hl.2, hkey⟩
    rw [hafter]
    simp [Replica.deliver, CpgLockMsg.requeue, hl.1]
  · have hsent : ((({ v with out } : Daemon).deliver now (.msg x m)).cell a.resource).sent =
        (({ v with out } : Daemon).cell a.resource).sent := h.quiet hE hm hout hn now hl
    have hmem : a ∈ out := by
      have := Daemon.mem_cell ha
      rw [hsent] at this
      exact (List.mem_filter.1 this).1
    have hmem' : a ∈ v.out := mem_of_popped hout a hmem
    have hpre := h.cell a.resource
    rw [hafter]
    refine (h.others a hmem' hg hgone).deliver (fun hr => ?_) hm.purge
    -- the entry is this node's and fresh: nobody else grants it or answers for it
    have hw : a ∈ (({ v with out } : Daemon).cell a.resource).rulings :=
      List.mem_filter.2 ⟨List.mem_filter.2 ⟨hmem, by simp [CpgLockMsg.concerns]⟩,
        decide_eq_true (.inl hg)⟩
    obtain ⟨A', B', hAB'⟩ := List.append_of_mem hw
    by_cases ho : m.OfEntry
    · rw [rulings_pop hout ho hr, hAB', ← List.append_assoc] at hpre
      obtain ⟨hnil, -, t, ht, hst, hown⟩ := hpre.handed hg hgone
      have hnotown : x.nodeid ≠ n := by
        intro hx
        rw [if_pos hx] at hnil
        cases hnil
      refine ⟨fun hgr => hnotown ?_, fun hnak => ?_⟩
      · have hacts := hm.acts (.inl hgr)
        rw [hr, ht] at hacts
        exact hacts.unique (.inl hown) (hE.alive _ hm.member) (hE.alive n h.member)
      · refine hm.nak hnak t (hr ▸ ht) ⟨hst, hown ▸ (hE.alive n h.member).1, ?_⟩
        exact fun htop => hn (hown.symm.trans htop)
    · exact ⟨fun hgr => ho (.inl hgr), fun hnak => ho (.inr (.inl hnak))⟩

/-- The head's PURGE of the departed node waits, or has been delivered. -/
theorem View.purge_msg (h : E.View done n v) (hE : E.Ok) (hb : E.base ≤ done.length)
    (hm : E.Msg done x.nodeid m) (hout : v.out = if x.nodeid = n then m :: out else out)
    (hn : n = E.top.nodeid) : (∃ a ∈ out, a.PurgesNode E.gone) ∨
      ∀ k ∈ (E.after (done ++ [.msg x m])).queue, k.nodeid ≠ E.gone := by
  rw [after_append hb]
  have hmem : ∀ {k : RequestKey}, k ∈ ((E.after done).step (.msg x m)).queue →
      k ∈ (E.after done).queue ∨ k.nodeid ≠ E.gone := by
    intro k hk
    simp only [Replica.step, Replica.deliver, CpgLockMsg.requeue] at hk
    split at hk
    · next hl =>
      refine (List.mem_append.1 hk).imp_right fun hk => ?_
      rw [List.mem_singleton.1 hk]
      exact fun hg => (hE.alive _ hm.member).2 ((hm.lock hl).symm.trans hg)
    · exact .inl (List.mem_of_mem_erase hk)
    · exact .inl (List.mem_of_mem_erase hk)
    · exact .inl (List.mem_filter.1 hk).1
    · exact .inl hk
  rcases h.purge hn with ⟨a, ha, hp⟩ | hno
  · by_cases hin : a ∈ out
    · exact .inl ⟨a, hin, hp⟩
    · have ham : a = m := by
        rw [hout] at ha
        split at ha
        · exact (List.mem_cons.1 ha).resolve_right hin
        · exact absurd ha hin
      rw [ham] at hp
      refine .inr fun k hk hg => ?_
      simp only [Replica.step, Replica.deliver, CpgLockMsg.requeue, hp.1] at hk
      exact (mem_purgeKeys.1 hk).2 ⟨hg.trans hp.2.1.symm, .inl hp.2.2⟩
  · exact .inr fun k hk => (hmem hk).elim (hno k) id

theorem View.msg (h : E.View done n v) (hE : E.Ok) (hb : E.base ≤ done.length)
    (hm : E.Msg done x.nodeid m) (hout : v.out = if x.nodeid = n then m :: out else out)
    (now : Nat) : E.View (done ++ [.msg x m]) n (({ v with out } : Daemon).deliver now (.msg x m)) := by
  have hnotjoin : m.request ≠ .join ∧ m.request ≠ .halt := by
    rcases hm.kind with hk | hk | hk | hk | hk <;> rw [hk] <;> simp
  have hg : (({ v with out } : Daemon).deliver now (.msg x m)).toMembership = v.toMembership :=
    (Daemon.deliver_toMembership _ now _).trans
      (Membership.deliver_msg_of_ne hnotjoin.1 hnotjoin.2)
  have hcon : ∀ p, (({ v with out } : Daemon).deliver now (.msg x m)).connected p = v.connected p := by
    intro p
    simp [Daemon.connected, Daemon.findClient, (Daemon.grows_deliver _ now (.msg x m)).clients]
  have hpop : ∀ {p : RequestKey → Prop} {r : Resource}, (v.cell r).All p →
      (({ v with out } : Daemon).cell r).All p := fun hp =>
    Daemon.All.pop hp (mem_of_popped hout)
  have hsends : ∀ r, Cell.Sends r (({ v with out } : Daemon).cell r)
      ((({ v with out } : Daemon).deliver now (.msg x m)).cell r) := fun r =>
    (Daemon.cellStep_deliver _ now x m).sends
  have hold : ∀ {a}, a ∈ (({ v with out } : Daemon).deliver now (.msg x m)).out →
      a.request = .lock ∨ a.request = .purge → a ∈ v.out := fun ha har =>
    mem_of_popped hout _ (Daemon.mem_out_of_sends hsends ha har)
  refine ⟨h.member, ?_, ?_, ?_, h.queue_msg hm hout hE hb now, fun hn => ?_,
    h.cell_msg hE hb hm hout now, fun a ha hgr hgone => h.others_msg hE hb hm hout now ha hgr hgone,
    fun r => (hpop (h.known r)).step (Daemon.cellStep_deliver _ now x m) fun hl => hm.known (.inl hl),
    fun r => ?_, fun k hk hkn hp => ?_, fun a ha => ?_,
    fun a ha hl => h.mine a (hold ha (.inl hl)) hl,
    fun a ha hp => h.purges a (hold ha (.inr hp)) hp⟩
  · rw [hg]
    exact h.me
  · rw [hg]
    exact h.joined
  · rw [hg]
    exact h.members
  · refine (h.purge_msg hE hb hm hout hn).imp_left ?_
    rintro ⟨a, ha, hp⟩
    exact ⟨a, Daemon.mem_out_mono hsends ha, hp⟩
  · refine Cell.All.step (d := ({ v with out } : Daemon)) ((hpop (h.asked r)).mono fun k hk => ?_)
      (Daemon.cellStep_deliver _ now x m) fun hl => .inr (.lock hb hl)
    rw [hcon]
    exact hk.imp_right (·.append hb _)
  · rw [hcon]
    rcases asked_append hb hk with hk | ⟨hl, rfl⟩
    · exact h.live k hk hkn hp
    · -- the LOCK is its own
      have hmem : m ∈ v.out := by
        rw [hout, if_pos ((hm.lock hl).symm.trans hkn)]
        exact List.mem_cons_self
      rcases Cell.All.of_out h.asked hmem (.inl hl) with hk | hk
      · exact hk.2.2
      · exact h.live _ hk hkn hp
  · obtain ⟨l, hl, hent⟩ := hsends a.resource
    have ha' := Daemon.mem_cell ha
    rw [hl] at ha'
    rcases List.mem_append.1 ha' with ha' | ha'
    · exact h.kind a (mem_of_popped hout a (List.mem_filter.1 ha').1)
    · exact .inr (.inr (hent a ha').1)

/-! ## A client -/

theorem View.connect (h : E.View done n v) (fd : Nat) : E.View done n (v.insertClient fd) := by
  have hcon : ∀ p, v.connected p = true → (v.insertClient fd).connected p = true := by
    intro p hp
    obtain ⟨c, hc, hcp⟩ := Daemon.connected_iff.1 hp
    exact Daemon.connected_iff.2 ⟨c, List.mem_append_left _ hc, hcp⟩
  refine ⟨h.member, h.me, h.joined, h.members, h.queue, h.purge, h.cell, h.others, h.known,
    fun r => (h.asked r).mono fun k hk => ?_, fun k hk hkn hp => hcon _ (h.live k hk hkn hp),
    h.kind, h.mine, h.purges⟩
  exact hk.imp_left fun hk => ⟨hk.1, hk.2.1, hcon _ hk.2.2⟩

/-- A client's LOCK waits behind the others. -/
theorem View.recv (h : E.View done n v) {fd : Nat} (hfd : fd ∈ v.clients.map (·.fd))
    (hl : m.request = .lock) (hp : m.ownerPid ≠ 0)
    (hlib : ∀ c ∈ v.clients, c.fd = fd → (m.request = .lock → c.pid = 0 ∨ c.pid = m.ownerPid) ∧
      (m.request = .dump → c.pid = 0)) (hn : n ≠ 0) :
    E.View done n (v.clientActivityCb fd m) := by
  have hstay : ∀ p, p ≠ 0 → v.connected p = true → (v.clientActivityCb fd m).connected p = true := by
    intro p hp hc
    by_contra hno
    have := (Daemon.connected_recv hp hfd hlib (Bool.eq_false_iff.2 hno)).1
    rw [hc] at this
    cases this
  have hown : (v.clientActivityCb fd m).connected m.ownerPid = true := by
    by_contra hno
    exact (Daemon.connected_recv hp hfd hlib (Bool.eq_false_iff.2 hno)).2 hl rfl
  have hv : v.clientActivityCb fd m = (v.setClientPid fd m.ownerPid).sendLock m := by
    simp only [Daemon.clientActivityCb, hl]
  have hout : (v.clientActivityCb fd m).out = v.out ++ [{ m with ownerNodeid := n }] := by
    rw [hv, ← h.me]
    rfl
  have hcell : ∀ r, (v.clientActivityCb fd m).cell r =
      if m.resource = r then (v.cell r).send { m with ownerNodeid := n } else v.cell r := by
    intro r
    rw [Daemon.cell_clientActivityCb, h.me]
    simp [hl]
  have hall : ∀ {p : RequestKey → Prop} {r : Resource}, (v.cell r).All p →
      p { m with ownerNodeid := n }.key → ((v.clientActivityCb fd m).cell r).All p := by
    intro p r hp hk
    rw [hcell]
    split
    · exact hp.send fun _ => hk
    · exact hp
  have hcases : ∀ {a}, a ∈ (v.clientActivityCb fd m).out →
      a ∈ v.out ∨ a = { m with ownerNodeid := n } := by
    intro a ha
    rw [hout] at ha
    exact (List.mem_append.1 ha).imp_right List.mem_singleton.1
  refine ⟨h.member, ?_, ?_, ?_, ?_, fun htop => ?_, fun r => ?_, fun a ha hg => ?_,
    fun r => hall (h.known r) ⟨⟨hp, hn⟩, .inl h.member⟩,
    fun r => hall ((h.asked r).mono fun k hk => hk.imp_left fun hk =>
      ⟨hk.1, hk.2.1, hstay _ hk.2.1 hk.2.2⟩) (.inl ⟨rfl, hp, hown⟩),
    fun k hk hkn hkp => hstay _ hkp (h.live k hk hkn hkp), fun a ha => ?_, fun a ha hal => ?_,
    fun a ha hap => ?_⟩
  · rw [hv]
    exact h.me
  · rw [hv]
    exact h.joined
  · rw [hv]
    exact h.members
  · rw [Daemon.keys_clientActivityCb]
    exact h.queue
  · refine (h.purge htop).imp_left ?_
    rintro ⟨a, ha, hp⟩
    refine ⟨a, ?_, hp⟩
    rw [hout]
    exact List.mem_append_left _ ha
  · have hrul : ((v.clientActivityCb fd m).cell r).rulings = (v.cell r).rulings := by
      rw [hcell]
      split
      · simp [Cell.rulings, Cell.send, CpgLockMsg.OfEntry, hl]
      · rfl
    have hsame : Rejoins E.top E.gone n r ((E.after done).lock r) ((v.clientActivityCb fd m).cell r)
        (v.cell r).rulings := by
      rw [hcell]
      split
      · exact h.cell r
      · exact h.cell r
    rw [hrul]
    exact hsame
  · rcases hcases ha with ha | rfl
    · exact h.others a ha hg
    · exact absurd (hl.symm.trans hg) (by simp)
  · rcases hcases ha with ha | rfl
    · exact h.kind a ha
    · exact .inl hl
  · rcases hcases ha with ha | rfl
    · exact h.mine a ha hal
    · rfl
  · rcases hcases ha with ha | rfl
    · exact h.purges a ha hap
    · exact absurd (hl.symm.trans hap) (by simp)

end

end Leave

/-! ## Runs -/

/-- Clients connect and send LOCKs, and nothing else happens from outside. -/
def Sys.OnlyLocks (s : Sys) : Act → Prop
  | .order _ => True
  | .deliver _ => True
  | .connect _ _ => True
  | .recv n fd m => m.request = .lock ∧ s.LibClient (.recv n fd m)
  | _ => False

instance (s : Sys) (a : Act) : Decidable (s.OnlyLocks a) := by
  refine a.casesOn ?_ ?_ ?_ ?_ ?_ ?_ <;>
    intros <;> dsimp only [Sys.OnlyLocks, Sys.LibClient] <;> infer_instance

namespace Leave

variable {E : Leave}

/-- What holds of the system after the leave. -/
structure Inv (E : Leave) (s : Sys) : Prop where
  bounded : s.Bounded
  base : ∀ n nd, s.nodes n = some nd → E.base ≤ nd.pos
  head : ∃ nd, s.nodes E.top.nodeid = some nd
  log : E.Log s.log
  views : s.Views E.View

theorem View.step {s : Sys} {n : UInt32} {nd : Node} {a : Act} {v : Daemon} {pos : Nat} (hE : E.Ok)
    (hlog : E.Log s.log) (hn : s.nodes n = some nd) (hb : E.base ≤ nd.pos)
    (hle : nd.pos ≤ s.log.length) (ha : s.OnlyLocks a)
    (hs : ViewStep s.log n (nd.view s.log n) nd.pos a v pos)
    (h : E.View (s.log.take nd.pos) n (nd.view s.log n)) :
    E.base ≤ pos ∧ E.View (s.log.take pos) n v := by
  have hlen : E.base ≤ (s.log.take nd.pos).length := by rw [List.length_take]; omega
  generalize hpos : nd.pos = p at *
  cases hs with
  | @msg x m out he hout =>
    obtain ⟨y, m', heq, hm⟩ := hlog _ _ hb he
    obtain ⟨rfl, rfl⟩ := Event.msg.inj heq
    rw [List.take_add_one, he]
    exact ⟨Nat.le_succ_of_le hb, h.msg hE hlen hm hout _⟩
  | change he =>
    obtain ⟨y, m, heq, -⟩ := hlog _ _ hb he
    cases heq
  | connect _ => exact ⟨hb, h.connect _⟩
  | @recv fd m hfd =>
    obtain ⟨hl, hp, hlib⟩ := ha
    exact ⟨hb, h.recv hfd hl (hp hl) (hlib nd hn) (hE.alive n h.member).1⟩
  | close _ => exact ha.elim

theorem Inv.step {s s' : Sys} {a : Act} (h : E.Inv s) (hE : E.Ok) (ha : s.OnlyLocks a)
    (hs : s.step a = some s') : E.Inv s' := by
  have hviews : s'.Bounded ∧ s'.Views fun done n v => E.base ≤ done.length ∧ E.View done n v := by
    refine Sys.view_step (I := fun done n v => E.base ≤ done.length ∧ E.View done n v) hs
      h.bounded ?_ ?_ ?_
    · rintro members left join boot rfl
      exact ha.elim
    · intro n nd v pos hn _ hvs hi
      have hle := h.bounded n nd hn
      have hb := h.base n nd hn
      obtain ⟨hb', hv⟩ := View.step hE h.log hn hb hle ha hvs hi.2
      refine ⟨?_, hv⟩
      rw [List.length_take]
      omega
    · intro n nd hn
      have hle := h.bounded n nd hn
      have hb := h.base n nd hn
      refine ⟨?_, h.views n nd hn⟩
      rw [List.length_take]
      omega
  have hset : ∀ n nd, ∃ nd', s.setNode n nd E.top.nodeid = some nd' := by
    intro n nd
    by_cases hk : E.top.nodeid = n
    · exact ⟨nd, hk ▸ s.setNode_self _ nd⟩
    · rw [s.setNode_of_ne nd hk]
      exact h.head
  refine ⟨hviews.1, fun n nd hn => ?_, ?_, ?_, fun n nd hn => (hviews.2 n nd hn).2⟩
  · have := (hviews.2 n nd hn).1
    rw [List.length_take] at this
    omega
  · obtain ⟨members, left, join, boot, rfl, -, -⟩ | ⟨n, nd, m, out, -, -, -, rfl⟩ |
      ⟨n, nd, d, pos, cause, seen, -, -, -, rfl⟩ := Sys.step_cases hs
    · exact ha.elim
    · exact hset n _
    · exact hset n _
  · obtain ⟨members, left, join, boot, rfl, -, -⟩ | ⟨n, nd, m, out, rfl, hn, hout, rfl⟩ |
      ⟨n, nd, d, pos, cause, seen, -, -, -, rfl⟩ := Sys.step_cases hs
    · exact ha.elim
    · exact h.log.append (y := ⟨n, nd.d.myPid⟩) ((h.views n nd hn).order hE h.log hout
        (h.base n nd hn) (h.bounded n nd hn))
    · exact h.log

theorem Inv.run {P : Sys → Act → Prop} (hP : ∀ s a, P s a → s.OnlyLocks a) {s s' : Sys}
    (hE : E.Ok) (h : E.Inv s) (hr : Runs P s s') : E.Inv s' :=
  hr.invariant h fun hi hp hs => hi.step hE (hP _ _ hp) hs

section

variable {done : List Event} {n : UInt32} {v : Daemon}

/-- A survivor that waits for nothing has the entries that the order determines. -/
theorem View.settled (h : E.View done n v) (hout : v.out = []) (r : Resource) :
    Pending (v.cell r).waiting ∧ ((E.after done).lock r = none ∧ v.locks.get r = none ∨
      ∃ t l, (E.after done).lock r = some t ∧ v.locks.get r = some l ∧ l.shared = t.shared ∧
        (n = E.top.nodeid → t.ownerNodeid ≠ E.gone)) := by
  have hcell := h.cell r
  rw [show (v.cell r).rulings = [] by simp [Cell.rulings, Daemon.cell, hout]] at hcell
  cases ht : (E.after done).lock r with
  | none =>
    rw [ht] at hcell
    exact ⟨hcell.2.2, .inl ⟨rfl, hcell.1⟩⟩
  | some t =>
    rw [ht] at hcell
    obtain ⟨l, hl, hphase⟩ := hcell
    cases hphase with
    | idle hs _ hg _ _ hw => exact ⟨hw, .inr ⟨t, l, rfl, hl, hs, hg⟩⟩

/-- A survivor that waits for nothing has the tables that the order determines. -/
theorem View.tables (h : E.View done n v) (hout : v.out = []) :
    v.keys = (E.after done).queue ∧ Pending v.requests ∧
      ∀ r, (v.locks.get r).map CpgLock.shared = ((E.after done).lock r).map CpgLock.shared := by
  refine ⟨?_, fun q hq => ?_, fun r => ?_⟩
  · rw [h.queue]
    split
    · next hn =>
      rcases h.purge hn with ⟨m, hm, -⟩ | hno
      · rw [hout] at hm
        cases hm
      · exact List.filter_eq_self.2 fun k hk => decide_eq_true (hno k hk)
    · rfl
  · exact (h.settled hout q.resource).1 q (List.mem_filter.2 ⟨hq, by simp⟩)
  · rcases (h.settled hout r).2 with ⟨ht, hl⟩ | ⟨t, l, ht, hl, hs, -⟩
    · rw [ht, hl]
    · rw [ht, hl, Option.map_some, Option.map_some, hs]

end

end Leave

end Cpglock
