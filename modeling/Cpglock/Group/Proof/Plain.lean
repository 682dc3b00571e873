import Cpglock.Daemon.Proof.Owner
import Cpglock.Group.Proof.Rule

/-!
# Tables and messages of a run whose clients have pids

The client library sends its own pid, which is not 0. Then no queued request, LOCK, GRANT or NAK has the
pid 0 or the node id 0 (`Plain.real`), and a daemon that has not joined has no lock table
(`Plain.empty`).
-/

namespace Cpglock

/-- The client's process has a pid. -/
def Act.HasPid : Act → Prop
  | .recv _ _ m => m.request = .lock → m.ownerPid ≠ 0
  | _ => True

/-- The identity of a process. -/
def RequestKey.Real (k : RequestKey) : Prop := k.pid ≠ 0 ∧ k.nodeid ≠ 0

/-- What a daemon's tables and waiting messages are like. -/
structure Plain (n : UInt32) (v : Daemon) : Prop where
  me : v.myNodeId = n
  pos : n ≠ 0
  real : ∀ r, (v.cell r).All RequestKey.Real
  empty : v.joined = false → ∀ r, (v.cell r).lock = none

/-- Every LOCK, GRANT and NAK in the order is a process's. -/
def RealMsg (_ : List Event) (_ : UInt32) (m : CpgLockMsg) : Prop :=
  m.request = .lock ∨ m.request = .grant ∨ m.request = .nak → m.key.Real

/-! ## Steps -/

theorem Membership.deliver_joined_mono {g : Membership} (e : Event) (h : g.joined = true) :
    (g.deliver e).joined = true := by
  cases e with
  | confchg members left join => exact (configChange_joined ..).trans h
  | msg s m =>
    by_cases hj : m.request = .join
    · simp only [deliver, hj]
      exact (processJoin_joined ..).2 (.inl h)
    · by_cases hh : m.request = .halt
      · simpa only [deliver, hh] using h
      · rwa [deliver_msg_of_ne hj hh]

theorem Membership.joined_of_deliver {g : Membership} {e : Event}
    (h : (g.deliver e).joined = false) : g.joined = false := by
  cases hj : g.joined with
  | false => rfl
  | true => rw [deliver_joined_mono e hj] at h; cases h

@[simp] theorem Daemon.joined_deliver (d : Daemon) (now : Nat) (e : Event) :
    (d.deliver now e).joined = (d.toMembership.deliver e).joined :=
  congrArg Membership.joined (deliver_toMembership d now e)

@[simp] theorem Daemon.myNodeId_deliver (d : Daemon) (now : Nat) (e : Event) :
    (d.deliver now e).myNodeId = d.myNodeId :=
  (congrArg Membership.myNodeId (deliver_toMembership d now e)).trans (Membership.deliver_myNodeId ..)

/-- Taking the first message off leaves the tables alone. -/
theorem Daemon.All.pop {d : Daemon} {out : List CpgLockMsg} {p : RequestKey → Prop} {r : Resource}
    (h : (d.cell r).All p) (ho : ∀ m ∈ out, m ∈ d.out) :
    (({ d with out } : Daemon).cell r).All p := by
  refine ⟨h.waiting, fun m hm => h.sent m ?_⟩
  obtain ⟨hm, hc⟩ := List.mem_filter.1 hm
  exact List.mem_filter.2 ⟨ho m hm, hc⟩

/-- An own message was waiting. -/
theorem mem_of_popped {n : UInt32} {x : MemberItem} {m : CpgLockMsg} {out l : List CpgLockMsg}
    (h : l = if x.nodeid = n then m :: out else out) : ∀ m' ∈ out, m' ∈ l := by
  intro m' hm'
  rw [h]
  split
  · exact List.mem_cons_of_mem _ hm'
  · exact hm'

theorem Cell.All.clientActivityCb {d : Daemon} {r : Resource} {p : RequestKey → Prop} {fd : Nat}
    {m : CpgLockMsg} (h : (d.cell r).All p)
    (hm : m.request = .lock → p { m with ownerNodeid := d.myNodeId }.key) :
    ((d.clientActivityCb fd m).cell r).All p := by
  rw [Daemon.cell_clientActivityCb]
  split
  · next hl => exact h.send fun _ => hm hl.1
  · split
    · cases d.findLockById m with
      | none => exact h
      | some m' =>
        show Cell.All p (if m'.resource = r then _ else _)
        split
        · exact h.grantNextOrUnlock m'
        · exact h
    · exact h

theorem Cell.All.delClient {d : Daemon} {r : Resource} {p : RequestKey → Prop} {fd : Nat}
    (h : (d.cell r).All p) : ((d.delClient fd).cell r).All p := by
  rw [Daemon.cell_delClient]
  split
  · exact h
  · exact h.recoverClient _ _

theorem Cell.All.configChange {d : Daemon} {r : Resource} {p : RequestKey → Prop}
    {members left join : List MemberItem} (h : (d.cell r).All p) :
    ((d.cpgConfigChange members left join).cell r).All p :=
  Daemon.cell_configChange_induction (I := fun _ c => c.All p) h (fun _ _ h => h)
    (fun _ _ _ h => h) fun _ _ _ h _ _ _ => h.delNode _ _ _ _

/-- A configuration change creates and removes no entry. -/
theorem Daemon.cpgConfigChange_lock_none {d : Daemon} {r : Resource}
    {members left join : List MemberItem} (h : (d.cell r).lock = none) :
    ((d.cpgConfigChange members left join).cell r).lock = none := by
  refine cell_configChange_induction (I := fun _ c => c.lock = none) h (fun _ _ h => h)
    (fun _ _ _ h => h) fun g c x hc _ _ _ => ?_
  rw [← Cell.owner_eq_none] at hc ⊢
  rcases Cell.delNode_owner (r := r) c g.myNodeId g.myPid x.nodeid
    ((g.groupMembers.erase x).head?.getD d.stray) with h | ⟨h, -⟩
  · exact h.trans hc
  · rw [hc] at h
    cases h

theorem Plain.start {x : MemberItem} (b : Boot) (hx : x.nodeid ≠ 0) :
    Plain x.nodeid (.start x b) where
  me := rfl
  pos := hx
  real r := by
    refine ⟨by simp [Daemon.cell, Daemon.start, Daemon.sendJoin, Daemon.sendLockMsg],
      fun m hm hr => ?_⟩
    have hm := (List.mem_filter.1 hm).1
    simp only [Daemon.start, Daemon.sendJoin, Daemon.sendLockMsg, List.nil_append,
      List.mem_singleton] at hm
    rw [hm] at hr
    simp [CpgLockMsg.blank] at hr
  empty _ _ := rfl

theorem Plain.step {log : List Event} {n : UInt32} {v v' : Daemon} {pos pos' : Nat} {a : Act}
    (h : Plain n v) (hlog : Ordered RealMsg log) (ha : a.HasPid)
    (hs : ViewStep log n v pos a v' pos') : Plain n v' := by
  cases hs with
  | @msg x m out he hout =>
    have hreal : ∀ r, (({ v with out } : Daemon).cell r).All RequestKey.Real :=
      fun r => Daemon.All.pop (h.real r) (mem_of_popped hout)
    refine ⟨by simpa using h.me, h.pos, fun r => ?_, fun hj r => ?_⟩
    · exact (hreal r).step (Daemon.cellStep_deliver _ pos x m) fun hm => hlog pos x m he (.inl hm)
    · rw [Daemon.joined_deliver] at hj
      have hj := Membership.joined_of_deliver hj
      have hjo : ({ v with out } : Daemon).joined = false := hj
      have hl := h.empty hj r
      rw [← Cell.owner_eq_none] at hl ⊢
      rcases (Daemon.cellStep_deliver _ pos x m).owner fun hm => hlog pos x m he (.inr (.inl hm)) with
        ⟨h', -⟩ | ⟨hjt, -⟩ | ⟨hjt, -⟩
      · exact h'.trans hl
      · exact absurd (hjo.symm.trans hjt) (by decide)
      · exact absurd (hjo.symm.trans hjt) (by decide)
  | @change members left join he =>
    refine ⟨by simpa using h.me, h.pos, fun r => (h.real r).configChange, fun hj r => ?_⟩
    rw [Daemon.joined_deliver] at hj
    exact Daemon.cpgConfigChange_lock_none (h.empty (Membership.joined_of_deliver hj) r)
  | connect hfd => exact ⟨h.me, h.pos, h.real, h.empty⟩
  | @recv fd m hfd =>
    have hm := (Daemon.clientActivityCb_out v fd m).1
    refine ⟨(congrArg Membership.myNodeId hm).trans h.me, h.pos, fun r => ?_, fun hj r => ?_⟩
    · refine (h.real r).clientActivityCb fun hl => ⟨ha hl, ?_⟩
      exact fun h0 => h.pos (h.me.symm.trans h0)
    · rw [← Cell.owner_eq_none, Daemon.owner_clientActivityCb, Cell.owner_eq_none]
      exact h.empty ((congrArg Membership.joined hm).symm.trans hj) r
  | @close fd hfd =>
    have hm := (Daemon.frame_delClient v fd).membership
    refine ⟨(congrArg Membership.myNodeId hm).trans h.me, h.pos, fun r => (h.real r).delClient,
      fun hj r => ?_⟩
    rw [← Cell.owner_eq_none, Daemon.owner_delClient, Cell.owner_eq_none]
    exact h.empty ((congrArg Membership.joined hm).symm.trans hj) r

/-- The first waiting message of a daemon waits in the view. -/
theorem Node.mem_view {log : List Event} {n : UInt32} {nd : Node} {m : CpgLockMsg}
    {out : List CpgLockMsg} (h : nd.d.out = m :: out) : m ∈ (nd.view log n).out := by
  rw [Node.view, Daemon.behind_out, h]
  exact List.mem_append_right _ List.mem_cons_self

/-- A property of identities that a daemon's cells have, its LOCKs, GRANTs and NAKs have. -/
theorem Cell.All.of_out {d : Daemon} {p : RequestKey → Prop} (h : ∀ r, (d.cell r).All p)
    {m : CpgLockMsg} (hm : m ∈ d.out) (hr : m.request = .lock ∨ m.request = .grant ∨ m.request = .nak) : p m.key :=
  (h m.resource).sent m (List.mem_filter.2 ⟨hm, by simp [CpgLockMsg.concerns]⟩) hr

theorem Runs.plain {P : Sys → Act → Prop} (hP : ∀ s a, P s a → a.HasPid) {s : Sys}
    (h : Runs P .init s) :
    Ordered RealMsg s.log ∧ ∀ n nd, s.nodes n = some nd → Plain n (nd.view s.log n) := by
  refine (h.rule (L := RealMsg) (I := fun _ => Plain) Sys.sound_init (by intro k x m h; simp [Sys.init] at h)
    (by intro n nd h; cases h) ?_ ?_ ?_).2
  · exact fun _ _ _ _ _ _ _ _ _ _ b _ hx => .start b hx
  · exact fun s n nd m out _ _ _ _ hv hn hout hm =>
      Cell.All.of_out (hv n nd hn).real (Node.mem_view hout) hm
  · exact fun s a n nd v pos _ _ hp hlog hv hn _ hs => (hv n nd hn).step hlog (hP s a hp) hs

end Cpglock
