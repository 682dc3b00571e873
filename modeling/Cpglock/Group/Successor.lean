import Cpglock.Daemon.Proof.Cell
import Cpglock.Group.OldestHost
import Cpglock.Group.Proof.Ranked

/-!
# The survivors' choice of a successor

Members that were there order their list by the JOINs, a new one copies the array it is handed.
Where every such array has the joined members in the order of their JOINs, all joined daemons have
the same list once everybody has joined, and hand the locks of a node that leaves to the same process
(`same_successor`). An array in another order leaves the new daemon with another oldest node
(`other_successor`).
-/

namespace Cpglock

/-- Members enter and leave one at a time. -/
def Sys.OneByOne : Act → Prop
  | .confchg _ left join _ => left.length + join.length = 1
  | _ => True

/-- A daemon that enters is handed an array in which the joined members stand in the order of their
JOINs. -/
def Sys.InOrder (s : Sys) : Act → Prop
  | .confchg members _ join _ => ∀ x ∈ join,
    (members x.nodeid).filter (fun y => y ∈ seniority s.log) = seniority s.log
  | _ => True

instance (a : Act) : Decidable (Sys.OneByOne a) := by
  refine a.casesOn ?_ ?_ ?_ ?_ ?_ ?_ <;> intros <;> dsimp only [Sys.OneByOne] <;> infer_instance

instance (s : Sys) (a : Act) : Decidable (s.InOrder a) := by
  refine a.casesOn ?_ ?_ ?_ ?_ ?_ ?_ <;> intros <;> dsimp only [Sys.InOrder] <;> infer_instance

/-- The daemon with a member unlinked, as `del_node` finds it. -/
def Daemon.unlinkMember (d : Daemon) (x : MemberItem) : Daemon :=
  { d with groupMembers := d.groupMembers.erase x }

/-- The process that `del_node` hands a departed node's locks to. -/
def Daemon.heir (d : Daemon) : MemberItem :=
  if d.getOldestNode.nodeid ≠ d.myNodeId then d.getOldestNode else ⟨d.myNodeId, d.myPid⟩

theorem Cell.grantNextElse_lock (r : Resource) (c : Cell) (k : Cell → Cell) :
    (c.grantNextElse r k).lock = c.lock ∨ (c.grantNextElse r k).lock = (k c).lock :=
  grantNextElse_induction (I := fun c' => c'.lock = c.lock ∨ c'.lock = (k c).lock)
    (fun _ h => .inl (grantNext_lock h)) fun _ => .inr rfl

theorem Cell.recoverNode_owner {r : Resource} {c : Cell} {me myPid nodeid : UInt32} {l l' : CpgLock}
    (hc : c.lock = some l) (h : (c.recoverNode r me myPid nodeid).lock = some l') :
    l'.ownerNodeid = l.ownerNodeid ∧ l'.ownerPid = l.ownerPid ∨
      l'.ownerNodeid = me ∧ l'.ownerPid = myPid := by
  simp only [Cell.recoverNode, Cell.send_lock, Cell.purge_lock, hc] at h
  split at h
  · -- a HELD lock is freed, and taken if nobody waits for it
    rcases Cell.grantNextElse_lock r _ _ with he | he <;> rw [he] at h
    · simp only [Cell.setState_lock, Cell.send_lock, Cell.purge_lock, hc, Option.map_some] at h
      obtain rfl := Option.some.inj h
      exact .inl ⟨rfl, rfl⟩
    · simp only [Cell.take, Cell.send_lock, Cell.set_lock, Cell.setState_lock, Cell.purge_lock, hc,
        Option.map_some] at h
      obtain rfl := Option.some.inj h
      exact .inr ⟨rfl, rfl⟩
  · split at h
    · rcases Cell.grantNextElse_lock r _ _ with he | he <;> rw [he] at h
      · obtain rfl := Option.some.inj (hc.symm.trans h)
        exact .inl ⟨rfl, rfl⟩
      · simp only [Cell.take, Cell.set_lock, Cell.send_lock, Cell.purge_lock, hc,
          Option.map_some] at h
        obtain rfl := Option.some.inj h
        exact .inr ⟨rfl, rfl⟩
    · obtain rfl := Option.some.inj (hc.symm.trans h)
      exact .inl ⟨rfl, rfl⟩

/-- `del_node` makes nobody else an owner. -/
theorem Daemon.delNode_heir (d : Daemon) (nodeid : UInt32) {r : Resource} {l l' : CpgLock}
    (hl : d.locks.get r = some l) (hl' : (d.delNode nodeid).locks.get r = some l') :
    l'.ownerNodeid = l.ownerNodeid ∧ l'.ownerPid = l.ownerPid ∨
      l'.ownerNodeid = d.heir.nodeid ∧ l'.ownerPid = d.heir.pid := by
  have hc : (d.cell r).lock = some l := hl
  have h : ((d.cell r).delNode r d.myNodeId d.myPid d.getOldestNode nodeid).lock = some l' := by
    rw [← Daemon.cell_delNode]
    exact hl'
  unfold Cell.delNode at h
  split at h
  · next hne =>
    rw [show d.heir = d.getOldestNode from if_pos hne]
    simp only [Cell.reassign, hc] at h
    split at h
    · rw [Cell.set_lock, hc] at h
      obtain rfl := Option.some.inj h
      exact .inr ⟨rfl, rfl⟩
    · obtain rfl := Option.some.inj (hc.symm.trans h)
      exact .inl ⟨rfl, rfl⟩
  · next hme =>
    rw [show d.heir = ⟨d.myNodeId, d.myPid⟩ from if_neg hme]
    exact Cell.recoverNode_owner hc h

/-! ## Runs -/

/-- The group lists every node once. -/
theorem Sys.groupAfter_nodup (s : Sys) {members : UInt32 → List MemberItem}
    {left join : List MemberItem} (h : (s.group.map (·.nodeid)).Nodup)
    (hok : s.ConfOk members left join) : ((s.groupAfter left join).map (·.nodeid)).Nodup := by
  obtain ⟨-, -, hnj, hjoin, -⟩ := hok
  rw [Sys.groupAfter, List.map_append, List.nodup_append]
  refine ⟨h.sublist (List.filter_sublist.map _), hnj, ?_⟩
  rintro _ ha _ hb rfl
  obtain ⟨y, hy, hya⟩ := List.mem_map.1 ha
  obtain ⟨x, hx, hxb⟩ := List.mem_map.1 hb
  exact (hjoin x hx).2 y (List.mem_filter.1 hy).1 (hya.trans hxb.symm)

/-- The events of a run that keeps the promises. -/
theorem Sys.Sound.orderly {s : Sys} {members : UInt32 → List MemberItem} {left join : List MemberItem}
    {boot : UInt32 → Boot} (hs : s.Sound) (hr : s.Running) (hg : (s.group.map (·.nodeid)).Nodup)
    (hok : s.ConfOk members left join)
    (h1 : left.length + join.length = 1) (ho : s.InOrder (.confchg members left join boot)) :
    (Ledger.of s.log).Orderly (seniority s.log) (.confchg members left join) := by
  have hlive : ∀ y, y ∈ s.group ↔ (Ledger.of s.log).Live y := by
    intro y
    rw [hs.group]
    have hv := hs.views y.nodeid
    constructor
    · rintro ⟨nd, hn, hp⟩
      rw [hn, Option.isSome_some, Option.isSome_iff_exists] at hv
      obtain ⟨g, hg⟩ := hv
      exact ⟨g, hg, (hr.pid _ nd g hn hg).trans hp⟩
    · rintro ⟨g, hg, hp⟩
      rw [hg, Option.isSome_some] at hv
      obtain ⟨nd, hn⟩ := Option.isSome_iff_exists.1 hv.symm
      exact ⟨nd, hn, (hr.pid _ nd g hn hg).symm.trans hp⟩
  obtain ⟨hnd, hleft, hnj, hjoin, hmem⟩ := id hok
  rcases left with - | ⟨x, left⟩
  · obtain ⟨x, rfl⟩ := List.length_eq_one_iff.1 (by simpa using h1)
    have hperm := hmem x (by simp [Sys.groupAfter])
    have hgroup : s.groupAfter [] [x] = s.group ++ [x] := by simp [Sys.groupAfter]
    rw [hgroup] at hperm
    refine .enter ?_ ?_ (fun y => ?_) (ho x (by simp))
    · have := hs.views x.nodeid
      rw [hs.nodes_join hok (List.mem_singleton.2 rfl)] at this
      simpa using this
    · rw [(hperm.map _).nodup_iff]
      have := s.groupAfter_nodup hg hok
      rwa [hgroup] at this
    · rw [hperm.mem_iff, List.mem_append, List.mem_singleton, hlive, or_comm]
  · obtain ⟨rfl, rfl⟩ : left = [] ∧ join = [] := by
      simp only [List.length_cons] at h1
      exact ⟨List.length_eq_zero_iff.1 (by omega), List.length_eq_zero_iff.1 (by omega)⟩
    exact .leave ((hlive x).1 (hleft x (by simp)))

/-- A joined daemon's heir is the first member that stays. -/
theorem Ledger.Ranked.heir {G : Ledger} {J : List MemberItem} (h : G.Ranked J) (hi : G.Inv)
    {d : Daemon} {n : UInt32} (hv : G.views n = some d.toMembership) (hj : d.joined = true)
    {x : MemberItem} (hx : x.nodeid ≠ n) :
    (d.groupMembers.erase x).head? = some (d.unlinkMember x).heir := by
  have hme := h.me n _ hv
  have hown : ∀ y ∈ d.groupMembers, y.nodeid = n → y = ⟨d.myNodeId, d.myPid⟩ := by
    intro y hy he
    refine Live.unique (h.listed n _ hv y hy) ⟨_, ?_, rfl⟩ (he.trans hme.symm)
    rw [← hv]
    exact congrArg _ hme
  obtain ⟨y, hy, hyn⟩ := List.mem_map.1 ((hi.self n _ hv).2.2 hj)
  have hye : y ∈ d.groupMembers.erase x :=
    (List.mem_erase_of_ne fun he => hx ((congrArg _ he.symm).trans hyn)).2 hy
  cases hl : d.groupMembers.erase x with
  | nil => rw [hl] at hye; cases hye
  | cons o l =>
    have ho : o ∈ d.groupMembers := List.mem_of_mem_erase (hl ▸ List.mem_cons_self)
    have hold : (d.unlinkMember x).getOldestNode = o := by
      simp [Daemon.getOldestNode, Daemon.unlinkMember, hl]
    rw [List.head?_cons, Daemon.heir, hold]
    split
    · rfl
    · next hom => exact congrArg some (hown o ho ((not_not.1 hom).trans hme))

/-- What holds along such a run. -/
structure Sys.Aligned (s : Sys) : Prop where
  group : (s.group.map (·.nodeid)).Nodup
  ranked : ∀ k, k ≤ s.log.length → (Ledger.of (s.log.take k)).Ranked (seniority (s.log.take k))

theorem Sys.Aligned.append {s : Sys} (h : s.Aligned) (hw : WellOrdered s.log) {e : Event}
    (he : (Ledger.of s.log).Orderly (seniority s.log) e) :
    ∀ k, k ≤ (s.log ++ [e]).length →
      (Ledger.of ((s.log ++ [e]).take k)).Ranked (seniority ((s.log ++ [e]).take k)) := by
  intro k hk
  simp only [List.length_append, List.length_singleton] at hk
  by_cases hle : k ≤ s.log.length
  · rw [List.take_append_of_le_length hle]
    exact h.ranked k hle
  · rw [List.take_of_length_le (by simp; omega), Ledger.of_append, seniority_append]
    have hr := h.ranked s.log.length le_rfl
    rw [List.take_length] at hr
    exact hr.step hw.inv_all he

section

variable {P : Sys → Act → Prop} (hP : ∀ s a, P s a → Sys.OneByOne a ∧ s.InOrder a)
include hP

theorem Runs.aligned {s : Sys} (h : Runs P .init s) : s.Aligned := by
  refine h.invariant_of (J := fun s => s.Sound ∧ s.Running)
    (fun h => ⟨Runs.sound h, Runs.running h⟩) ⟨by simp [Sys.init], fun k _ => ?_⟩
    fun {s s' a} hj _ hi hp hstep => ?_
  · have : Sys.init.log.take k = [] := by simp [Sys.init]
    rw [this]
    exact Ledger.ranked_init
  · obtain ⟨hs, hr⟩ := hj
    obtain ⟨members, left, join, boot, rfl, hok, rfl⟩ | ⟨n, nd, m, out, rfl, hn, hout, rfl⟩ |
      ⟨n, nd, d, pos, cause, seen, -, -, -, rfl⟩ := Sys.step_cases hstep
    · obtain ⟨h1, ho⟩ := hP _ _ hp
      exact ⟨s.groupAfter_nodup hi.group hok,
        hi.append hs.ordered (hs.orderly hr hi.group hok h1 ho)⟩
    · refine ⟨hi.group, hi.append hs.ordered (.msg ((hr.stopped n nd hn).2 m (by simp [hout]))
        fun hj => ?_)⟩
      have hev := (hs.orderNext hn hout).ordered s.log.length (.msg ⟨n, nd.d.myPid⟩ m)
        (by simp [Sys.orderNext])
      simp only [Sys.orderNext, List.take_left] at hev
      obtain ⟨g, hg, hnew⟩ := hev hj
      exact ⟨g, hg, hnew, hr.pid n nd g hn hg⟩
    · exact ⟨hi.group, hi.ranked⟩

end

/-- Three daemons enter one by one and join; the array of the last one lists the second first. -/
def threeDaemons (array : List MemberItem) : List Act :=
  let z : MemberItem := ⟨3, 30⟩
  twoDaemons ++ [.confchg (fun _ => array) [] [z] fun _ => ⟨⟨0, 0⟩, 0⟩, .order 3,
    .deliver 3, .deliver 3, .deliver 1, .deliver 1, .deliver 2, .deliver 2]

theorem Sys.Sound.formed {s : Sys} (h : s.Sound)
    (hg : ∀ x ∈ s.group, (Ledger.of s.log).Joined x.nodeid) : (Ledger.of s.log).Formed := by
  intro n hn
  rw [h.views, Option.isSome_iff_exists] at hn
  obtain ⟨nd, hn⟩ := hn
  exact hg ⟨n, nd.d.myPid⟩ ((h.group _).2 ⟨nd, hn, rfl⟩)

end Cpglock
