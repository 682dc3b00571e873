import Mathlib
import Cpglock.Daemon.Proof.Frame
import Cpglock.Daemon.Proof.MemberList

/-!
# The member list as a set

The list of a daemon starts as the other members, each once, and no later event lists a node twice,
if and only if the daemon is the only one that its first configuration change announces
(`member_set_iff`). The loop over the joiners that should leave them out copies a member once for
every joiner but itself. After an exact start `Membership.Distinct` is kept: every node is listed
once, and `total_members` stays above the length of the list, so the list is not set up again.
-/

namespace Cpglock

namespace Membership

/-- Every node is listed once, and the counter exceeds the number of listed nodes. -/
structure Distinct (g : Membership) : Prop where
  nodup : g.ids.Nodup
  counted : (g.groupMembers.length : Int) < g.totalMembers

/-- No node is listed twice, so that unlinking an entry removes its node. -/
def OnceEach (g : Membership) : Prop :=
  g.ids.Nodup ∧ ∀ x ∈ g.groupMembers, x.nodeid ∉ (g.groupMembers.erase x).map (·.nodeid)

theorem not_mem_ids_erase {l : List MemberItem} (h : (l.map (·.nodeid)).Nodup) {x : MemberItem}
    (hx : x ∈ l) : x.nodeid ∉ (l.erase x).map (·.nodeid) := by
  intro hm
  obtain ⟨y, hy, hyx⟩ := List.mem_map.1 hm
  have hyl : y ∈ l := List.mem_of_mem_erase hy
  obtain rfl := List.inj_on_of_nodup_map h hyl hx hyx
  exact (List.Nodup.not_mem_erase (List.Nodup.of_map _ h)) hy

theorem Distinct.onceEach {g : Membership} (h : g.Distinct) : g.OnceEach :=
  ⟨h.nodup, fun _ hx => not_mem_ids_erase h.nodup hx⟩

/-! ## Later events -/

theorem Distinct.processJoin {g : Membership} (h : g.Distinct) (n p : UInt32) :
    (g.processJoin n p).Distinct := by
  unfold Membership.processJoin
  rcases find_ids (g := g) (n := n) with ⟨⟨x, hf, hx, hm⟩, -⟩ | ⟨hf, hn⟩
  · simp only [hf]
    split
    · -- the entry moves to the tail
      have hperm : (g.groupMembers.eraseP (fun y => y.nodeid = n) ++ [x]).Perm g.groupMembers := by
        obtain ⟨y, l₁, l₂, -, hy, hl, he⟩ := List.exists_of_eraseP (p := fun y => y.nodeid = n) hm
          (by simpa using hx)
        have hyx : y = x := by
          refine List.inj_on_of_nodup_map h.nodup ?_ hm (Eq.trans (by simpa using hy) hx.symm)
          rw [hl]
          exact List.mem_append_right _ List.mem_cons_self
        rw [he, hl, hyx]
        exact (List.perm_append_singleton _ _).trans List.perm_middle.symm
      exact ⟨(hperm.map _).nodup_iff.2 h.nodup, by rw [hperm.length_eq]; exact h.counted⟩
    · exact h
  · simp only [hf]
    constructor
    · simp only [ids, List.map_append, List.map_cons, List.map_nil]
      exact List.nodup_append.2 ⟨h.nodup, by simp, by rintro a ha b hb rfl; simp at hb; exact hn (hb ▸ ha)⟩
    · have := h.counted
      simp only [List.length_append, List.length_cons, List.length_nil]
      omega

/-- The loop over the departed members, with its count of removed ones. -/
theorem Distinct.foldl_dropLeft (left : List MemberItem) {p : Membership × Int}
    (hn : p.1.ids.Nodup) (hc : (p.1.groupMembers.length : Int) + p.2 < p.1.totalMembers) :
    (left.foldl dropLeft p).1.ids.Nodup ∧
      ((left.foldl dropLeft p).1.groupMembers.length : Int) + (left.foldl dropLeft p).2 <
        (left.foldl dropLeft p).1.totalMembers := by
  induction left generalizing p with
  | nil => exact ⟨hn, hc⟩
  | cons x left ih =>
    rw [List.foldl_cons]
    rcases dropLeft_cases p x with he | ⟨-, -, he⟩ | ⟨hm, -, he⟩ <;> rw [he]
    · exact ih hn hc
    · exact ih hn hc
    · refine ih (hn.sublist (List.erase_sublist.map _)) ?_
      have hlen := List.length_erase_of_mem hm
      have hpos := List.length_pos_of_mem hm
      simp only [hlen]
      omega

theorem foldl_dropLeft_snd_nonneg (left : List MemberItem) {p : Membership × Int} (hp : 0 ≤ p.2) :
    0 ≤ (left.foldl dropLeft p).2 := by
  induction left generalizing p with
  | nil => exact hp
  | cons x left ih =>
    rw [List.foldl_cons]
    rcases dropLeft_cases p x with he | ⟨-, -, he⟩ | ⟨-, -, he⟩ <;> rw [he]
    · exact ih hp
    · exact ih hp
    · refine ih ?_
      dsimp only
      omega

theorem Distinct.configChange {g : Membership} (h : g.Distinct) (members left join : List MemberItem) :
    (g.configChange members left join).Distinct := by
  have hcount := h.counted
  have hset : g.setUp members join = g := by
    unfold setUp
    rw [if_neg]
    omega
  have hfold := Distinct.foldl_dropLeft left (p := (g.setUp members join, 0)) (by rw [hset]; exact h.nodup)
    (by rw [hset]; simpa using hcount)
  have hpos := foldl_dropLeft_snd_nonneg left (p := (g.setUp members join, 0)) (Int.le_refl 0)
  unfold Membership.configChange
  dsimp only
  generalize left.foldl dropLeft (g.setUp members join, 0) = q at hfold hpos
  unfold settle
  split
  · refine ⟨hfold.1, ?_⟩
    have := hfold.2
    omega
  · refine ⟨hfold.1, ?_⟩
    have := hfold.2
    dsimp only
    omega

theorem Distinct.deliver {g : Membership} (h : g.Distinct) (e : Event) : (g.deliver e).Distinct := by
  cases e with
  | confchg members left join => exact h.configChange _ left join
  | msg s m =>
    by_cases hj : m.request = .join
    · simp only [Membership.deliver, hj]
      exact h.processJoin s.nodeid s.pid
    · by_cases hh : m.request = .halt
      · simp only [Membership.deliver, hh]
        exact ⟨h.nodup, h.counted⟩
      · rwa [deliver_msg_of_ne hj hh]

theorem Distinct.run {g : Membership} (h : g.Distinct) (es : List Event) :
    (es.foldl Membership.deliver g).Distinct := by
  induction es generalizing g with
  | nil => exact h
  | cons e es ih => exact ih (h.deliver e)

/-! ## The start -/

/-- Nobody who left is listed, so the loop over `left` does nothing. -/
theorem foldl_dropLeft_of_not_mem {left : List MemberItem} {p : Membership × Int}
    (h : ∀ x ∈ left, x ∉ p.1.groupMembers) : left.foldl dropLeft p = p := by
  induction left with
  | nil => rfl
  | cons x left ih =>
    have hx := h x List.mem_cons_self
    have hp : dropLeft p x = p := by simp [dropLeft, hx]
    rw [List.foldl_cons, hp]
    exact ih fun y hy => h y (List.mem_cons_of_mem _ hy)

theorem initialMembers_singleton {me : UInt32} {members : List MemberItem} {y : MemberItem}
    (hy : y.nodeid = me) :
    initialMembers me members [y] = members.filter fun x => x.nodeid ≠ me ∧ x ∉ [y] := by
  unfold initialMembers
  induction members with
  | nil => rfl
  | cons x members ih =>
    rw [List.flatMap_cons, ih, List.filter_cons]
    by_cases hx : x.nodeid = me
    · simp [hx]
    · have hxy : x ≠ y := fun h => hx (h ▸ hy)
      simp [hx, hxy, hy, Ne.symm hx]

/-- A single joiner's list starts exact. -/
theorem configChange_init {me pid : UInt32} {members left : List MemberItem} {y : MemberItem}
    (hy : y.nodeid = me) (hm : (members.map (·.nodeid)).Nodup) (hmem : y ∈ members)
    (hl : ∀ x ∈ left, x ∉ members) :
    ((init me pid).configChange members left [y]).groupMembers =
        members.filter (fun x => x.nodeid ≠ me ∧ x ∉ [y]) ∧
      ((init me pid).configChange members left [y]).Distinct := by
  have hset : ((init me pid).setUp members [y]).groupMembers =
      members.filter fun x => x.nodeid ≠ me ∧ x ∉ [y] := by
    simp only [setUp, init, if_true, List.nil_append]
    exact initialMembers_singleton hy
  have htotal : ((init me pid).setUp members [y]).totalMembers = members.length := by
    simp [setUp, init]
  have hstop : ((init me pid).setUp members [y]).stopped = false := by simp [setUp, init]
  have hfold : left.foldl dropLeft ((init me pid).setUp members [y], 0) =
      ((init me pid).setUp members [y], 0) := by
    refine foldl_dropLeft_of_not_mem fun x hx hin => ?_
    rw [hset] at hin
    exact hl x hx (List.mem_filter.1 hin).1
  have hlist : ((init me pid).configChange members left [y]).groupMembers =
      members.filter fun x => x.nodeid ≠ me ∧ x ∉ [y] := by
    simp only [Membership.configChange, hfold, settle, hstop, Bool.false_eq_true, if_false]
    exact hset
  refine ⟨hlist, ?_, ?_⟩
  · rw [ids, hlist]
    exact hm.sublist (List.filter_sublist.map _)
  · have hlt : (members.filter fun x => x.nodeid ≠ me ∧ x ∉ [y]).length < members.length := by
      refine List.length_filter_lt_length_iff_exists.2 ⟨y, hmem, by simp [hy]⟩
    have ht : ((init me pid).configChange members left [y]).totalMembers = members.length := by
      simp only [Membership.configChange, hfold, settle, hstop, Bool.false_eq_true, if_false, htotal]
      omega
    rw [hlist, ht]
    exact_mod_cast hlt

end Membership

/-- The first change makes the list of the members that are neither this node nor joiners, each once,
and no event ever lists a node twice, if and only if this node is the only joiner. -/
theorem member_set_iff {me pid : UInt32} {members left join : List MemberItem}
    (hm : (members.map (·.nodeid)).Nodup) (hj : (join.map (·.nodeid)).Nodup)
    (hsub : ∀ x ∈ join, x ∈ members) (hme : me ∈ join.map (·.nodeid))
    (hl : ∀ x ∈ left, x ∉ members) :
    (((Membership.init me pid).configChange members left join).groupMembers =
        members.filter (fun x => x.nodeid ≠ me ∧ x ∉ join) ∧
      ∀ es : List Event, (es.foldl Membership.deliver
        ((Membership.init me pid).configChange members left join)).OnceEach) ↔
      join.length = 1 := by
  obtain ⟨y, hy, hyme⟩ := List.mem_map.1 hme
  constructor
  · rintro ⟨hlist, -⟩
    by_contra hlen
    -- another joiner is copied for this one
    obtain ⟨z, hz, hzy⟩ : ∃ z ∈ join, z ≠ y := by
      by_contra hno
      have hall : ∀ z ∈ join, z = y := fun z hz => by
        by_contra hzy
        exact hno ⟨z, hz, hzy⟩
      have hpos := List.length_pos_of_mem hy
      have hnd : join.Nodup := List.Nodup.of_map _ hj
      have : join = List.replicate join.length y := List.eq_replicate_iff.2 ⟨rfl, hall⟩
      rw [this, List.nodup_replicate] at hnd
      omega
    have hzme : z.nodeid ≠ me := fun h =>
      hzy (List.inj_on_of_nodup_map hj hz hy (h.trans hyme.symm))
    have hin : z ∈ ((Membership.init me pid).configChange members left join).groupMembers := by
      refine Membership.configChange_induction (I := fun g => z ∈ g.groupMembers) ?_
        (fun _ h _ => h) (fun g x h hx _ _ => ?_) fun _ _ h => h
      · have : z ∈ Membership.initialMembers me members join :=
          Membership.mem_initialMembers.2 ⟨hsub z hz, hzme, y, hy, fun h => hzme (h.symm.trans hyme)⟩
        simpa [Membership.setUp, Membership.init] using this
      · refine (List.mem_erase_of_ne fun h => ?_).2 h
        exact hl x hx (h ▸ hsub z hz)
    rw [hlist] at hin
    exact (by simpa using (List.mem_filter.1 hin).2 : z.nodeid ≠ me ∧ z ∉ join).2 hz
  · intro hlen
    obtain ⟨y', rfl⟩ := List.length_eq_one_iff.1 hlen
    obtain rfl := List.mem_singleton.1 hy
    obtain ⟨hlist, hd⟩ := @Membership.configChange_init _ pid _ _ _ hyme hm (hsub y hy) hl
    exact ⟨hlist, fun es => (hd.run es).onceEach⟩

/-- Daemon 3 enters a group of 1 and 2. -/
theorem member_set_third : (((Membership.init 3 30).configChange [⟨2, 20⟩, ⟨3, 30⟩, ⟨1, 10⟩] []
      [⟨3, 30⟩]).groupMembers = [⟨2, 20⟩, ⟨3, 30⟩, ⟨1, 10⟩].filter (fun x =>
        x.nodeid ≠ 3 ∧ x ∉ [(⟨3, 30⟩ : MemberItem)]) ∧
    ∀ es : List Event, (es.foldl Membership.deliver ((Membership.init 3 30).configChange
      [⟨2, 20⟩, ⟨3, 30⟩, ⟨1, 10⟩] [] [⟨3, 30⟩])).OnceEach) :=
  (member_set_iff (by decide) (by decide) (by decide) (by decide) (by decide)).2 rfl

/-- Of two joiners the first lists the second, and a third member twice: one leave does not remove
it. -/
theorem member_listed_twice : ¬∀ (me pid : UInt32) (members left join : List MemberItem),
    (members.map (·.nodeid)).Nodup → (join.map (·.nodeid)).Nodup → (∀ x ∈ join, x ∈ members) →
    me ∈ join.map (·.nodeid) → (∀ x ∈ left, x ∉ members) →
    ((Membership.init me pid).configChange members left join).groupMembers =
        members.filter (fun x => x.nodeid ≠ me ∧ x ∉ join) ∧
      ∀ es : List Event, (es.foldl Membership.deliver
        ((Membership.init me pid).configChange members left join)).OnceEach := by
  intro h
  have := (h 1 10 [⟨1, 10⟩, ⟨2, 20⟩, ⟨3, 30⟩] [] [⟨1, 10⟩, ⟨2, 20⟩] (by decide) (by decide)
    (by decide) (by decide) (by decide)).2 []
  exact absurd this.1 (by decide)

end Cpglock
