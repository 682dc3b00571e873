import Cpglock.Daemon.Membership
import Cpglock.Lib.Precedes

/-!
# What JOINs and configuration changes do to the member list

`Membership.ids g`: the node ids of `group_members`, in order. A JOIN keeps every id and adds the
sender's; a configuration change keeps the ids that have not left. Both keep the order of two ids
unless the first of them is the one that moves or leaves (`precedes_processJoin`,
`precedes_configChange`).
-/

namespace Cpglock.Membership

/-- The node ids of the member list. -/
def ids (g : Membership) : List UInt32 := g.groupMembers.map (·.nodeid)

/-! ## `process_join` -/

@[simp] theorem processJoin_myNodeId (g : Membership) (n p : UInt32) :
    (g.processJoin n p).myNodeId = g.myNodeId := by
  unfold processJoin; split
  · split <;> rfl
  · rfl

@[simp] theorem processJoin_myPid (g : Membership) (n p : UInt32) :
    (g.processJoin n p).myPid = g.myPid := by
  unfold processJoin; split
  · split <;> rfl
  · rfl

@[simp] theorem processJoin_stopped (g : Membership) (n p : UInt32) :
    (g.processJoin n p).stopped = g.stopped := by
  unfold processJoin; split
  · split <;> rfl
  · rfl

theorem find_ids {g : Membership} {n : UInt32} :
    (∃ x, g.groupMembers.find? (fun x => x.nodeid = n) = some x ∧ x.nodeid = n ∧
      x ∈ g.groupMembers) ∧ n ∈ g.ids ∨
    g.groupMembers.find? (fun x => x.nodeid = n) = none ∧ n ∉ g.ids := by
  cases hf : g.groupMembers.find? fun x => x.nodeid = n with
  | some x =>
    have hx : x.nodeid = n := by simpa using List.find?_some hf
    have hm := List.mem_of_find?_eq_some hf
    exact .inl ⟨⟨x, rfl, hx, hm⟩, hx ▸ List.mem_map_of_mem hm⟩
  | none =>
    refine .inr ⟨rfl, fun hn => ?_⟩
    obtain ⟨x, hx, rfl⟩ := List.mem_map.1 hn
    simpa using List.find?_eq_none.1 hf x hx

/-- The ids after a JOIN: those before it and the sender's. -/
theorem mem_processJoin {g : Membership} {n p c : UInt32} :
    c ∈ (g.processJoin n p).ids ↔ c ∈ g.ids ∨ c = n := by
  unfold processJoin
  rcases find_ids (g := g) (n := n) with ⟨⟨x, hf, hx, hm⟩, hn⟩ | ⟨hf, hn⟩
  · simp only [hf]
    split
    · have hsub : ∀ y ∈ g.groupMembers.eraseP (fun y => y.nodeid = n), y ∈ g.groupMembers :=
        fun y hy => List.mem_of_mem_eraseP hy
      constructor
      · intro hc
        obtain ⟨y, hy, rfl⟩ := List.mem_map.1 hc
        rcases List.mem_append.1 hy with hy | hy
        · exact .inl (List.mem_map_of_mem (hsub y hy))
        · exact .inr (by rw [List.mem_singleton.1 hy, hx])
      · intro hc
        by_cases hcn : c = n
        · exact List.mem_map.2 ⟨x, by simp, by rw [hx, hcn]⟩
        · obtain ⟨y, hy, rfl⟩ := List.mem_map.1 (hc.resolve_right hcn)
          refine List.mem_map_of_mem (List.mem_append_left _ ?_)
          exact (List.mem_eraseP_of_neg (by simpa using hcn)).2 hy
    · exact ⟨.inl, fun h => h.elim id fun h => h ▸ hn⟩
  · simp only [hf, ids, List.map_append, List.mem_append, List.map_cons, List.map_nil,
      List.mem_singleton]

/-- A daemon is joined by the JOIN of its own node, unless that node is listed already. -/
theorem processJoin_joined (g : Membership) (n p : UInt32) :
    (g.processJoin n p).joined = true ↔ g.joined = true ∨ n = g.myNodeId ∧ n ∉ g.ids := by
  unfold processJoin
  rcases find_ids (g := g) (n := n) with ⟨⟨x, hf, -⟩, hn⟩ | ⟨hf, hn⟩
  · simp only [hf]
    split <;> simp [hn]
  · simp [hf, hn]

theorem precedes_processJoin {g : Membership} {n p a b : UInt32} (h : Precedes g.ids a b)
    (ha : a ≠ n) : Precedes (g.processJoin n p).ids a b := by
  unfold processJoin
  rcases find_ids (g := g) (n := n) with ⟨⟨x, hf, -⟩, -⟩ | ⟨hf, -⟩
  · simp only [hf]
    split
    · have := h.eraseP (f := MemberItem.nodeid) (p := fun y => y.nodeid = n) fun y _ hy => by
        simpa [eq_comm, show y.nodeid = n by simpa using hy] using ha.symm
      simpa [ids] using this.append _
    · exact h
  · simpa [hf, ids] using h.append [n]

theorem head?_processJoin {g : Membership} {n p a : UInt32} (h : g.ids.head? = some a)
    (ha : a ≠ n) : (g.processJoin n p).ids.head? = some a := by
  unfold processJoin
  rcases find_ids (g := g) (n := n) with ⟨⟨x, hf, -⟩, -⟩ | ⟨hf, -⟩
  · simp only [hf]
    split
    · cases hl : g.groupMembers with
      | nil => simp [ids, hl] at h
      | cons y l =>
        have hy : y.nodeid = a := by simpa [ids, hl] using h
        simp [ids, hy, ha]
    · exact h
  · simp only [hf]
    rw [ids, List.map_append, List.head?_append, show (g.groupMembers.map (·.nodeid)).head? = _ from h]
    rfl

/-- The JOIN of an unlisted node puts it behind everyone. -/
theorem processJoin_of_not_mem {g : Membership} {n p : UInt32} (hn : n ∉ g.ids) :
    (g.processJoin n p).ids = g.ids ++ [n] := by
  unfold processJoin
  rcases find_ids (g := g) (n := n) with ⟨-, h⟩ | ⟨hf, -⟩
  · exact absurd h hn
  · simp [hf, ids]

/-! ## `cpg_config_change` -/

theorem mem_initialMembers {me : UInt32} {members join : List MemberItem} {x : MemberItem} :
    x ∈ initialMembers me members join ↔
      x ∈ members ∧ x.nodeid ≠ me ∧ ∃ y ∈ join, y.nodeid ≠ x.nodeid := by
  simp only [initialMembers, List.mem_flatMap]
  constructor
  · rintro ⟨x', hx', y, hy, h⟩
    split at h
    · cases h
    · next hne =>
      split at h
      · cases h
      · next hme =>
        obtain rfl := List.mem_singleton.1 h
        exact ⟨hx', hme, y, hy, hne⟩
  · rintro ⟨hx, hme, y, hy, hne⟩
    exact ⟨x, hx, y, hy, by simp [hne, hme]⟩

/-- One pass of the loop over `left`: the membership stays, stops, or loses one listed member. -/
theorem dropLeft_cases (p : Membership × Int) (x : MemberItem) :
    dropLeft p x = p ∨
    (x ∈ p.1.groupMembers ∧ x.nodeid = p.1.myNodeId ∧
      dropLeft p x = ({ p.1 with stopped := true }, p.2)) ∨
    (x ∈ p.1.groupMembers ∧ x.nodeid ≠ p.1.myNodeId ∧
      dropLeft p x = ({ p.1 with groupMembers := p.1.groupMembers.erase x }, p.2 + 1)) := by
  unfold dropLeft
  split
  · exact .inl rfl
  · split
    · next hx =>
      split
      · next h => exact .inr (.inl ⟨hx, h, rfl⟩)
      · next h => exact .inr (.inr ⟨hx, h, rfl⟩)
    · exact .inl rfl

/-- What each pass over a departed member keeps, the loop keeps. -/
theorem foldl_dropLeft {I : Membership → Prop} {left : List MemberItem}
    (hstop : ∀ g, I g → g.myNodeId ∈ left.map (·.nodeid) → I { g with stopped := true })
    (herase : ∀ g x, I g → x ∈ left → x ∈ g.groupMembers → x.nodeid ≠ g.myNodeId →
      I { g with groupMembers := g.groupMembers.erase x })
    {p : Membership × Int} (h : I p.1) : I (left.foldl dropLeft p).1 := by
  have key : ∀ (l : List MemberItem) (p : Membership × Int), (∀ x ∈ l, x ∈ left) → I p.1 →
      I (l.foldl dropLeft p).1 := by
    intro l
    induction l with
    | nil => exact fun _ _ h => h
    | cons x l ih =>
      intro p hl h
      have hx := hl x List.mem_cons_self
      refine ih _ (fun y hy => hl y (List.mem_cons_of_mem _ hy)) ?_
      rcases dropLeft_cases p x with he | ⟨-, hme, he⟩ | ⟨hm, hne, he⟩ <;> rw [he]
      · exact h
      · exact hstop _ h (hme ▸ List.mem_map_of_mem hx)
      · exact herase _ _ h hx hm hne
  exact key _ _ (fun _ h => h) h

/-- What setting up and every removal keep, a configuration change keeps. -/
theorem configChange_induction {I : Membership → Prop} {g : Membership}
    {members left join : List MemberItem} (h0 : I (g.setUp members join))
    (hstop : ∀ g, I g → g.myNodeId ∈ left.map (·.nodeid) → I { g with stopped := true })
    (herase : ∀ g x, I g → x ∈ left → x ∈ g.groupMembers → x.nodeid ≠ g.myNodeId →
      I { g with groupMembers := g.groupMembers.erase x })
    (htotal : ∀ g k, I g → I { g with totalMembers := k }) :
    I (g.configChange members left join) := by
  have := foldl_dropLeft hstop herase (p := (g.setUp members join, 0)) h0
  show I (settle _ _)
  unfold settle
  split
  · exact this
  · exact htotal _ _ this

@[simp] theorem configChange_myNodeId (g : Membership) (members left join : List MemberItem) :
    (g.configChange members left join).myNodeId = g.myNodeId := by
  refine configChange_induction (I := fun h => h.myNodeId = g.myNodeId) ?_ ?_ ?_ ?_
  · unfold setUp; split <;> rfl
  all_goals intros; assumption

@[simp] theorem configChange_myPid (g : Membership) (members left join : List MemberItem) :
    (g.configChange members left join).myPid = g.myPid := by
  refine configChange_induction (I := fun h => h.myPid = g.myPid) ?_ ?_ ?_ ?_
  · unfold setUp; split <;> rfl
  all_goals intros; assumption

@[simp] theorem configChange_joined (g : Membership) (members left join : List MemberItem) :
    (g.configChange members left join).joined = g.joined := by
  refine configChange_induction (I := fun h => h.joined = g.joined) ?_ ?_ ?_ ?_
  · unfold setUp; split <;> rfl
  all_goals intros; assumption

/-- A process runs on through the changes that do not list its node as having left. -/
theorem configChange_stopped {g : Membership} {members left join : List MemberItem}
    (hme : g.myNodeId ∉ left.map (·.nodeid)) :
    (g.configChange members left join).stopped = g.stopped := by
  refine (configChange_induction
    (I := fun h => h.myNodeId = g.myNodeId ∧ h.stopped = g.stopped) ?_ ?_ ?_ ?_).2
  · unfold setUp; split <;> exact ⟨rfl, rfl⟩
  · exact fun h hh hl => absurd (hh.1 ▸ hl) hme
  all_goals intros; assumption

theorem ids_setUp (g : Membership) (members join : List MemberItem) :
    ∃ t, (g.setUp members join).ids = g.ids ++ t ∧ g.myNodeId ∉ t ∧
      ∀ c ∈ t, c ∈ members.map (·.nodeid) := by
  unfold setUp
  split
  · refine ⟨(initialMembers g.myNodeId members join).map (·.nodeid), by simp [ids], ?_, ?_⟩
    · intro h
      obtain ⟨x, hx, he⟩ := List.mem_map.1 h
      exact (mem_initialMembers.1 hx).2.1 he
    · intro c hc
      obtain ⟨x, hx, rfl⟩ := List.mem_map.1 hc
      exact List.mem_map_of_mem (mem_initialMembers.1 hx).1
  · exact ⟨[], by simp⟩

theorem mem_ids_erase {g : Membership} {x : MemberItem} {c : UInt32} (hc : c ∈ g.ids)
    (hx : x.nodeid ≠ c) :
    c ∈ ({ g with groupMembers := g.groupMembers.erase x } : Membership).ids := by
  obtain ⟨y, hy, rfl⟩ := List.mem_map.1 hc
  refine List.mem_map_of_mem ((List.mem_erase_of_ne fun h => ?_).2 hy)
  exact hx (by rw [h])

/-- An id stays listed through a change unless its node left. -/
theorem mem_configChange {g : Membership} {members left join : List MemberItem} {c : UInt32}
    (hc : c ∈ g.ids) (hl : c ∉ left.map (·.nodeid)) :
    c ∈ (g.configChange members left join).ids := by
  refine configChange_induction (I := fun h => c ∈ h.ids) ?_ ?_ ?_ ?_
  · obtain ⟨t, ht, -⟩ := ids_setUp g members join
    rw [ht]
    exact List.mem_append_left _ hc
  · exact fun _ h _ => h
  · exact fun h x hh hx _ _ => mem_ids_erase hh fun he => hl (he ▸ List.mem_map_of_mem hx)
  · exact fun _ _ h => h

/-- A listed id was listed before, or is another node's and in the array. -/
theorem mem_of_configChange {g : Membership} {members left join : List MemberItem} {c : UInt32}
    (hc : c ∈ (g.configChange members left join).ids) :
    c ∈ g.ids ∨ c ≠ g.myNodeId ∧ c ∈ members.map (·.nodeid) := by
  revert hc
  refine configChange_induction (I := fun h => c ∈ h.ids → _) ?_ ?_ ?_ ?_
  · obtain ⟨t, ht, hme, hmem⟩ := ids_setUp g members join
    rw [ht]
    intro hc
    rcases List.mem_append.1 hc with hc | hc
    · exact .inl hc
    · exact .inr ⟨fun he => hme (he ▸ hc), hmem c hc⟩
  · exact fun _ h _ => h
  · exact fun h x hh _ _ _ hc => hh ((List.erase_sublist.map _).subset hc)
  · exact fun _ _ h => h

theorem precedes_configChange {g : Membership} {members left join : List MemberItem}
    {a b : UInt32} (h : Precedes g.ids a b) (ha : a ∉ left.map (·.nodeid)) :
    Precedes (g.configChange members left join).ids a b := by
  refine configChange_induction (I := fun h => Precedes h.ids a b) ?_ ?_ ?_ ?_
  · obtain ⟨t, ht, -⟩ := ids_setUp g members join
    rw [ht]
    exact h.append t
  · exact fun _ h _ => h
  · intro h x hh hx _ _
    have := hh.eraseP (f := MemberItem.nodeid) (p := fun y => y == x) fun y _ hy he => by
      rw [eq_of_beq hy] at he
      exact ha (he ▸ List.mem_map_of_mem hx)
    simpa [ids, List.erase_eq_eraseP', BEq.comm] using this
  · exact fun _ _ h => h

theorem head?_ids_erase {g : Membership} {x : MemberItem} {a : UInt32} (h : g.ids.head? = some a)
    (hx : x.nodeid ≠ a) :
    ({ g with groupMembers := g.groupMembers.erase x } : Membership).ids.head? = some a := by
  cases hl : g.groupMembers with
  | nil => simp [ids, hl] at h
  | cons y l =>
    have hy : y.nodeid = a := by simpa [ids, hl] using h
    have hxy : y ≠ x := fun he => hx (he ▸ hy)
    simp [ids, hxy, hy]

theorem head?_configChange {g : Membership} {members left join : List MemberItem} {a : UInt32}
    (h : g.ids.head? = some a) (ha : a ∉ left.map (·.nodeid)) :
    (g.configChange members left join).ids.head? = some a := by
  refine configChange_induction (I := fun h => h.ids.head? = some a) ?_ ?_ ?_ ?_
  · obtain ⟨t, ht, -⟩ := ids_setUp g members join
    rw [ht, List.head?_append, h]
    rfl
  · exact fun _ h _ => h
  · exact fun h x hh hx _ _ => head?_ids_erase hh fun he => ha (he ▸ List.mem_map_of_mem hx)
  · exact fun _ _ h => h

/-- The first change sets up the list of all other members, whatever the order of the array. -/
theorem mem_configChange_init {me pid : UInt32} {members left join : List MemberItem} {c : UInt32}
    (hc : c ∈ members.map (·.nodeid)) (hme : c ≠ me) (hj : me ∈ join.map (·.nodeid))
    (hl : c ∉ left.map (·.nodeid)) :
    c ∈ ((init me pid).configChange members left join).ids := by
  refine configChange_induction (I := fun h => c ∈ h.ids) ?_ ?_ ?_ ?_
  · obtain ⟨x, hx, rfl⟩ := List.mem_map.1 hc
    obtain ⟨y, hy, hye⟩ := List.mem_map.1 hj
    have : x ∈ initialMembers me members join :=
      mem_initialMembers.2 ⟨hx, hme, y, hy, fun h => hme (by rw [← h, hye])⟩
    simpa [setUp, init, ids] using ⟨x, this, rfl⟩
  · exact fun _ h _ => h
  · exact fun h x hh hx _ _ => mem_ids_erase hh fun he => hl (he ▸ List.mem_map_of_mem hx)
  · exact fun _ _ h => h

end Cpglock.Membership
