import Cpglock.Group.Proof.Sound

/-!
# Never two oldest hosts

A daemon takes itself for the oldest host when it has joined and is first on its own list. Whatever
the arrays the daemons started from, the order of their JOINs and the members that left: no two
live daemons do so at once, and no two do so after the same events of the order.
-/

namespace Cpglock

/-- `joined`, and its own node at the head of `group_members`. -/
def Daemon.IsOldest (d : Daemon) : Prop :=
  d.joined = true ∧ d.groupMembers.head?.map (·.nodeid) = some d.myNodeId

instance (d : Daemon) : Decidable d.IsOldest := by
  unfold Daemon.IsOldest
  infer_instance

/-- A step only adds to the order. -/
theorem Sys.log_step {s s' : Sys} {a : Act} (h : s.step a = some s') : s.log <+: s'.log := by
  obtain ⟨_, _, _, _, -, -, rfl⟩ | ⟨_, _, _, _, -, -, -, rfl⟩ | ⟨_, _, _, _, _, _, -, -, -, rfl⟩ :=
    step_cases h
  · exact List.prefix_append _ _
  · exact List.prefix_append _ _
  · exact List.prefix_refl _

theorem Runs.log_prefix {P : Sys → Act → Prop} {s s' : Sys} (h : Runs P s s') : s.log <+: s'.log :=
  h.invariant (I := fun s' => s.log <+: s'.log) (List.prefix_refl _)
    fun hi _ hs => hi.trans (Sys.log_step hs)

/-- A joined daemon has been delivered the change that announced it. -/
theorem Enrolled.views {log : List Event} {n : UInt32} {nd : Node} (h : Enrolled log n nd)
    (hj : nd.d.joined = true) :
    nd.since < nd.pos ∧ (Ledger.of (log.take nd.pos)).views n = some nd.d.toMembership := by
  have hm := h.member
  have hle := h.since_le
  split at hm
  · have := congrArg Membership.joined hm
    rw [hj] at this
    cases this
  · exact ⟨by omega, hm⟩

theorem Enrolled.oldest {log : List Event} {n : UInt32} {nd : Node} (h : Enrolled log n nd)
    (ho : nd.d.IsOldest) : (Ledger.of (log.take nd.pos)).Oldest n := by
  refine ⟨nd.d.toMembership, (h.views ho.1).2, ho.1, ?_⟩
  have := ho.2
  rw [h.me] at this
  rwa [Membership.ids, List.head?_map]

/-- The oldest daemon stays it through the events that do not remove it. -/
theorem Ledger.Oldest.persists {log : List Event} (hw : WellOrdered log) {n : UInt32} {j k : Nat}
    (hk : k ≤ log.length) (hjk : j ≤ k) (h : (Ledger.of (log.take j)).Oldest n)
    (hs : ∀ i e, j ≤ i → log[i]? = some e → Stays n e) : (Ledger.of (log.take k)).Oldest n := by
  induction k, hjk using Nat.le_induction with
  | base => exact h
  | succ k hjk ih =>
    obtain ⟨e, he⟩ : ∃ e, log[k]? = some e := ⟨_, List.getElem?_eq_getElem (by omega)⟩
    rw [Ledger.of_take_succ he]
    refine (ih (by omega)).step (hw k e he) fun members left join heq => ?_
    exact (hs k e hjk he members left join heq).1

theorem Sys.Sound.oldest_unique {s : Sys} (h : s.Sound) {n n' : UInt32} {nd nd' : Node}
    (hn : s.nodes n = some nd) (hn' : s.nodes n' = some nd') (ho : nd.d.IsOldest)
    (ho' : nd'.d.IsOldest) (hle : nd.pos ≤ nd'.pos) : n = n' := by
  have hen := h.node n nd hn
  have hb := h.bounded n' nd' hn'
  have hp := (hen.oldest ho).persists h.ordered hb hle fun i e hi he =>
    hen.stays i e (by have := (hen.views ho.1).1; omega) he
  exact (h.ordered.inv _ hb).oldest_unique hp ((h.node n' nd' hn').oldest ho')

/-- Two daemons that take themselves for the oldest host are one, in one state of a run as after
the same number of delivered events. -/
theorem never_two_oldest {P : Sys → Act → Prop} {s s' : Sys} (h : Runs P .init s)
    (h' : Runs P s s') {n n' : UInt32} {nd nd' : Node} (hn : s.nodes n = some nd)
    (hn' : s'.nodes n' = some nd') (hwhen : s' = s ∨ nd'.pos = nd.pos)
    (ho : nd.d.IsOldest) (ho' : nd'.d.IsOldest) : n = n' := by
  rcases hwhen with rfl | hpos
  · rcases Nat.le_total nd.pos nd'.pos with hle | hle
    · exact h.sound.oldest_unique hn hn' ho ho' hle
    · exact (h.sound.oldest_unique hn' hn ho' ho hle).symm
  · have hs := h.sound
    have hs' := Runs.sound (h.trans h')
    have ht : s'.log.take nd.pos = s.log.take nd.pos := by
      obtain ⟨t, ht⟩ := h'.log_prefix
      rw [← ht, List.take_append_of_le_length (hs.bounded n nd hn)]
    have hb := (hs'.node n' nd' hn').oldest ho'
    rw [hpos, ht] at hb
    exact (hs.ordered.inv _ (hs.bounded n nd hn)).oldest_unique ((hs.node n nd hn).oldest ho) hb

/-- Daemon 1 enters and joins, then daemon 2 does. -/
def twoDaemons : List Act :=
  let x : MemberItem := ⟨1, 10⟩
  let y : MemberItem := ⟨2, 20⟩
  let boot : UInt32 → Boot := fun _ => ⟨⟨0, 0⟩, 0⟩
  [.confchg (fun _ => [x]) [] [x] boot, .order 1, .deliver 1, .deliver 1,
    .confchg (fun _ => [y, x]) [] [y] boot, .order 2, .deliver 2, .deliver 2, .deliver 1, .deliver 1]

theorem never_two_oldest_two : ∃ (s : Sys) (nd nd' : Node), s.nodes 1 = some nd ∧ s.nodes 2 = some nd' ∧
    nd.d.IsOldest ∧ nd'.d.joined = true ∧ nd'.pos = nd.pos ∧ (1 : UInt32) = 1 := by
  have h : (Transition.exec Sys.step (fun _ _ => true) .init twoDaemons).any (fun s =>
      (s.nodes 1).any fun nd => (s.nodes 2).any fun nd' =>
        nd.d.IsOldest && nd'.d.joined && nd'.pos == nd.pos) = true := by decide +kernel
  obtain ⟨s, hs, h⟩ := Transition.Run.of_check (P := fun _ _ => True) (fun _ _ _ => trivial) h
  obtain ⟨nd, hn, h⟩ := (Option.any_eq_true _ _).1 h
  obtain ⟨nd', hn', h⟩ := (Option.any_eq_true _ _).1 h
  simp only [Bool.and_eq_true, decide_eq_true_eq, beq_iff_eq] at h
  obtain ⟨⟨ho, hj⟩, hp⟩ := h
  exact ⟨s, nd, nd', hn, hn', ho, hj, hp, never_two_oldest hs .start hn hn (.inl rfl) ho ho⟩

end Cpglock
