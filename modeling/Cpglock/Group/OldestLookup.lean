import Mathlib
import Cpglock.Group.OldestHost

/-!
# When the oldest node is looked up

`get_oldest_node` takes the first member without asking whether there is one. `Daemon.lookups` are
the member lists it is called on when an event is delivered. A joined daemon is on its own list, and
only a joined one looks at it on a LOCK or GRANT. `del_node` does not ask: the list is empty in just
the deliveries that take the last member off the list of a daemon that has not joined
(`oldest_lookup_iff`).
-/

namespace Cpglock

/-- The lists that `del_node` finds in the loop over the departed members. -/
def Membership.leftLookups (p : Membership × Int) : List MemberItem → List (List MemberItem)
  | [] => []
  | x :: left =>
    (if p.1.stopped = false ∧ x ∈ p.1.groupMembers ∧ x.nodeid ≠ p.1.myNodeId then
      [p.1.groupMembers.erase x] else []) ++ leftLookups (dropLeft p x) left

namespace Daemon

/-- The lists that `get_oldest_node` is called on when the message is handled: by `process_lock` for
a new lock, by `process_grant` for an entry unless the grant is averted or its process is gone. -/
def msgLookups (d : Daemon) (m : CpgLockMsg) : List (List MemberItem) :=
  match m.request with
  | .lock => if d.joined ∧ d.locks.get m.resource = none then [d.groupMembers] else []
  | .grant =>
    if d.joined then
      match d.locks.get m.resource with
      | some l =>
        if l.state = .held ∧ (m.ownerPid = 0 ∨ m.ownerNodeid = 0) then []
        else if m.ownerNodeid = d.myNodeId ∧ (d.findClient m.ownerPid).isNone then []
        else [d.groupMembers]
      | none => []
    else []
  | _ => []

/-- The lists that `get_oldest_node` is called on when the event is delivered. -/
def lookups (d : Daemon) : Event → List (List MemberItem)
  | .msg _ m => d.msgLookups m
  | .confchg members left join =>
    Membership.leftLookups (d.toMembership.setUp (members d.myNodeId) join, 0) left

/-- The change takes the last listed member off the list of a daemon that has not joined. -/
def LosesAll (d : Daemon) : Event → Prop
  | .msg _ _ => False
  | .confchg members left join =>
    let l := (d.toMembership.setUp (members d.myNodeId) join).groupMembers
    d.joined = false ∧ (∃ x ∈ left, x ∈ l) ∧ l.diff left = []

end Daemon

/-! ## The lists -/

namespace Membership

/-- On a list without its own node the loop never stops. -/
theorem leftLookups_iff {left : List MemberItem} {p : Membership × Int} (hs : p.1.stopped = false)
    (hme : p.1.myNodeId ∉ p.1.ids) :
    (∀ l ∈ leftLookups p left, l ≠ []) ↔
      ¬((∃ x ∈ left, x ∈ p.1.groupMembers) ∧ p.1.groupMembers.diff left = []) := by
  induction left generalizing p with
  | nil => simp [leftLookups]
  | cons x left ih =>
    rw [leftLookups, List.diff_cons]
    by_cases hx : x ∈ p.1.groupMembers
    · have hne : x.nodeid ≠ p.1.myNodeId := fun h => hme (h ▸ List.mem_map_of_mem hx)
      have hd : dropLeft p x = ({ p.1 with groupMembers := p.1.groupMembers.erase x }, p.2 + 1) := by
        simp [dropLeft, hs, hx, hne]
      have hme' : p.1.myNodeId ∉ (p.1.groupMembers.erase x).map (·.nodeid) := fun h =>
        hme ((List.erase_sublist.map _).subset h)
      rw [if_pos ⟨hs, hx, hne⟩, hd]
      have hih := ih (p := ({ p.1 with groupMembers := p.1.groupMembers.erase x }, p.2 + 1)) hs hme'
      dsimp only at hih
      have hcons : (∀ l ∈ [p.1.groupMembers.erase x] ++ leftLookups
          ({ p.1 with groupMembers := p.1.groupMembers.erase x }, p.2 + 1) left, l ≠ []) ↔
          p.1.groupMembers.erase x ≠ [] ∧ ¬((∃ y ∈ left, y ∈ p.1.groupMembers.erase x) ∧
            (p.1.groupMembers.erase x).diff left = []) := by
        rw [← hih, List.singleton_append, List.forall_mem_cons]
      rw [hcons]
      constructor
      · rintro ⟨he, hrest⟩ ⟨-, hdiff⟩
        -- nobody else on the list has left
        refine hrest ⟨?_, hdiff⟩
        by_contra hno
        obtain ⟨z, hz⟩ := List.exists_mem_of_ne_nil _ he
        have := List.mem_diff_of_mem hz fun hzl => hno ⟨z, hzl, hz⟩
        rw [hdiff] at this
        cases this
      · intro h
        refine ⟨fun he => h ⟨⟨x, List.mem_cons_self, hx⟩, by rw [he, List.nil_diff]⟩, fun hrest => ?_⟩
        exact h ⟨⟨x, List.mem_cons_self, hx⟩, hrest.2⟩
    · have hd : dropLeft p x = p := by simp [dropLeft, hx]
      rw [if_neg fun h => hx h.2.1, hd, List.nil_append, ih hs hme, List.erase_of_not_mem hx]
      simp [hx]

/-- A daemon on its own list stays there. -/
theorem leftLookups_ne_nil {left : List MemberItem} {p : Membership × Int}
    (hme : p.1.myNodeId ∈ p.1.ids) : ∀ l ∈ leftLookups p left, l ≠ [] := by
  induction left generalizing p with
  | nil => simp [leftLookups]
  | cons x left ih =>
    intro l hl
    rw [leftLookups] at hl
    rcases List.mem_append.1 hl with hl | hl
    · split at hl
      · next h =>
        rw [List.mem_singleton.1 hl]
        rintro he
        have := mem_ids_erase hme h.2.2
        rw [ids] at this
        dsimp only at this
        rw [he] at this
        cases this
      · cases hl
    · refine ih ?_ l hl
      rcases dropLeft_cases p x with he | ⟨-, -, he⟩ | ⟨-, hne, he⟩ <;> rw [he]
      · exact hme
      · exact hme
      · exact mem_ids_erase hme hne

end Membership

/-- Whatever led to a state: the delivery of an event finds an empty list if and only if it takes the
last member off the list of a daemon that has not joined. -/
theorem oldest_lookup_iff {P : Sys → Act → Prop} {s : Sys} (h : Runs P .init s) {n : UInt32}
    {nd : Node} (hn : s.nodes n = some nd) (hrun : nd.d.stopped = false) (e : Event) :
    (∀ l ∈ nd.d.lookups e, l ≠ []) ↔ ¬nd.d.LosesAll e := by
  have hs := Runs.sound h
  have hen := hs.node n nd hn
  have hinv := hs.ordered.inv nd.pos (hs.bounded n nd hn)
  -- a daemon is on its own list from its JOIN on
  have hself : nd.d.myNodeId ∈ nd.d.ids ↔ nd.d.joined = true := by
    have hm := hen.member
    split at hm
    · have hids : nd.d.ids = [] := congrArg Membership.ids hm
      have hj : nd.d.joined = false := congrArg Membership.joined hm
      simp [hids, hj]
    · have := (hinv.self n _ hm).2
      rwa [hen.me]
  cases e with
  | msg x m =>
    refine ⟨fun _ h => h, fun _ l hl => ?_⟩
    have hjoined : nd.d.joined = true ∧ l = nd.d.groupMembers := by
      simp only [Daemon.lookups, Daemon.msgLookups] at hl
      split at hl
      · split at hl
        · next hj => exact ⟨hj.1, List.mem_singleton.1 hl⟩
        · cases hl
      · split at hl
        · next hj =>
          split at hl
          · split at hl
            · cases hl
            · split at hl
              · cases hl
              · exact ⟨hj, List.mem_singleton.1 hl⟩
          · cases hl
        · cases hl
      · cases hl
    rintro rfl
    have := hself.2 hjoined.1
    rw [Membership.ids, ← hjoined.2] at this
    cases this
  | confchg members left join =>
    let g := nd.d.toMembership.setUp (members nd.d.myNodeId) join
    obtain ⟨t, ht, hme, -⟩ := nd.d.toMembership.ids_setUp (members nd.d.myNodeId) join
    have hid : g.myNodeId = nd.d.myNodeId ∧ g.stopped = nd.d.stopped := by
      simp only [g, Membership.setUp]
      split <;> exact ⟨rfl, rfl⟩
    cases hj : nd.d.joined with
    | true =>
      have hmem : g.myNodeId ∈ g.ids := by
        rw [hid.1, ht]
        exact List.mem_append_left _ (hself.2 hj)
      refine ⟨fun _ hlose => ?_, fun _ => Membership.leftLookups_ne_nil hmem⟩
      exact absurd (hj.symm.trans hlose.1) (by decide)
    | false =>
      have hmem : g.myNodeId ∉ g.ids := by
        rw [hid.1, ht]
        intro hc
        rcases List.mem_append.1 hc with hc | hc
        · rw [hself.1 hc] at hj
          cases hj
        · exact hme hc
      have hiff := @Membership.leftLookups_iff left (g, 0) (hid.2.trans hrun) hmem
      refine hiff.trans (not_congr ⟨fun h => ⟨hj, h⟩, fun h => h.2⟩)

/-- Daemon 1 leaves after daemon 2 has joined. -/
theorem oldest_lookup_joined : ∃ (s : Sys) (nd : Node) (e : Event), s.nodes 2 = some nd ∧
    (nd.d.lookups e).length = 1 ∧ (∀ l ∈ nd.d.lookups e, l ≠ []) := by
  have h : (Transition.exec Sys.step (fun _ _ => true) .init twoDaemons).any (fun (s : Sys) =>
      (s.nodes 2).any fun nd => nd.d.joined && !nd.d.stopped &&
        (nd.d.lookups (.confchg (fun _ => [⟨2, 20⟩]) [⟨1, 10⟩] [])).length == 1) = true := by
    decide +kernel
  obtain ⟨s, hs, h⟩ := Transition.Run.of_check (P := fun (_ : Sys) (_ : Act) => True)
    (fun _ _ _ => trivial) h
  simp only [Bool.and_eq_true, Option.any_eq_true, beq_iff_eq, Bool.not_eq_true'] at h
  obtain ⟨nd, hn, ⟨hj, hr⟩, hl⟩ := h
  refine ⟨s, nd, _, hn, hl, (oldest_lookup_iff hs hn hr _).2 fun hlose => ?_⟩
  exact absurd (hj.symm.trans hlose.1) (by decide)

/-- Daemon 2 enters, and before its JOIN daemon 1 leaves. -/
def lastLeaves : List Act :=
  let x : MemberItem := ⟨1, 10⟩
  let y : MemberItem := ⟨2, 20⟩
  let boot : UInt32 → Boot := fun _ => ⟨⟨0, 0⟩, 0⟩
  [.confchg (fun _ => [x]) [] [x] boot, .order 1, .deliver 1, .deliver 1,
    .confchg (fun _ => [y, x]) [] [y] boot, .deliver 2, .confchg (fun _ => [y]) [x] [] boot]

theorem oldest_lookup_empty : ¬∀ (s : Sys) (n : UInt32) (nd : Node) (e : Event),
    Runs (fun _ _ => True) .init s → s.nodes n = some nd → nd.d.stopped = false →
    s.log[nd.pos]? = some e → ∀ l ∈ nd.d.lookups e, l ≠ [] := by
  intro hall
  have h : (Transition.exec Sys.step (fun _ _ => true) .init lastLeaves).any (fun (s : Sys) =>
      (s.nodes 2).any fun nd => !nd.d.stopped && (s.log[nd.pos]?).any fun e =>
        decide ([] ∈ nd.d.lookups e)) = true := by decide +kernel
  obtain ⟨s, hs, h⟩ := Transition.Run.of_check (P := fun (_ : Sys) (_ : Act) => True)
    (fun _ _ _ => trivial) h
  simp only [Bool.and_eq_true, decide_eq_true_eq, Option.any_eq_true, Bool.not_eq_true'] at h
  obtain ⟨nd, hn, hr, e, he, hl⟩ := h
  exact hall s 2 nd e hs hn hr he _ hl rfl

end Cpglock
