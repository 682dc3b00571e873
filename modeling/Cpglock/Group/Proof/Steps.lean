import Cpglock.Daemon.Proof.Behind
import Cpglock.Daemon.Proof.Frame

/-!
# What one step of the system can do

`step_cases`: a step is a configuration change, the ordering of one waiting message, or a step of
one daemon (`Local`). What a daemon has multicast and not been delivered, ordered or not, is one
list in sending order; `Node.view` is the daemon with this list as its waiting messages. Ordering
leaves the view alone, a delivery of an own message takes its first message off, so an invariant of
the views is an induction over the steps of a single daemon (`Runs.view_invariant`).
-/

namespace Cpglock

namespace Sys

/-- The steps of one running daemon. -/
inductive Local (s : Sys) (n : UInt32) (nd : Node) : Act → Daemon → Nat → Option Nat → List Obs → Prop
  | deliver {e : Event} : s.log[nd.pos]? = some e →
      Local s n nd (.deliver n) (nd.d.deliver nd.pos e) (nd.pos + 1) (some nd.pos) []
  | connect {fd : Nat} : fd ∉ nd.d.clients.map (·.fd) →
      Local s n nd (.connect n fd) (nd.d.insertClient fd) nd.pos none []
  | recv {fd : Nat} {m : CpgLockMsg} : fd ∈ nd.d.clients.map (·.fd) →
      Local s n nd (.recv n fd m) (nd.d.clientActivityCb fd m) nd.pos none [.recv n fd m]
  | close {fd : Nat} : fd ∈ nd.d.clients.map (·.fd) →
      Local s n nd (.close n fd) (nd.d.delClient fd) nd.pos none [.closed n fd]

/-- The three kinds of steps. -/
theorem step_cases {s s' : Sys} {a : Act} (h : s.step a = some s') :
    (∃ members left join boot, a = .confchg members left join boot ∧ s.ConfOk members left join ∧
      s' = s.change members left join boot) ∨
    (∃ n nd m out, a = .order n ∧ s.nodes n = some nd ∧ nd.d.out = m :: out ∧
      s' = s.orderNext n nd m out) ∨
    (∃ n nd d pos cause seen, s.nodes n = some nd ∧ nd.d.stopped = false ∧
      s.Local n nd a d pos cause seen ∧ s' = s.run n nd d pos cause seen) := by
  cases a with
  | confchg members left join boot =>
    simp only [step] at h
    split at h
    · next hok => exact .inl ⟨members, left, join, boot, rfl, hok, (Option.some.inj h).symm⟩
    · cases h
  | order n =>
    obtain ⟨nd, hnd, h⟩ := Option.bind_eq_some_iff.1 h
    cases hout : nd.d.out with
    | nil => rw [hout] at h; cases h
    | cons m out =>
      rw [hout] at h
      exact .inr (.inl ⟨n, nd, m, out, rfl, hnd, hout, (Option.some.inj h).symm⟩)
  | deliver n =>
    obtain ⟨nd, hnd, h⟩ := Option.bind_eq_some_iff.1 h
    split at h
    · cases h
    · next hs =>
      obtain ⟨e, he, rfl⟩ := Option.map_eq_some_iff.1 h
      exact .inr (.inr ⟨n, nd, _, _, _, _, hnd, by simpa using hs, .deliver he, rfl⟩)
  | connect n fd =>
    obtain ⟨nd, hnd, h⟩ := Option.bind_eq_some_iff.1 h
    split at h
    · cases h
    · next hs =>
      obtain ⟨hs, hfd⟩ := not_or.1 hs
      exact .inr (.inr ⟨n, nd, _, _, _, _, hnd, by simpa using hs, .connect hfd,
        (Option.some.inj h).symm⟩)
  | recv n fd m =>
    obtain ⟨nd, hnd, h⟩ := Option.bind_eq_some_iff.1 h
    split at h
    · cases h
    · next hs =>
      obtain ⟨hs, hfd⟩ := not_or.1 hs
      exact .inr (.inr ⟨n, nd, _, _, _, _, hnd, by simpa using hs, .recv (not_not.1 hfd),
        (Option.some.inj h).symm⟩)
  | close n fd =>
    obtain ⟨nd, hnd, h⟩ := Option.bind_eq_some_iff.1 h
    split at h
    · cases h
    · next hs =>
      obtain ⟨hs, hfd⟩ := not_or.1 hs
      exact .inr (.inr ⟨n, nd, _, _, _, _, hnd, by simpa using hs, .close (not_not.1 hfd),
        (Option.some.inj h).symm⟩)

/-! ## The daemons after a step -/

theorem setNode_self (s : Sys) (n : UInt32) (nd : Node) : s.setNode n nd n = some nd := by
  simp [setNode]

theorem setNode_of_ne (s : Sys) {n k : UInt32} (nd : Node) (h : k ≠ n) :
    s.setNode n nd k = s.nodes k := by
  simp [setNode, h]

/-- A daemon after one daemon's change of state is that daemon or another one. -/
theorem setNode_cases {s : Sys} {n k : UInt32} {nd nd' : Node} (h : s.setNode n nd k = some nd') :
    k = n ∧ nd' = nd ∨ k ≠ n ∧ s.nodes k = some nd' := by
  by_cases hk : k = n
  · subst hk
    rw [setNode_self] at h
    exact .inl ⟨rfl, (Option.some.inj h).symm⟩
  · rw [setNode_of_ne _ _ hk] at h
    exact .inr ⟨hk, h⟩

/-- A daemon after a configuration change has not left; it has just started or was there before. -/
theorem nodesAfter_cases {s : Sys} {left join : List MemberItem} {boot : UInt32 → Boot} {n : UInt32}
    {nd : Node} (h : s.nodesAfter left join boot n = some nd) :
    n ∉ left.map (·.nodeid) ∧
    ((∃ x, join.find? (fun x => x.nodeid = n) = some x ∧ x ∈ join ∧ x.nodeid = n ∧
        nd = { d := .start x (boot n), since := s.log.length, pos := s.log.length }) ∨
      join.find? (fun x => x.nodeid = n) = none ∧ s.nodes n = some nd) := by
  simp only [nodesAfter] at h
  split at h
  · cases h
  · next hl =>
    refine ⟨hl, ?_⟩
    split at h
    · next x hx =>
      exact .inl ⟨x, hx, List.mem_of_find?_eq_some hx, by simpa using List.find?_some hx,
        (Option.some.inj h).symm⟩
    · next hx => exact .inr ⟨hx, h⟩

end Sys

/-! ## Own messages on their way -/

/-- The message, if node `n` sent it. -/
def Event.own (n : UInt32) : Event → Option CpgLockMsg
  | .msg s m => if s.nodeid = n then some m else none
  | .confchg _ _ _ => none

/-- The messages of node `n` in the order from position `pos` on. -/
def coming (log : List Event) (n : UInt32) (pos : Nat) : List CpgLockMsg :=
  (log.drop pos).filterMap (Event.own n)

theorem coming_append {log : List Event} {pos : Nat} (h : pos ≤ log.length) (n : UInt32)
    (e : Event) : coming (log ++ [e]) n pos = coming log n pos ++ (e.own n).toList := by
  simp only [coming, List.drop_append_of_le_length h, List.filterMap_append]
  cases he : e.own n <;> simp [he]

theorem coming_eq_cons {log : List Event} {pos : Nat} {e : Event} (h : log[pos]? = some e)
    (n : UInt32) : coming log n pos = (e.own n).toList ++ coming log n (pos + 1) := by
  obtain ⟨hlt, rfl⟩ := List.getElem?_eq_some_iff.1 h
  rw [coming, List.drop_eq_getElem_cons hlt, List.filterMap_cons]
  cases (log[pos]).own n <;> rfl

/-- The daemon, with all its own undelivered messages as its waiting messages. -/
def Node.view (log : List Event) (n : UInt32) (nd : Node) : Daemon :=
  nd.d.behind (coming log n nd.pos)

/-- Another's event in the order leaves the view alone. -/
theorem Node.view_append {log : List Event} {n : UInt32} {nd : Node} (h : nd.pos ≤ log.length)
    {e : Event} (he : e.own n = none) : nd.view (log ++ [e]) n = nd.view log n := by
  simp [view, coming_append h, he]

/-- So does the ordering of a daemon's first waiting message. -/
theorem Node.view_order {log : List Event} {n pid : UInt32} {nd : Node} {m : CpgLockMsg}
    {out : List CpgLockMsg} (h : nd.pos ≤ log.length) (hout : nd.d.out = m :: out) :
    Node.view (log ++ [.msg ⟨n, pid⟩ m]) n { nd with d := { nd.d with out } } = nd.view log n := by
  simp [view, Daemon.behind, coming_append h, hout, Event.own]

/-- A step of one daemon, on its view: `pos` counts the events behind it. An own message is the first
that waits, and waits no longer when it is delivered. -/
inductive ViewStep (log : List Event) (n : UInt32) : Daemon → Nat → Act → Daemon → Nat → Prop
  | msg {v : Daemon} {pos : Nat} {x : MemberItem} {m : CpgLockMsg} {out : List CpgLockMsg} :
      log[pos]? = some (.msg x m) → v.out = (if x.nodeid = n then m :: out else out) →
      ViewStep log n v pos (.deliver n) ({ v with out }.deliver pos (.msg x m)) (pos + 1)
  | change {v : Daemon} {pos : Nat} {members : UInt32 → List MemberItem}
      {left join : List MemberItem} : log[pos]? = some (.confchg members left join) →
      ViewStep log n v pos (.deliver n) (v.deliver pos (.confchg members left join)) (pos + 1)
  | connect {v : Daemon} {pos : Nat} {fd : Nat} : fd ∉ v.clients.map (·.fd) →
      ViewStep log n v pos (.connect n fd) (v.insertClient fd) pos
  | recv {v : Daemon} {pos : Nat} {fd : Nat} {m : CpgLockMsg} : fd ∈ v.clients.map (·.fd) →
      ViewStep log n v pos (.recv n fd m) (v.clientActivityCb fd m) pos
  | close {v : Daemon} {pos : Nat} {fd : Nat} : fd ∈ v.clients.map (·.fd) →
      ViewStep log n v pos (.close n fd) (v.delClient fd) pos

/-- A step of one daemon is a step of its view. -/
theorem Sys.Local.viewStep {s : Sys} {n : UInt32} {nd : Node} {a : Act} {d : Daemon} {pos : Nat}
    {cause : Option Nat} {seen : List Obs} (h : s.Local n nd a d pos cause seen) :
    ViewStep s.log n (nd.view s.log n) nd.pos a (Node.view s.log n { nd with d, pos }) pos := by
  cases h with
  | @deliver e he =>
    have hc := coming_eq_cons he n
    rw [show Node.view s.log n { nd with d := nd.d.deliver nd.pos e, pos := nd.pos + 1 } =
      (nd.d.behind (coming s.log n (nd.pos + 1))).deliver nd.pos e from
        (Daemon.behind_deliver _ _ _).symm]
    cases e with
    | confchg members left join =>
      rw [show coming s.log n (nd.pos + 1) = coming s.log n nd.pos from hc.symm]
      exact .change he
    | msg x m =>
      refine .msg (v := nd.view s.log n) he ?_
      by_cases hx : x.nodeid = n
      · simp [Node.view, hc, Event.own, hx]
      · simp [Node.view, hc, Event.own, hx]
  | connect hfd => exact .connect hfd
  | @recv fd m hfd =>
    rw [show Node.view s.log n { nd with d := nd.d.clientActivityCb fd m, pos := nd.pos } =
      (nd.view s.log n).clientActivityCb fd m from (Daemon.behind_clientActivityCb _ _ _).symm]
    exact .recv hfd
  | @close fd hfd =>
    rw [show Node.view s.log n { nd with d := nd.d.delClient fd, pos := nd.pos } =
      (nd.view s.log n).delClient fd from (Daemon.behind_delClient _ _).symm]
    exact .close hfd

/-- Every position is within the order. -/
def Sys.Bounded (s : Sys) : Prop := ∀ n nd, s.nodes n = some nd → nd.pos ≤ s.log.length

theorem Sys.Local.pos_le {s : Sys} {n : UInt32} {nd : Node} {a : Act} {d : Daemon} {pos : Nat}
    {cause : Option Nat} {seen : List Obs} (h : s.Local n nd a d pos cause seen)
    (hp : nd.pos ≤ s.log.length) : nd.pos ≤ pos ∧ pos ≤ s.log.length := by
  cases h with
  | deliver he =>
    obtain ⟨hlt, -⟩ := List.getElem?_eq_some_iff.1 he
    omega
  | _ => exact ⟨Nat.le_refl _, hp⟩

/-- A daemon's step sends after what waits already, and no JOIN or HALT. -/
theorem Sys.Local.out {s : Sys} {n : UInt32} {nd : Node} {a : Act} {d : Daemon} {pos : Nat}
    {cause : Option Nat} {seen : List Obs} (h : s.Local n nd a d pos cause seen) :
    ∃ ms, d.out = nd.d.out ++ ms ∧ ∀ m ∈ ms, m.request ≠ .join ∧ m.request ≠ .halt := by
  cases h with
  | @deliver e _ => exact (Daemon.grows_deliver nd.d nd.pos e).out
  | connect _ => exact ⟨[], by simp [Daemon.insertClient], by simp⟩
  | @recv fd m _ => exact (Daemon.clientActivityCb_out nd.d fd m).2
  | @close fd _ => exact (Daemon.frame_delClient nd.d fd).out

/-- The induction rule for an invariant of the views: it holds of a daemon that starts, and every
step of a view keeps it. `done` is the part of the order behind the daemon. -/
theorem Sys.view_step {I : (done : List Event) → UInt32 → Daemon → Prop} {s s' : Sys} {a : Act}
    (h : s.step a = some s') (hb : s.Bounded)
    (enter : ∀ members left join boot, a = .confchg members left join boot →
      ∀ x ∈ join, ∀ b, I s.log x.nodeid (.start x b))
    (hstep : ∀ n nd v pos, s.nodes n = some nd → nd.d.stopped = false →
      ViewStep s.log n (nd.view s.log n) nd.pos a v pos →
      I (s.log.take nd.pos) n (nd.view s.log n) → I (s.log.take pos) n v)
    (hi : ∀ n nd, s.nodes n = some nd → I (s.log.take nd.pos) n (nd.view s.log n)) :
    s'.Bounded ∧ ∀ n nd, s'.nodes n = some nd → I (s'.log.take nd.pos) n (nd.view s'.log n) := by
  obtain ⟨members, left, join, boot, rfl, -, rfl⟩ | ⟨n, nd, m, out, rfl, hnd, hout, rfl⟩ |
    ⟨n, nd, d, pos, cause, seen, hnd, hs, hl, rfl⟩ := step_cases h
  · refine ⟨fun k nd' hk => ?_, fun k nd' hk => ?_⟩
    · obtain ⟨-, ⟨x, -, -, -, rfl⟩ | ⟨-, hk⟩⟩ := nodesAfter_cases hk
      · simp [change]
      · have := hb k nd' hk
        simp only [change, List.length_append]
        omega
    · obtain ⟨-, ⟨x, -, hx, rfl, rfl⟩ | ⟨-, hk⟩⟩ := nodesAfter_cases hk
      · have : Node.view (s.log ++ [.confchg members left join]) x.nodeid
            { d := .start x (boot x.nodeid), since := s.log.length, pos := s.log.length } =
            .start x (boot x.nodeid) := by
          rw [Node.view, coming, List.drop_left]
          rfl
        simp only [change, this, List.take_left]
        exact enter _ _ _ _ rfl x hx _
      · have hp := hb k nd' hk
        simp only [change, Node.view_append hp (e := .confchg members left join) rfl,
          List.take_append_of_le_length hp]
        exact hi k nd' hk
  · refine ⟨fun k nd' hk => ?_, fun k nd' hk => ?_⟩
    · have : nd'.pos ≤ s.log.length := by
        rcases setNode_cases hk with ⟨rfl, rfl⟩ | ⟨-, hk⟩
        · exact hb _ nd hnd
        · exact hb k nd' hk
      simp only [orderNext, List.length_append]
      omega
    · rcases setNode_cases hk with ⟨rfl, rfl⟩ | ⟨hne, hk⟩
      · have hp := hb _ nd hnd
        simp only [orderNext, Node.view_order hp hout, List.take_append_of_le_length hp]
        exact hi _ nd hnd
      · have hp := hb k nd' hk
        have hown : (Event.msg ⟨n, nd.d.myPid⟩ m).own k = none := by simp [Event.own, Ne.symm hne]
        simp only [orderNext, Node.view_append hp hown, List.take_append_of_le_length hp]
        exact hi k nd' hk
  · refine ⟨fun k nd' hk => ?_, fun k nd' hk => ?_⟩
    · rcases setNode_cases hk with ⟨rfl, rfl⟩ | ⟨-, hk⟩
      · exact (hl.pos_le (hb _ nd hnd)).2
      · exact hb k nd' hk
    · rcases setNode_cases hk with ⟨rfl, rfl⟩ | ⟨-, hk⟩
      · exact hstep _ nd _ pos hnd hs hl.viewStep (hi _ nd hnd)
      · exact hi k nd' hk

theorem Sys.bounded_init : Sys.init.Bounded := by intro n nd h; cases h

theorem Sys.bounded_step {s s' : Sys} {a : Act} (h : s.step a = some s') (hb : s.Bounded) :
    s'.Bounded :=
  (view_step (I := fun _ _ _ => True) h hb (fun _ _ _ _ _ _ _ _ => trivial)
    (fun _ _ _ _ _ _ _ _ => trivial) fun _ _ _ => trivial).1

end Cpglock
