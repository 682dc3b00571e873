import Cpglock.Group.Proof.Sound

/-!
# Every live daemon runs

No daemon multicasts a HALT, so a daemon stops only by its own leave, and a live daemon is running
(`Runs.running`). The ledger's membership of a node has the pid of the node's daemon.
-/

namespace Cpglock

/-- Daemons run, no HALT is sent, and the ledger knows the daemons' pids. -/
structure Sys.Running (s : Sys) : Prop where
  stopped : ∀ n nd, s.nodes n = some nd → nd.d.stopped = false ∧
    ∀ m ∈ nd.d.out, m.request ≠ .halt
  log : ∀ x m, Event.msg x m ∈ s.log → m.request ≠ .halt
  pid : ∀ n nd g, s.nodes n = some nd → (Ledger.of s.log).views n = some g → g.myPid = nd.d.myPid
  sender : ∀ (k : Nat) x m g, s.log[k]? = some (.msg x m) →
    (Ledger.of (s.log.take k)).views x.nodeid = some g → g.myPid = x.pid

theorem Membership.deliver_stopped {g : Membership} {e : Event}
    (hm : ∀ x m, e = .msg x m → m.request ≠ .halt) (hs : Stays g.myNodeId e) :
    (g.deliver e).stopped = g.stopped := by
  cases e with
  | msg x m =>
    by_cases hj : m.request = .join
    · simp only [deliver, hj, processJoin_stopped]
    · rw [deliver_msg_of_ne hj (hm x m rfl)]
  | confchg members left join => exact configChange_stopped (hs _ _ _ rfl).1

/-- Deliveries keep a running daemon running. -/
theorem Enrolled.deliver_stopped {log : List Event} {n : UInt32} {nd : Node} {e : Event}
    (h : Enrolled log n nd) (he : log[nd.pos]? = some e)
    (hm : ∀ x m, e = .msg x m → m.request ≠ .halt) :
    (nd.d.deliver nd.pos e).stopped = nd.d.stopped := by
  have hd := congrArg Membership.stopped (Daemon.deliver_toMembership nd.d nd.pos e)
  refine hd.trans ?_
  have hle := h.since_le
  by_cases hlt : nd.since < nd.pos
  · exact Membership.deliver_stopped hm (h.me ▸ h.stays _ e hlt he)
  · -- the change that announces the daemon does not remove it
    obtain ⟨members, left, join, he', -, hl⟩ := h.enters
    rw [show nd.pos = nd.since by omega, he'] at he
    obtain rfl := Option.some.inj he
    exact Membership.configChange_stopped (h.me ▸ hl)

/-- The messages of a step are no HALTs. -/
theorem Sys.Local.not_halt {s : Sys} {n : UInt32} {nd : Node} {a : Act} {d : Daemon} {pos : Nat}
    {cause : Option Nat} {seen : List Obs} (h : s.Local n nd a d pos cause seen)
    (ho : ∀ m ∈ nd.d.out, m.request ≠ .halt) : ∀ m ∈ d.out, m.request ≠ .halt := by
  obtain ⟨ms, hms, hne⟩ := h.out
  intro m hm
  rw [hms] at hm
  exact (List.mem_append.1 hm).elim (ho m) fun hm => (hne m hm).2

theorem Sys.Local.myPid {s : Sys} {n : UInt32} {nd : Node} {a : Act} {d : Daemon} {pos : Nat}
    {cause : Option Nat} {seen : List Obs} (h : s.Local n nd a d pos cause seen) :
    d.myPid = nd.d.myPid := by
  cases h with
  | @deliver e _ =>
    have := congrArg Membership.myPid (Daemon.deliver_toMembership nd.d nd.pos e)
    exact this.trans (Membership.deliver_myPid _ _)
  | connect _ => rfl
  | @recv fd m _ => exact congrArg Membership.myPid (Daemon.clientActivityCb_out nd.d fd m).1
  | @close fd _ => exact congrArg Membership.myPid (Daemon.frame_delClient nd.d fd).membership

namespace Sys.Running

theorem append_log {s : Sys} (h : s.Running) {e : Event}
    (he : ∀ x m, e = .msg x m → m.request ≠ .halt) :
    ∀ x m, Event.msg x m ∈ s.log ++ [e] → m.request ≠ .halt := by
  intro x m hm
  rcases List.mem_append.1 hm with hm | hm
  · exact h.log x m hm
  · exact he x m (List.mem_singleton.1 hm).symm

theorem append_sender {s : Sys} (h : s.Running) {e : Event}
    (he : ∀ x m g, e = .msg x m → (Ledger.of s.log).views x.nodeid = some g → g.myPid = x.pid) :
    ∀ (k : Nat) x m g, (s.log ++ [e])[k]? = some (.msg x m) →
      (Ledger.of ((s.log ++ [e]).take k)).views x.nodeid = some g → g.myPid = x.pid := by
  intro k x m g hk hg
  by_cases hlt : k < s.log.length
  · rw [List.getElem?_append_left hlt] at hk
    rw [List.take_append_of_le_length hlt.le] at hg
    exact h.sender k x m g hk hg
  · have hk' := (List.getElem?_eq_some_iff.1 hk).1
    simp only [List.length_append, List.length_singleton] at hk'
    obtain rfl : k = s.log.length := by omega
    rw [List.take_left] at hg
    exact he x m g (by simpa using hk) hg

theorem step {s s' : Sys} {a : Act} (h : s.Running) (hs : s.Sound)
    (hstep : s.step a = some s') : s'.Running := by
  obtain ⟨members, left, join, boot, rfl, hok, rfl⟩ | ⟨n, nd, m, out, rfl, hn, hout, rfl⟩ |
    ⟨n, nd, d, pos, cause, seen, hn, hst, hl, rfl⟩ := Sys.step_cases hstep
  · refine ⟨fun k nd' hk => ?_, h.append_log (by rintro x m ⟨⟩), fun k nd' g hk hg => ?_,
      h.append_sender (by rintro x m g ⟨⟩)⟩
    · obtain ⟨-, ⟨x, -, -, -, rfl⟩ | ⟨-, hk⟩⟩ := nodesAfter_cases hk
      · exact ⟨rfl, by simp [Daemon.start, Daemon.sendJoin, Daemon.sendLockMsg, CpgLockMsg.blank]⟩
      · exact h.stopped k nd' hk
    · obtain ⟨hl, ⟨x, hf, hx, rfl, rfl⟩ | ⟨hf, hk⟩⟩ := nodesAfter_cases hk
      · simp only [Sys.change, Ledger.of_append, Ledger.step, Ledger.viewsAfter, hl, hf,
          if_false, Option.some.injEq] at hg
        rw [← hg, Membership.configChange_myPid]
        rfl
      · simp only [Sys.change, Ledger.of_append, Ledger.step, Ledger.viewsAfter, hl, hf,
          if_false, Option.map_eq_some_iff] at hg
        obtain ⟨g₀, hg₀, rfl⟩ := hg
        rw [Membership.configChange_myPid]
        exact h.pid k nd' g₀ hk hg₀
  · have hne := (h.stopped n nd hn).2 m (by simp [hout])
    refine ⟨fun k nd' hk => ?_, h.append_log ?_, fun k nd' g hk hg => ?_, h.append_sender ?_⟩
    · rcases setNode_cases hk with ⟨rfl, rfl⟩ | ⟨-, hk⟩
      · refine ⟨(h.stopped k nd hn).1, fun m' hm' => (h.stopped k nd hn).2 m' ?_⟩
        rw [hout]
        exact List.mem_cons_of_mem _ hm'
      · exact h.stopped k nd' hk
    · rintro x m' ⟨⟩
      exact hne
    · have hkn : ∃ nd₀, s.nodes k = some nd₀ ∧ nd₀.d.myPid = nd'.d.myPid := by
        rcases setNode_cases hk with ⟨rfl, rfl⟩ | ⟨-, hk⟩
        · exact ⟨nd, hn, rfl⟩
        · exact ⟨nd', hk, rfl⟩
      obtain ⟨nd₀, hk₀, hp⟩ := hkn
      obtain ⟨g₀, hg₀, hme, -⟩ := (hs.node k nd₀ hk₀).join
      simp only [Sys.orderNext, Ledger.of_append, Ledger.step,
        Ledger.viewsAfter_of_stays (stays_msg k _ _) hg₀ hme] at hg
      rw [← Option.some.inj hg, Membership.deliver_myPid, ← hp]
      exact h.pid k nd₀ g₀ hk₀ hg₀
    · rintro x m' g ⟨⟩ hg
      exact h.pid n nd g hn hg
  · have hen := hs.node n nd hn
    refine ⟨fun k nd' hk => ?_, h.log, fun k nd' g hk hg => ?_, h.sender⟩
    · rcases setNode_cases hk with ⟨rfl, rfl⟩ | ⟨-, hk⟩
      · refine ⟨?_, hl.not_halt (h.stopped k nd hn).2⟩
        cases hl with
        | @deliver e he =>
          rw [hen.deliver_stopped he fun x m heq => h.log x m (heq ▸ List.mem_of_getElem? he)]
          exact hst
        | connect _ => exact hst
        | @recv fd m _ =>
          exact (congrArg Membership.stopped (Daemon.clientActivityCb_out nd.d fd m).1).trans hst
        | @close fd _ =>
          exact (congrArg Membership.stopped (Daemon.frame_delClient nd.d fd).membership).trans hst
      · exact h.stopped k nd' hk
    · rcases setNode_cases hk with ⟨rfl, rfl⟩ | ⟨-, hk⟩
      · exact (h.pid k nd g hn hg).trans hl.myPid.symm
      · exact h.pid k nd' g hk hg

end Sys.Running

theorem Runs.running {P : Sys → Act → Prop} {s : Sys} (h : Runs P .init s) : s.Running :=
  h.invariant_of (J := Sys.Sound) Runs.sound
    { stopped := by intro n nd h; cases h
      log := by simp [Sys.init]
      pid := by intro n nd g h; cases h
      sender := by simp [Sys.init] } fun hs _ hi _ hstep => hi.step hs hstep

end Cpglock
