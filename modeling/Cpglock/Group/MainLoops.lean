import Cpglock.Daemon.Descriptors

/-!
# The main loops of all daemons

`Fleet`: the group of `Group/System.lean`, with the main loop of each daemon in the place of its
handlers. One dispatch delivers any number of events, signals, failed calls of `accept` and dumps
are part of it, and a loop that was stopped goes on until `main` leaves it. Every run of the main
loops is a run of the group (`loops_refine_group`), so what holds in all states of the group holds
of the program.
-/

namespace Cpglock

/-- A process: its main loop, and as for a `Node` its place in the order. -/
structure Host where
  server : Server
  since : Nat
  pos : Nat
  ended : Bool

structure Fleet where
  group : List MemberItem
  log : List Event
  hosts : UInt32 → Option Host

/-- What happens: in a `dispatch` CPG has the next `k` events for the daemon, a `callback` is any
other callback, and in `leave` `main` is behind `qb_loop_run`. -/
inductive FleetAct
  | confchg (members : UInt32 → List MemberItem) (left join : List MemberItem)
      (boot : UInt32 → Boot)
  | order (n : UInt32)
  | callback (n : UInt32) (c : Callback)
  | dispatch (n : UInt32) (err pollin : Bool) (k : Nat) (ok : Bool)
  | leave (n : UInt32)

/-- What the group sees of a process. -/
def Host.node (h : Host) : Node := { d := h.server.d, since := h.since, pos := h.pos }

/-- The events that are delivered before the process stops. -/
def Server.delivered : Server → List (Nat × Event) → Nat
  | _, [] => 0
  | s, e :: es => if s.d.stopped then 0 else (s.deliver e).delivered es + 1

namespace Fleet

def init : Fleet := { group := [], log := [], hosts := fun _ => none }

/-- The group, with what was observed. -/
def sys (f : Fleet) (trace : List Obs) : Sys :=
  { group := f.group, log := f.log, nodes := fun n => (f.hosts n).map Host.node, trace }

def setHost (f : Fleet) (n : UInt32) (h : Host) : Fleet :=
  { f with hosts := fun k => if k = n then some h else f.hosts k }

/-- The processes after a change. -/
def hostsAfter (f : Fleet) (left join : List MemberItem) (boot : UInt32 → Boot) (n : UInt32) :
    Option Host :=
  if n ∈ left.map (·.nodeid) then none
  else
    match join.find? fun x => x.nodeid = n with
    | some x =>
      some
        { server := .start x (boot n)
          since := f.log.length
          pos := f.log.length
          ended := false }
    | none => f.hosts n

/-- The next `k` events for a process. -/
def coming (f : Fleet) (h : Host) (k : Nat) : List (Nat × Event) :=
  (((f.log.drop h.pos).take k).zipIdx h.pos).map Prod.swap

/-- One step, `none` where it is not enabled. -/
def step (f : Fleet) : FleetAct → Option Fleet
  | .confchg members left join boot =>
    if (f.sys []).ConfOk members left join then
      some
        { group := (f.sys []).groupAfter left join
          log := f.log ++ [.confchg members left join]
          hosts := f.hostsAfter left join boot }
    else none
  | .order n =>
    (f.hosts n).bind fun h =>
      match h.server.d.out with
      | [] => none
      | m :: out =>
        some
          { f.setHost n { h with server := { h.server with d := { h.server.d with out } } } with
            log := f.log ++ [.msg ⟨n, h.server.d.myPid⟩ m] }
  | .callback _ (.cpg ..) => none
  | .callback n c =>
    (f.hosts n).bind fun h =>
      if h.ended then none else (h.server.step c).map fun server => f.setHost n { h with server }
  | .dispatch n err pollin k ok =>
    (f.hosts n).bind fun h =>
      if h.ended then none
      else
        (h.server.step (.cpg err pollin (f.coming h k) ok)).map fun server =>
          let got := if err = false ∧ pollin = true then h.server.delivered (f.coming h k) else 0
          f.setHost n { h with server, pos := h.pos + got }
  | .leave n =>
    (f.hosts n).bind fun h =>
      if h.server.d.stopped ∨ ¬h.server.stopRequested then none
      else some (f.setHost n { h with ended := true })

variable {f f' : Fleet} {n : UInt32} {h g : Host} {t : List Obs}

@[simp] theorem setHost_hosts (f : Fleet) (n k : UInt32) (h : Host) :
    (f.setHost n h).hosts k = if k = n then some h else f.hosts k := rfl

theorem setHost_setHost (f : Fleet) (n : UInt32) (h g : Host) :
    (f.setHost n h).setHost n g = f.setHost n g := by
  simp only [setHost, mk.injEq, true_and]
  funext k
  split <;> rfl

theorem sys_setHost (f : Fleet) (n : UInt32) (h : Host) (t : List Obs) :
    (f.setHost n h).sys t = { f.sys t with nodes := (f.sys t).setNode n h.node } := by
  simp only [sys, setHost, Sys.mk.injEq, true_and, and_true]
  funext k
  simp only [Sys.setNode]
  split <;> rfl

theorem sys_node (hn : f.hosts n = some h) : (f.sys t).nodes n = some h.node := by
  show (f.hosts n).map Host.node = _
  rw [hn, Option.map_some]

/-- A process that does not change. -/
theorem sys_same (hn : f.hosts n = some h) (hg : g.node = h.node) :
    (f.setHost n g).sys t = f.sys t := by
  rw [sys_setHost, hg]
  simp only [sys, Sys.mk.injEq, true_and, and_true]
  funext k
  simp only [Sys.setNode]
  split
  · next hk => rw [hk, hn, Option.map_some]
  · rfl

theorem reaches_same (hn : f.hosts n = some h) (hg : g.node = h.node) :
    ∃ t', Transition.Reaches Sys.step (f.sys t) ((f.setHost n g).sys t') := by
  refine ⟨t, ?_⟩
  rw [sys_same hn hg]
  exact .start

/-- A step of the group that a process makes. -/
theorem reaches_run {a : Act} {d : Daemon} {pos : Nat} {cause : Option Nat} {seen : List Obs}
    (ha : (f.sys t).step a = some ((f.sys t).run n h.node d pos cause seen))
    (hd : g.node = { h.node with d, pos }) :
    ∃ t', Transition.Reaches Sys.step (f.sys t) ((f.setHost n g).sys t') := by
  refine ⟨t ++ seen ++ Sys.effects n cause h.server.d d, ?_⟩
  have hrun : (f.sys t).run n h.node d pos cause seen =
      (f.setHost n g).sys (t ++ seen ++ Sys.effects n cause h.server.d d) := by
    rw [sys_setHost, hd]
    rfl
  exact .next .start trivial (ha.trans (congrArg some hrun))

theorem foldl_deliver_stopped {s : Server} (hs : s.d.stopped = true) (es : List (Nat × Event)) :
    es.foldl Server.deliver s = s := by
  induction es with
  | nil => rfl
  | cons e es ih =>
    rw [List.foldl_cons, Server.deliver, if_pos hs]
    exact ih

/-- The events of a dispatch are delivered one after the other. -/
theorem reaches_deliver {es : List Event} (hn : f.hosts n = some h)
    (hes : es <+: f.log.drop h.pos) :
    ∃ t', Transition.Reaches Sys.step (f.sys t)
      ((f.setHost n { h with
        server := ((es.zipIdx h.pos).map Prod.swap).foldl Server.deliver h.server
        pos := h.pos + h.server.delivered ((es.zipIdx h.pos).map Prod.swap) }).sys t') := by
  induction es generalizing f h t with
  | nil => exact ⟨t, sys_same (t := t) hn rfl ▸ .start⟩
  | cons e es ih =>
    rw [List.zipIdx_cons, List.map_cons, List.foldl_cons, Server.delivered]
    by_cases hs : h.server.d.stopped = true
    · rw [if_pos hs, Prod.swap_prod_mk, Server.deliver, if_pos hs, foldl_deliver_stopped hs]
      exact ⟨t, sys_same (t := t) hn rfl ▸ .start⟩
    · have hd : h.server.deliver (h.pos, e) = h.server.run (h.server.d.deliver h.pos e) := if_neg hs
      obtain ⟨rest, hrest⟩ := hes
      have he : f.log[h.pos]? = some e := by
        rw [← List.head?_drop, ← hrest]
        rfl
      have hes : es <+: f.log.drop (h.pos + 1) := by
        rw [← List.tail_drop, ← hrest]
        exact ⟨rest, rfl⟩
      have hone : (f.sys t).step (.deliver n) = some ((f.sys t).run n h.node
          (h.server.d.deliver h.pos e) (h.pos + 1) (some h.pos) []) := by
        show ((f.sys t).nodes n).bind _ = _
        rw [sys_node hn, Option.bind_some]
        show (if h.server.d.stopped = true then none else (f.log[h.pos]?).map _) = _
        rw [if_neg hs, he]
        rfl
      let next : Host := { h with server := h.server.deliver (h.pos, e), pos := h.pos + 1 }
      obtain ⟨t₁, h₁⟩ := reaches_run (g := next) hone (by
        show Node.mk (h.server.deliver (h.pos, e)).d h.since (h.pos + 1) = _
        rw [hd]
        rfl)
      obtain ⟨t₂, h₂⟩ := ih (f := f.setHost n next) (h := next) (t := t₁) (by simp) hes
      refine ⟨t₂, h₁.trans ?_⟩
      rw [setHost_setHost] at h₂
      rw [if_neg hs, ← Nat.add_assoc, Nat.add_right_comm]
      exact h₂

/-- The clients of every daemon are those of its open descriptors. -/
def Sound (f : Fleet) : Prop := ∀ n h, f.hosts n = some h → h.server.Inv

theorem Sound.setHost (hf : f.Sound) (hg : g.server.Inv) : (f.setHost n g).Sound := by
  intro k h hk
  rw [setHost_hosts] at hk
  split at hk
  · cases hk
    exact hg
  · exact hf k h hk

theorem sys_hostsAfter (f : Fleet) (left join : List MemberItem) (boot : UInt32 → Boot)
    (n : UInt32) :
    (f.hostsAfter left join boot n).map Host.node = (f.sys t).nodesAfter left join boot n := by
  unfold hostsAfter Sys.nodesAfter
  split
  · rfl
  · cases join.find? fun x => x.nodeid = n <;> rfl

/-- A callback that is not a dispatch. -/
theorem reaches_callback (hn : f.hosts n = some h) (hinv : h.server.Inv) {c : Callback}
    (hc : ∀ err pollin events ok, c ≠ .cpg err pollin events ok) {server : Server}
    (hs : h.server.step c = some server) :
    ∃ t', Transition.Reaches Sys.step (f.sys t) ((f.setHost n { h with server }).sys t') := by
  unfold Server.step at hs
  split at hs
  · cases hs
  · next hen =>
    obtain ⟨hstop, hen⟩ := not_or.1 hen
    rw [not_not] at hen
    cases c with
    | signal =>
      obtain rfl := Option.some.inj hs
      unfold Server.flagShutdown
      split <;> exact reaches_same hn rfl
    | listen err accepts =>
      simp only [Server.clientConnectCb] at hs
      split at hs
      · obtain rfl := Option.some.inj hs
        exact reaches_same hn rfl
      · split at hs
        · obtain rfl := Option.some.inj hs
          exact reaches_same hn rfl
        · obtain ⟨a, ha, rfl⟩ := Option.map_eq_some_iff.1 hs
          cases a with
          | failed => exact reaches_same hn rfl
          | client fd =>
            have hfree := hen _ (List.mem_of_find?_eq_some ha) fd rfl
            rw [hinv.opened] at hfree
            have hconnect : (f.sys t).step (.connect n fd) = some ((f.sys t).run n h.node
                (h.server.d.insertClient fd) h.pos none []) := by
              show ((f.sys t).nodes n).bind _ = _
              rw [sys_node hn, Option.bind_some]
              exact if_neg (not_or.2 ⟨hstop, hfree⟩)
            exact reaches_run hconnect rfl
    | client fd err read opened =>
      have hclose : (f.sys t).step (.close n fd) =
          some ((f.sys t).run n h.node (h.server.d.delClient fd) h.pos none [.closed n fd]) := by
        show ((f.sys t).nodes n).bind _ = _
        rw [sys_node hn, Option.bind_some]
        exact if_neg (not_or.2 ⟨hstop, not_not.2 hen⟩)
      obtain rfl := Option.some.inj hs
      unfold Server.clientActivityCb
      split
      · exact reaches_run hclose rfl
      · split
        · exact reaches_run hclose rfl
        · next m _ =>
          have hrecv : (f.sys t).step (.recv n fd m) = some ((f.sys t).run n h.node
              (h.server.d.clientActivityCb fd m) h.pos none [.recv n fd m]) := by
            show ((f.sys t).nodes n).bind _ = _
            rw [sys_node hn, Option.bind_some]
            exact if_neg (not_or.2 ⟨hstop, not_not.2 hen⟩)
          dsimp only
          split
          · split <;> exact reaches_run hrecv rfl
          · exact reaches_run hrecv rfl
    | cpg err pollin events ok => exact absurd rfl (hc err pollin events ok)

/-- A dispatch. -/
theorem reaches_dispatch (hn : f.hosts n = some h) {err pollin ok : Bool} {k : Nat}
    {server : Server} (hs : h.server.step (.cpg err pollin (f.coming h k) ok) = some server) :
    ∃ t', Transition.Reaches Sys.step (f.sys t) ((f.setHost n { h with
      server
      pos := h.pos + if err = false ∧ pollin = true then h.server.delivered (f.coming h k)
        else 0 }).sys t') := by
  unfold Server.step at hs
  split at hs
  · cases hs
  · obtain rfl := Option.some.inj hs
    unfold Server.cpgEventCb
    cases err with
    | true => exact reaches_same hn rfl
    | false =>
      cases pollin with
      | false => exact reaches_same hn rfl
      | true =>
        rw [if_neg (by decide), if_pos rfl, if_pos (⟨rfl, rfl⟩ : false = false ∧ true = true)]
        obtain ⟨t', ht'⟩ := reaches_deliver (t := t) hn (List.take_prefix k (f.log.drop h.pos))
        refine ⟨t', ?_⟩
        rw [sys_setHost] at ht' ⊢
        dsimp only
        split <;> exact ht'

/-- What a step does to the processes, and how the group gets there. -/
theorem step_spec (hf : f.Sound) {a : FleetAct} (ha : f.step a = some f') (t : List Obs) :
    f'.Sound ∧ ∃ t', Transition.Reaches Sys.step (f.sys t) (f'.sys t') := by
  cases a with
  | confchg members left join boot =>
    simp only [step] at ha
    split at ha
    · next hok =>
      obtain rfl := Option.some.inj ha
      constructor
      · intro n h hn
        simp only [hostsAfter] at hn
        split at hn
        · cases hn
        · split at hn
          · next x _ =>
            obtain rfl := Option.some.inj hn
            exact .start x (boot n)
          · exact hf n h hn
      · refine ⟨t ++ left.map fun x => .left x.nodeid, .next (a := .confchg members left join boot)
          .start trivial ((if_pos hok).trans (congrArg some ?_))⟩
        simp only [Sys.change, sys, Sys.mk.injEq, true_and, and_true]
        exact ⟨rfl, funext fun n => (sys_hostsAfter f left join boot n).symm⟩
    · cases ha
  | order n =>
    obtain ⟨h, hn, ha⟩ := Option.bind_eq_some_iff.1 ha
    split at ha
    · cases ha
    · next m out hout =>
      obtain rfl := Option.some.inj ha
      constructor
      · have hinv := hf n h hn
        exact hf.setHost (n := n) ⟨hinv.opened, hinv.calls, hinv.shut⟩
      · have hstep : (f.sys t).step (.order n) = some ((f.sys t).orderNext n h.node m out) := by
          show ((f.sys t).nodes n).bind _ = _
          rw [sys_node hn, Option.bind_some]
          show (match h.server.d.out with | [] => none | m :: out => some _) = _
          rw [hout]
        refine ⟨t, .next (a := .order n) .start trivial (hstep.trans (congrArg some ?_))⟩
        have hnodes := congrArg Sys.nodes (sys_setHost f n
          { h with server := { h.server with d := { h.server.d with out } } } t)
        simp only [Sys.orderNext, sys, Sys.mk.injEq, true_and, and_true]
        exact ⟨rfl, rfl, hnodes.symm⟩
  | callback n c =>
    have hcall : (∀ err pollin events ok, c ≠ .cpg err pollin events ok) ∧ ∃ h server,
        f.hosts n = some h ∧ h.server.step c = some server ∧
          f' = f.setHost n { h with server } := by
      cases c with
      | cpg => cases ha
      | _ =>
        refine ⟨by simp, ?_⟩
        obtain ⟨h, hn, ha⟩ := Option.bind_eq_some_iff.1 ha
        split at ha
        · cases ha
        · obtain ⟨server, hs, rfl⟩ := Option.map_eq_some_iff.1 ha
          exact ⟨h, server, hn, hs, rfl⟩
    obtain ⟨hc, h, server, hn, hs, rfl⟩ := hcall
    exact ⟨hf.setHost ((hf n h hn).step hs), reaches_callback hn (hf n h hn) hc hs⟩
  | dispatch n err pollin k ok =>
    obtain ⟨h, hn, ha⟩ := Option.bind_eq_some_iff.1 ha
    split at ha
    · cases ha
    · obtain ⟨server, hs, rfl⟩ := Option.map_eq_some_iff.1 ha
      exact ⟨hf.setHost ((hf n h hn).step hs), reaches_dispatch hn hs⟩
  | leave n =>
    obtain ⟨h, hn, ha⟩ := Option.bind_eq_some_iff.1 ha
    split at ha
    · cases ha
    · obtain rfl := Option.some.inj ha
      exact ⟨hf.setHost (n := n) (hf n h hn), reaches_same hn rfl⟩

end Fleet

/-- The main loops of the daemons are a run of the group. -/
theorem loops_refine_group {f : Fleet}
    (h : Transition.Run Fleet.step (fun _ _ => True) .init f) :
    ∃ s, Runs (fun _ _ => True) .init s ∧ s.group = f.group ∧ s.log = f.log ∧
      ∀ n, s.nodes n = (f.hosts n).map Host.node := by
  have hsound : ∀ {f}, Transition.Run Fleet.step (fun _ _ => True) .init f → f.Sound := by
    intro f h
    refine h.invariant (I := Fleet.Sound) (fun n h hn => by cases hn) ?_
    exact fun hf _ hs => (Fleet.step_spec hf hs []).1
  have hsim : ∃ s, (∃ t, s = f.sys t) ∧ Transition.Reaches Sys.step .init s := by
    refine h.simulates (R := fun f s => ∃ t, s = Fleet.sys f t) ⟨[], rfl⟩ ?_
    rintro f f' a s hr - hs ⟨t, rfl⟩
    obtain ⟨t', ht'⟩ := (Fleet.step_spec (hsound hr) hs t).2
    exact ⟨_, ⟨t', rfl⟩, ht'⟩
  obtain ⟨_, ⟨t, rfl⟩, hs⟩ := hsim
  exact ⟨f.sys t, hs, rfl, rfl, fun n => rfl⟩

/-- Two events in one dispatch, a lock, and a signal that is refused before the one that is not. -/
def oneLoop : List FleetAct :=
  [.confchg (fun _ => [⟨1, 10⟩]) [] [⟨1, 10⟩] fun _ => ⟨⟨0, 0⟩, 0⟩, .order 1,
    .dispatch 1 false true 2 true, .callback 1 (.listen false [.failed .eintr, .client 5]),
    .callback 1 (.client 5 false (some (.lockMsg .a 100 1 0)) false), .order 1,
    .dispatch 1 false true 1 true, .order 1, .dispatch 1 false true 1 true, .callback 1 .signal,
    .callback 1 (.client 5 true none false), .callback 1 .signal, .leave 1]

theorem loops_refine_group_one : ∃ (f : Fleet) (h : Host), f.hosts 1 = some h ∧ h.ended = true ∧
    h.pos = 4 ∧ h.server.d.localLockid = 1 ∧ ∃ s, Runs (fun _ _ => True) .init s ∧
      s.nodes 1 = some h.node ∧ s.log.length = 4 := by
  have h : (Transition.exec Fleet.step (fun _ _ => true) .init oneLoop).any (fun f =>
      decide (f.log.length = 4) && (f.hosts 1).any fun h =>
        h.ended && decide (h.pos = 4) && decide (h.server.d.localLockid = 1)) = true := by
    decide +kernel
  obtain ⟨f, hf, h⟩ := Transition.Run.of_check (P := fun _ _ => True) (fun _ _ _ => trivial) h
  simp only [Option.any_eq_true, Bool.and_eq_true, decide_eq_true_eq] at h
  obtain ⟨hlen, h, hn, ⟨hended, hpos⟩, hid⟩ := h
  obtain ⟨s, hs, -, hlog, hnodes⟩ := loops_refine_group hf
  exact ⟨f, h, hn, hended, hpos, hid, s, hs, by rw [hnodes, hn, Option.map_some],
    by rw [hlog, hlen]⟩

end Cpglock
