import Cpglock.Daemon.MainLoop
import Cpglock.Group.Proof.Connections

/-!
# The clients' descriptors

From start to end the daemon writes to and closes descriptors of connected clients only, and closes
each of them (`descriptors_owned`), but for one call: `client_activity_cb` closes the descriptor of
a DUMP again after `fclose`. A daemon that a signal stops has no clients then, nor gets any
(`signal_leaves_nobody`).
-/

namespace Cpglock

open FdCall

/-- The descriptor was just closed. -/
def Again (pre : List (FdCall CpgLockMsg)) (c : FdCall CpgLockMsg) : Prop :=
  ∃ fd pre', c = closes fd ∧ pre = pre' ++ [closes fd] ∧ fd ∈ openAfter pre'

theorem again_not_opens (pre : List (FdCall CpgLockMsg)) (fd : Nat) : ¬Again pre (opens fd) := by
  rintro ⟨_, _, h, -⟩
  cases h

/-- What the handlers of a delivery write goes to clients. -/
theorem Daemon.reply_to_client {d : Daemon} {now : Nat} {e : Event} {rs : List (Nat × CpgLockMsg)}
    (hrs : (d.deliver now e).replies = d.replies ++ rs) : ∀ p ∈ rs, p.1 ∈ d.clients.map (·.fd) := by
  have hwritten : ∀ {pid m}, ∀ p ∈ d.written pid m, p.1 ∈ d.clients.map (·.fd) := by
    intro pid m p hp
    obtain ⟨c, hc, rfl⟩ := List.mem_map.1 hp
    exact List.mem_map_of_mem (List.mem_of_find?_eq_some (Option.mem_toList.1 hc))
  have hnone : (d.deliver now e).replies = d.replies → ∀ p ∈ rs, p.1 ∈ d.clients.map (·.fd) := by
    intro he p hp
    rw [hrs, List.append_right_eq_self] at he
    rw [he] at hp
    cases hp
  cases e with
  | confchg members left join =>
    exact hnone (Daemon.silent_cpgConfigChange d (members d.myNodeId) left join).replies
  | msg x m =>
    cases Daemon.writes_deliver d now x m with
    | silent h => exact hnone h.replies
    | grant _ _ _ _ _ _ h => exact List.append_cancel_left (hrs.symm.trans h) ▸ hwritten
    | nak _ _ _ _ _ _ h => exact List.append_cancel_left (hrs.symm.trans h) ▸ hwritten

theorem Daemon.fds_unlinkClient (d : Daemon) (fd : Nat) :
    (d.unlinkClient fd).clients.map (·.fd) = (d.clients.map (·.fd)).erase fd := by
  rw [List.erase_eq_eraseP', List.eraseP_map]
  rfl

namespace Server

/-- The open descriptors are those of the clients, and after a signal has ended the loop there are
none. -/
structure Inv (s : Server) : Prop where
  opened : openAfter s.calls = s.d.clients.map (·.fd)
  calls : AllFind Again s.calls
  shut : s.shutdownPending = true → s.d.clients = []

variable {s s' : Server}

theorem Inv.nodup (h : s.Inv) : (s.d.clients.map (·.fd)).Nodup :=
  h.opened ▸ h.calls.nodup again_not_opens

/-- Handlers that connect and disconnect nobody, and write to clients. -/
theorem Inv.run (h : s.Inv) {d : Daemon} {rs : List (Nat × CpgLockMsg)}
    (hc : d.clients.map (·.fd) = s.d.clients.map (·.fd)) (hrs : d.replies = s.d.replies ++ rs)
    (hto : ∀ p ∈ rs, p.1 ∈ s.d.clients.map (·.fd)) : (s.run d).Inv := by
  have hcalls : (s.run d).calls = s.calls ++ rs.map fun p => uses p.1 p.2 := by
    rw [Server.run, hrs, List.drop_left]
  refine ⟨?_, ?_, fun hs => ?_⟩
  · rw [hcalls, openAfter_uses, h.opened]
    exact hc.symm
  · rw [hcalls]
    exact h.calls.uses (h.opened ▸ hto)
  · have hnil := h.shut hs
    rw [hnil] at hc
    exact List.map_eq_nil_iff.1 hc

theorem Inv.deliver (h : s.Inv) (e : Nat × Event) : (s.deliver e).Inv := by
  unfold Server.deliver
  split
  · exact h
  · have hg := Daemon.grows_deliver s.d e.1 e.2
    obtain ⟨rs, hrs⟩ := hg.replies
    exact h.run (congrArg (List.map _) hg.clients) hrs (Daemon.reply_to_client hrs)

/-- A client is disconnected, its descriptor closed. -/
theorem Inv.unlink (h : s.Inv) {fd : Nat} (hfd : fd ∈ s.d.clients.map (·.fd)) {d : Daemon}
    {calls : List (FdCall CpgLockMsg)} (hcalls : calls = s.calls ++ [closes fd])
    (hc : d.clients = (s.d.unlinkClient fd).clients) : Inv { s with d, calls } := by
  refine ⟨?_, ?_, fun hs => ?_⟩
  · rw [hcalls, openAfter_concat, after, h.opened, hc, Daemon.fds_unlinkClient]
  · rw [hcalls]
    exact allFind_concat.2 ⟨h.calls, .inl (h.opened ▸ hfd)⟩
  · rw [h.shut hs] at hfd
    cases hfd

theorem Inv.delClient (h : s.Inv) {fd : Nat} (hfd : fd ∈ s.d.clients.map (·.fd)) :
    (s.delClient fd).Inv := by
  refine h.unlink hfd ?_ (Daemon.frame_delClient s.d fd).clients
  have hrep : (s.d.delClient fd).replies = (s.close fd).d.replies :=
    (s.d.silent_delClient fd).replies
  rw [hrep, List.drop_length]
  exact List.append_nil _

/-- The second `close` of a DUMP. -/
theorem Inv.close_again (h : s.Inv) {fd : Nat} {calls : List (FdCall CpgLockMsg)}
    (hcalls : s.calls = calls ++ [closes fd]) (hfd : fd ∈ openAfter calls) : (s.close fd).Inv := by
  have hgone : fd ∉ openAfter s.calls := by
    have hc : AllFind Again calls := (allFind_concat.1 (hcalls ▸ h.calls)).1
    rw [hcalls, openAfter_concat, after]
    exact (hc.nodup again_not_opens).not_mem_erase
  refine ⟨?_, allFind_concat.2 ⟨h.calls, .inr ⟨fd, calls, rfl, hcalls, hfd⟩⟩, h.shut⟩
  show openAfter (s.calls ++ [closes fd]) = _
  rw [openAfter_concat, after, List.erase_of_not_mem hgone]
  exact h.opened

theorem Inv.clientActivityCb (h : s.Inv) {fd : Nat} (hfd : fd ∈ s.d.clients.map (·.fd)) (err : Bool)
    (read : Option CpgLockMsg) (opened : Bool) : (s.clientActivityCb fd err read opened).Inv := by
  unfold Server.clientActivityCb
  split
  · exact h.delClient hfd
  · split
    · exact h.delClient hfd
    · next m =>
      have hrep : (s.d.clientActivityCb fd m).replies = s.d.replies ++ [] :=
        (s.d.silent_clientActivityCb fd m).replies.trans (List.append_nil _).symm
      have hclients := s.d.clients_clientActivityCb fd m
      dsimp only
      split
      · next hm =>
        rw [if_neg (by simp [hm]), if_pos hm] at hclients
        have hcalls : ((s.run (s.d.clientActivityCb fd m)).close fd).calls =
            s.calls ++ [closes fd] := by
          show s.calls ++ (List.drop _ (s.d.clientActivityCb fd m).replies).map _ ++ _ = _
          rw [hrep, List.drop_left, List.map_nil, List.append_nil]
        have hone : ((s.run (s.d.clientActivityCb fd m)).close fd).Inv :=
          h.unlink hfd hcalls hclients
        split
        · exact hone.close_again hcalls (h.opened ▸ hfd)
        · exact hone
      · next hm =>
        refine h.run ?_ hrep fun p hp => by cases hp
        rw [hclients]
        split
        · rw [Daemon.setClientPid, List.map_map]
          refine List.map_congr_left fun c _ => ?_
          simp only [Function.comp_apply]
          split <;> rfl
        · rfl

theorem Inv.step (h : s.Inv) {c : Callback} (hs : s.step c = some s') : s'.Inv := by
  unfold Server.step at hs
  split at hs
  · cases hs
  · next hen =>
    rw [not_or, not_not] at hen
    cases c with
    | signal =>
      obtain rfl := Option.some.inj hs
      unfold flagShutdown
      split
      · exact h
      · next hnil => exact ⟨h.opened, h.calls, fun _ => not_not.1 hnil⟩
    | listen err accepts =>
      simp only [clientConnectCb] at hs
      split at hs
      · obtain rfl := Option.some.inj hs
        exact h
      · split at hs
        · obtain rfl := Option.some.inj hs
          exact h
        · next hpending =>
          obtain ⟨a, ha, rfl⟩ := Option.map_eq_some_iff.1 hs
          cases a with
          | failed => exact h
          | client fd =>
            have hfree := hen.2 _ (List.mem_of_find?_eq_some ha) fd rfl
            refine ⟨?_, allFind_concat.2 ⟨h.calls, .inl hfree⟩, fun hs => absurd hs hpending⟩
            have hclients : (s.d.insertClient fd).clients = s.d.clients ++ [⟨fd, 0⟩] := rfl
            show openAfter (s.calls ++ [opens fd]) = (s.d.insertClient fd).clients.map (·.fd)
            rw [openAfter_concat, after, h.opened, hclients, List.map_append]
            rfl
    | client fd err read opened =>
      obtain rfl := Option.some.inj hs
      exact h.clientActivityCb hen.2 err read opened
    | cpg err pollin events ok =>
      obtain rfl := Option.some.inj hs
      have hstop : ∀ {s : Server}, s.Inv → s.loopStop.Inv := fun h => ⟨h.opened, h.calls, h.shut⟩
      have hfold : (events.foldl Server.deliver s).Inv := by
        clear hs hen
        induction events generalizing s with
        | nil => exact h
        | cons e events ih => exact ih (h.deliver e)
      unfold cpgEventCb
      split
      · exact hstop h
      · split
        · dsimp only
          split
          · exact hfold
          · exact hstop hfold
        · exact h

theorem Inv.start (x : MemberItem) (b : Boot) : (Server.start x b).Inv :=
  ⟨rfl, allFind_nil, fun h => by cases h⟩

theorem inv {P : Server → Callback → Prop} {x : MemberItem} {b : Boot}
    (h : Transition.Run Server.step P (.start x b) s) : s.Inv :=
  h.invariant (I := Inv) (.start x b) fun hi _ hs => hi.step hs

/-! ## The end -/

theorem Inv.dropRequest (h : s.Inv) (r : RequestItem) : (s.dropRequest r).Inv := by
  have hset : ∀ {s : Server} (requests : List RequestItem), s.Inv →
      Inv { s with d := { s.d with requests } } := fun _ h => ⟨h.opened, h.calls, h.shut⟩
  unfold Server.dropRequest
  refine hset _ ?_
  split
  · have hrep : (s.d.nakClient r).1.replies = _ := s.d.notifyClient_replies r.ownerPid _
    refine h.run ?_ hrep fun p hp => ?_
    · rw [Daemon.nakClient, Daemon.notifyClient]
      split <;> rfl
    · obtain ⟨c, hc, rfl⟩ := List.mem_map.1 hp
      exact List.mem_map_of_mem (List.mem_of_find?_eq_some (Option.mem_toList.1 hc))
  · exact h

theorem Inv.dropAllRequests (h : s.Inv) : s.dropAllRequests.Inv := by
  unfold Server.dropAllRequests
  generalize s.d.requests = rs
  induction rs generalizing s with
  | nil => exact h
  | cons r rs ih => exact ih (h.dropRequest r)

/-- The clients' descriptors are closed in the order of the list. -/
theorem dropAllClients_eq (s : Server) : s.dropAllClients =
    { s with
      d := { s.d with clients := [] }
      calls := s.calls ++ (s.d.clients.map (·.fd)).map closes } := by
  suffices hs : ∀ (cs : List ClientItem) (s : Server), s.d.clients = cs → cs.foldl dropClient s =
      { s with
        d := { s.d with clients := [] }
        calls := s.calls ++ (cs.map (·.fd)).map closes } from
    hs _ s rfl
  intro cs
  induction cs with
  | nil =>
    intro s hc
    show s = { s with d := { s.d with clients := [] }, calls := s.calls ++ [] }
    rw [List.append_nil, ← hc]
  | cons c cs ih =>
    intro s hc
    rw [List.foldl_cons, ih _ (by
      show s.d.clients.erase c = cs
      rw [hc, List.erase_cons_head])]
    simp [dropClient, close]

/-- Nothing but the NAKs and the closing of the clients goes to descriptors. -/
theorem teardown_calls (s : Server) : s.teardown.calls =
    s.dropAllLocks.dropAllRequests.calls ++
      (s.dropAllLocks.dropAllRequests.d.clients.map (·.fd)).map closes :=
  congrArg Server.calls (dropAllClients_eq _)

theorem Inv.teardown (h : s.Inv) :
    AllFind Again s.teardown.calls ∧ openAfter s.teardown.calls = [] := by
  have hlocks : s.dropAllLocks.Inv := ⟨h.opened, h.calls, h.shut⟩
  have hreq := hlocks.dropAllRequests
  rw [teardown_calls, ← hreq.opened]
  exact hreq.calls.close_all

/-- Without clients nobody gets a NAK. -/
theorem dropAllRequests_calls (h : s.d.clients = []) :
    s.dropAllRequests.calls = s.calls ∧ s.dropAllRequests.d.clients = [] := by
  unfold Server.dropAllRequests
  generalize s.d.requests = rs
  induction rs generalizing s with
  | nil => exact ⟨rfl, h⟩
  | cons r rs ih =>
    have hone : (s.dropRequest r).calls = s.calls ∧ (s.dropRequest r).d.clients = [] := by
      have hnak : (s.d.nakClient r).1 = s.d := by
        simp [Daemon.nakClient, Daemon.notifyClient, Daemon.findClient, h]
      unfold Server.dropRequest
      split
      · rw [hnak]
        refine ⟨?_, h⟩
        show s.calls ++ (s.d.replies.drop s.d.replies.length).map _ = s.calls
        rw [List.drop_length]
        exact List.append_nil _
      · exact ⟨rfl, h⟩
    rw [List.foldl_cons]
    obtain ⟨hcalls, hclients⟩ := ih hone.2
    exact ⟨hcalls.trans hone.1, hclients⟩

/-- CPG does not fail. -/
def CpgLives (_ : Server) : Callback → Prop
  | .cpg err _ _ ok => err = false ∧ ok = true
  | _ => True

instance (s : Server) (c : Callback) : Decidable (s.CpgLives c) := by
  refine c.casesOn ?_ ?_ ?_ ?_ <;> intros <;> dsimp only [CpgLives] <;> infer_instance

/-- Handlers do not touch the flags. -/
theorem deliver_flags {events : List (Nat × Event)} :
    (events.foldl deliver s).stopRequested = s.stopRequested ∧
      (events.foldl deliver s).shutdownPending = s.shutdownPending := by
  induction events generalizing s with
  | nil => exact ⟨rfl, rfl⟩
  | cons e events ih =>
    rw [List.foldl_cons, ih.1, ih.2]
    unfold Server.deliver
    split <;> exact ⟨rfl, rfl⟩

theorem stop_of_signal {x : MemberItem} {b : Boot}
    (h : Transition.Run Server.step CpgLives (.start x b) s) :
    s.stopRequested = true → s.shutdownPending = true := by
  refine h.invariant (I := fun s => s.stopRequested = true → s.shutdownPending = true)
    (fun h => by cases h) ?_
  intro s s' c hi hp hs
  unfold Server.step at hs
  split at hs
  · cases hs
  · cases c with
    | signal =>
      obtain rfl := Option.some.inj hs
      unfold flagShutdown
      split
      · exact hi
      · exact fun _ => rfl
    | listen err accepts =>
      simp only [clientConnectCb] at hs
      split at hs
      · obtain rfl := Option.some.inj hs
        exact hi
      · split at hs
        · obtain rfl := Option.some.inj hs
          exact hi
        · obtain ⟨a, -, rfl⟩ := Option.map_eq_some_iff.1 hs
          cases a <;> exact hi
    | client fd err read opened =>
      obtain rfl := Option.some.inj hs
      unfold Server.clientActivityCb
      split
      · exact hi
      · split
        · exact hi
        · dsimp only
          split
          · split <;> exact hi
          · exact hi
    | cpg err pollin events ok =>
      obtain rfl := Option.some.inj hs
      obtain ⟨rfl, rfl⟩ := hp
      unfold cpgEventCb
      rw [if_neg (by simp)]
      split
      · rw [if_pos rfl, deliver_flags.1, deliver_flags.2]
        exact hi
      · exact hi

end Server

/-- The daemon writes to and closes its clients' descriptors only, each of them is open until it is
closed, and in the end none is open; only the descriptor of a DUMP is closed twice in a row. -/
theorem descriptors_owned {x : MemberItem} {b : Boot} {s : Server}
    (h : Transition.Run Server.step (fun _ _ => True) (.start x b) s) :
    openAfter s.calls = s.d.clients.map (·.fd) ∧ (openAfter s.calls).Nodup ∧
      AllFind Again s.calls ∧ AllFind Again s.teardown.calls ∧ openAfter s.teardown.calls = [] := by
  have hinv := Server.inv h
  exact ⟨hinv.opened, hinv.calls.nodup again_not_opens, hinv.calls, hinv.teardown⟩

/-- Process 100 waits for `a`, another client asks for a dump, and CPG fails. -/
def failedCpg : List Callback :=
  [.listen false [.failed .eintr, .client 7], .listen false [.client 8],
    .cpg false true [(0, .msg ⟨1, 10⟩ { CpgLockMsg.blank .join with ownerNodeid := 1 })] true,
    .client 7 false (some (.lockMsg .a 100 1 0)) false,
    .cpg false true [(1, .msg ⟨1, 10⟩ { CpgLockMsg.lockMsg .a 100 1 0 with ownerNodeid := 1 })]
      true, .client 8 false (some (.blank .dump)) true, .cpg true false [] true]

theorem descriptors_owned_failed : ∃ s : Server,
    s.calls = [opens 7, opens 8, closes 8, closes 8] ∧
    s.teardown.calls = s.calls ++ [uses 7 { CpgLockMsg.blank .nak with
      resource := .a, ownerNodeid := 1, ownerPid := 100, ownerTid := 1 }, closes 7] ∧
    openAfter s.teardown.calls = [] := by
  have h : (Transition.exec Server.step (fun _ _ => true) (.start ⟨1, 10⟩ ⟨⟨0, 0⟩, 0⟩)
      failedCpg).any (fun (s : Server) => decide (s.calls = [opens 7, opens 8, closes 8, closes 8]) &&
        decide (s.teardown.calls = s.calls ++ [uses 7 { CpgLockMsg.blank .nak with
          resource := .a, ownerNodeid := 1, ownerPid := 100, ownerTid := 1 }, closes 7])) =
      true := by
    decide +kernel
  obtain ⟨s, hs, h⟩ := Transition.Run.of_check (P := fun _ _ => True) (fun _ _ _ => trivial) h
  simp only [Bool.and_eq_true, decide_eq_true_eq] at h
  exact ⟨s, h.1, h.2, (descriptors_owned hs).2.2.2.2⟩

/-- While CPG lives only a signal that finds no clients ends the loop; nobody connects afterwards,
and the end writes and closes nothing. -/
theorem signal_leaves_nobody {x : MemberItem} {b : Boot} {s : Server}
    (h : Transition.Run Server.step Server.CpgLives (.start x b) s) (hs : s.stopRequested = true) :
    s.d.clients = [] ∧ openAfter s.calls = [] ∧ s.teardown.calls = s.calls := by
  have hinv := Server.inv h
  have hnil := hinv.shut (Server.stop_of_signal h hs)
  obtain ⟨hcalls, hclients⟩ := Server.dropAllRequests_calls (s := s.dropAllLocks) hnil
  refine ⟨hnil, by rw [hinv.opened, hnil]; rfl, ?_⟩
  rw [Server.teardown_calls, hcalls, hclients]
  exact List.append_nil _

/-- A signal is refused while a client is connected, the next one is not. -/
def twoSignals : List Callback :=
  [.listen false [.client 7], .signal, .client 7 true none false, .signal,
    .listen false [.client 9]]

theorem signal_leaves_nobody_two : ∃ s : Server, s.calls = [opens 7, closes 7] ∧ s.d.clients = [] ∧
    s.teardown.calls = s.calls := by
  have h : (Transition.exec Server.step (fun (s : Server) c => decide (s.CpgLives c))
      (.start ⟨1, 10⟩ ⟨⟨0, 0⟩, 0⟩) twoSignals).any (fun (s : Server) => s.stopRequested &&
        decide (s.calls = [opens 7, closes 7])) = true := by decide +kernel
  obtain ⟨s, hs, h⟩ := Transition.Run.of_check (P := Server.CpgLives)
    (fun _ _ h => of_decide_eq_true h) h
  simp only [Bool.and_eq_true, decide_eq_true_eq] at h
  obtain ⟨hnil, -, hcalls⟩ := signal_leaves_nobody hs h.1
  exact ⟨s, h.2, hnil, hcalls⟩

end Cpglock
