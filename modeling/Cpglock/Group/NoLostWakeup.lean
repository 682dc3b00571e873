import Cpglock.Group.Proof.Awake
import Cpglock.Group.ReplicaAgreement

/-!
# No lost wake-up

In a fixed group, whatever clients connect, ask and disconnect: when no message is in flight, every
waiting request is of a connected process and waits for a HELD lock, and the holder is connected
(`no_lost_wakeup`). A LOCK must find one of the daemons at the head of its own list (`Sys.Led`).
Three daemons that one configuration change announces list each other twice, and after their JOINs
none of them is at the head of its own list: a new lock is never granted (`nobody_leads`).
-/

namespace Cpglock

instance (G : Ledger) (n : UInt32) : Decidable (G.Oldest n) :=
  decidable_of_iff (((G.views n).any fun g => g.joined && g.ids.head? == some n) = true)
    (by simp [Ledger.Oldest, Option.any_eq_true])

/-- When a LOCK is ordered, some member is the oldest. -/
def Sys.Led (s : Sys) : Act → Prop
  | .order n => ∀ nd ∈ s.nodes n, ∀ m ∈ nd.d.out.head?, m.request = .lock →
    ∃ x ∈ s.group, (Ledger.of s.log).Oldest x.nodeid
  | _ => True

instance (s : Sys) (a : Act) : Decidable (s.Led a) := by
  refine a.casesOn ?_ ?_ ?_ ?_ ?_ ?_ <;> intros <;> dsimp only [Sys.Led] <;> infer_instance

/-- Process `p` has a client at node `n`. -/
def Sys.Connected (s : Sys) (n p : UInt32) : Prop :=
  ∃ nd, s.nodes n = some nd ∧ ∃ c ∈ nd.d.clients, c.pid = p

/-- Nobody waits for a lock that is not held, and holders and waiters are connected. -/
structure Sys.Served (s : Sys) (d : Daemon) : Prop where
  held : ∀ q ∈ d.requests, ∃ l, d.locks.get q.resource = some l ∧ l.state = .held
  holder : ∀ r l, d.locks.get r = some l → l.state = .held → s.Connected l.ownerNodeid l.ownerPid
  waiter : ∀ q ∈ d.requests, s.Connected q.ownerNodeid q.ownerPid
  owned : ∀ r l, d.locks.get r = some l → l.state ≠ .pending ∧ l.ownerNodeid ≠ 0

/-! ## The replica's owners -/

/-- Locks belong to nobody yet or to a daemon that has joined. -/
theorem Replica.owner_joined {log : List Event} (hw : WellOrdered log) (hfix : FixedLog log)
    (hmsg : Ordered FixedMsg log) {r : Resource} {t : CpgLock} {k : Nat} (hk : k ≤ log.length)
    (h : (Replica.of (log.take k)).lock r = some t) :
    t.ownerNodeid = 0 ∨ (Ledger.of (log.take k)).Joined t.ownerNodeid := by
  induction k generalizing t with
  | zero => cases h
  | succ k ih =>
    obtain ⟨e, he⟩ : ∃ e, log[k]? = some e := ⟨_, List.getElem?_eq_getElem (by omega)⟩
    rw [Replica.of_take_succ he] at h
    have hmono : ∀ n, (Ledger.of (log.take k)).Joined n →
        (Ledger.of (log.take (k + 1))).Joined n := fun n hn =>
      hfix.joined_mono hw (Nat.le_succ k) hk hn
    have hold : ∀ t', (Replica.of (log.take k)).lock r = some t' → t'.ownerNodeid = t.ownerNodeid →
        t.ownerNodeid = 0 ∨ (Ledger.of (log.take (k + 1))).Joined t.ownerNodeid := by
      intro t' ht' ho
      rw [← ho]
      exact (ih (by omega) ht').imp_right (hmono _)
    cases e with
    | confchg => exact hold t h rfl
    | msg x m =>
      simp only [Replica.step, Replica.deliver] at h
      split at h
      · unfold CpgLockMsg.relock at h
        split at h
        · cases ht : (Replica.of (log.take k)).lock r with
          | none =>
            rw [ht] at h
            obtain rfl := Option.some.inj h
            exact .inl rfl
          | some t' =>
            rw [ht] at h
            obtain rfl := Option.some.inj h
            exact hold _ ht rfl
        · next hm =>
          obtain ⟨t', -, rfl⟩ := Option.map_eq_some_iff.1 h
          exact .inr (hmono _ ((hmsg k x m he).member (.inr hm)))
        · obtain ⟨t', ht', rfl⟩ := Option.map_eq_some_iff.1 h
          refine hold t' ht' ?_
          split <;> rfl
        · exact hold t h rfl
      · exact hold t h rfl

/-! ## With nothing in flight -/

theorem CpgLock.shared_eq_iff {l l' : CpgLock} : l'.shared = l.shared ↔
    l'.state = l.state ∧ l'.ownerNodeid = l.ownerNodeid ∧ l'.ownerPid = l.ownerPid ∧
      l'.ownerTid = l.ownerTid := by
  simp [CpgLock.shared]

/-- A live daemon of a run, with nothing in flight: it has the replica's tables and knows everything
that has been ordered. -/
structure AtRest (log : List Event) (n : UInt32) (d : Daemon) : Prop where
  plain : Plain n d
  step : InStep log n d
  marked : ∀ r, (d.cell r).Marked r
  awake : d.Awake
  out : d.out = []

namespace AtRest

variable {log : List Event} {n n' : UInt32} {d d' : Daemon} {r : Resource} {l : CpgLock}
  {q : RequestItem}

theorem sent (h : AtRest log n d) (r : Resource) : (d.cell r).sent = [] := by
  simp [Daemon.cell, h.out]

theorem not_granting (h : AtRest log n d) (r : Resource) : ¬(d.cell r).Granting r := by
  rintro ⟨m, hm, -⟩
  rw [h.sent] at hm
  cases hm

theorem mem_waiting (hq : q ∈ d.requests) : q ∈ (d.cell q.resource).waiting :=
  List.mem_filter.2 ⟨hq, by simp⟩

/-- The replica has the daemon's entries. -/
theorem entry (h : AtRest log n d) (hl : d.locks.get r = some l) :
    ∃ t, (Replica.of log).lock r = some t ∧ t.shared = l.shared := by
  have ht := (h.step.synced.tables h.out).2 r
  rw [hl, Option.map_some] at ht
  exact Option.map_eq_some_iff.1 ht.symm

/-- The daemons' entries are alike. -/
theorem like (h : AtRest log n d) (h' : AtRest log n' d') (hl : d.locks.get r = some l) :
    ∃ l', d'.locks.get r = some l' ∧ l'.shared = l.shared := by
  obtain ⟨t, ht, hsh⟩ := h.entry hl
  have ht' := (h'.step.synced.tables h'.out).2 r
  rw [ht, Option.map_some, hsh] at ht'
  exact Option.map_eq_some_iff.1 ht'

theorem same_request (h : AtRest log n d) (h' : AtRest log n' d') (hq : q ∈ d.requests) :
    ∃ q' ∈ d'.requests, q'.key = q.key := by
  have hk : q.key ∈ d'.keys := by
    rw [(h'.step.synced.tables h'.out).1, ← (h.step.synced.tables h.out).1]
    exact List.mem_map_of_mem hq
  exact List.mem_map.1 hk

theorem exists_entry (h : AtRest log n d) (hq : q ∈ d.requests) :
    ∃ l, d.locks.get q.resource = some l := by
  cases hl : d.locks.get q.resource with
  | some l => exact ⟨l, rfl⟩
  | none =>
    have hqc := mem_waiting hq
    rw [((h.marked q.resource).entry hl).1] at hqc
    cases hqc

theorem not_pending (h : AtRest log n d) (hl : d.locks.get r = some l) : l.state ≠ .pending := by
  obtain ⟨t, ht, hsh⟩ := h.entry hl
  have htr := h.step.synced.lock r
  rw [ht] at htr
  obtain ⟨l₀, -, hf⟩ := htr
  exact fun hp => hf.steady ((CpgLock.shared_eq_iff.1 hsh).1.trans hp)

/-- Only pending requests wait: a marked one's GRANT would be on its way. -/
theorem pending (h : AtRest log n d) (hq : q ∈ d.requests) : q.state = .pending := by
  have hqc := mem_waiting hq
  cases hst : q.state with
  | pending => rfl
  | free => exact absurd hst ((h.marked _).mine q hqc).2
  | held =>
    have hc := (h.marked q.resource).count q.key
    rw [h.sent, List.countP_nil] at hc
    have : 0 < (d.cell q.resource).waiting.countP (·.MarkedAs q.key) :=
      List.countP_pos_iff.2 ⟨q, hqc, by simp [RequestItem.MarkedAs, hst]⟩
    omega

/-- Nobody waits for a FREE entry of the daemon's own. -/
theorem no_waiter (h : AtRest log n d) (hl : d.locks.get r = some l) (hn : l.ownerNodeid = n)
    (hf : l.state = .free) (hq : q ∈ d.requests) : q.resource ≠ r := by
  rintro rfl
  rcases (h.awake q.resource).free l hl (hn.trans h.plain.me.symm) hf with hw | hg
  · exact hw q (mem_waiting hq) rfl (h.pending hq)
  · exact h.not_granting _ hg

/-- The holder of an entry of the daemon's own is connected. -/
theorem holder (h : AtRest log n d) (hl : d.locks.get r = some l) (hn : l.ownerNodeid = n)
    (hs : l.state = .held) : ∃ c ∈ d.clients, c.pid = l.ownerPid := by
  rcases (h.awake r).held l hl (hn.trans h.plain.me.symm) hs with ⟨-, hc⟩ | ⟨m, hm, -⟩
  · exact Daemon.connected_iff.1 hc
  · rw [h.sent] at hm
    cases hm

/-- The process of a request of the daemon's own is connected. -/
theorem connected (h : AtRest log n d) (hq : q ∈ d.requests) (hn : q.ownerNodeid = n) :
    ∃ c ∈ d.clients, c.pid = q.ownerPid := by
  apply Daemon.connected_iff.1
  have hp0 : q.ownerPid ≠ 0 := ((h.plain.real q.resource).waiting q (mem_waiting hq)).1
  by_contra hd
  have hdead := h.step.synced.dead q.resource q.ownerPid hp0 (by simpa using hd)
  rw [h.sent] at hdead
  have hkey : q.key ∈ (Replica.of log).queue := by
    rw [← (h.step.synced.tables h.out).1]
    exact List.mem_map_of_mem hq
  have hask : (Replica.of log).asked q.resource n q.ownerPid = true := by
    simp only [Replica.asked, List.any_eq_true, decide_eq_true_eq]
    exact ⟨q.key, hkey, rfl, hn, rfl⟩
  rw [hask] at hdead
  cases hdead

end AtRest

/-- The membership of a daemon that has read the whole order is the ledger's. -/
theorem Sys.Sound.member {s : Sys} (hs : s.Sound) (hq : s.Quiescent) {k : UInt32} {nd : Node}
    (hn : s.nodes k = some nd) : (Ledger.of s.log).views k = some nd.d.toMembership := by
  have hnode := hs.node k nd hn
  have hmem := hnode.member
  rw [if_neg, (hq k nd hn).2, List.take_length] at hmem
  · exact hmem
  · intro heq
    obtain ⟨_, _, _, he, -⟩ := hnode.enters
    rw [← heq, (hq k nd hn).2] at he
    simp at he

section

variable {P : Sys → Act → Prop} (hP : ∀ s a, P s a → s.FixedClients a ∧ s.Led a)
include hP

/-- From the first LOCK on some daemon is the oldest. -/
theorem Runs.led {s : Sys} (h : Runs P .init s) :
    Ordered (fun done _ m => m.request = .lock → ∃ n, (Ledger.of done).Oldest n) s.log := by
  refine (h.rule (I := fun _ _ _ => True) Sys.sound_init (by intro k x m h; simp [Sys.init] at h)
    (fun _ _ _ => trivial) (fun _ _ _ _ _ _ _ _ _ _ _ _ _ => trivial) ?_
    (fun _ _ _ _ _ _ _ _ _ _ _ _ _ _ => trivial)).2.1
  intro s n nd m out _ _ hp _ _ hn hout hl
  obtain ⟨x, -, hx⟩ := (hP _ _ hp).2 nd hn m (by simp [hout]) hl
  exact ⟨x.nodeid, hx⟩

theorem Runs.exists_oldest {s : Sys} (h : Runs P .init s) {r : Resource}
    (hr : (Replica.of s.log).lock r ≠ none) : ∃ n, (Ledger.of s.log).Oldest n := by
  have hs := Runs.sound h
  have hfix := Runs.fixedLog (fun s a hp => (hP s a hp).1.1) h
  obtain ⟨x, m, hm, hl, -⟩ := Replica.exists_lock hr
  obtain ⟨k, hk, hget⟩ := List.mem_iff_getElem.1 hm
  have he : s.log[k]? = some (.msg x m) := by rw [List.getElem?_eq_getElem hk, hget]
  obtain ⟨n, hn⟩ := Runs.led hP h k x m he hl
  refine ⟨n, ?_⟩
  have := hn.persists hs.ordered le_rfl hk.le fun i e hi hei => ?_
  · rwa [List.take_length] at this
  · obtain ⟨y, m', rfl⟩ := hfix.later k x m he hl i e hi hei
    exact stays_msg _ _ _

theorem Runs.atRest {s : Sys} (h : Runs P .init s) (hq : s.Quiescent) {n : UInt32} {nd : Node}
    (hn : s.nodes n = some nd) : AtRest s.log n nd.d := by
  have hPf := fun s a hp => (hP s a hp).1
  have hplain := (Runs.plain (fun s a hp => (hPf s a hp).2.hasPid) h).2 n nd hn
  have hmark := Runs.marked (fun s a hp => (hPf s a hp).2.hasPid) h n nd hn
  have hstep := (Runs.synced hPf h).2 n nd hn
  have hawake := Runs.awake hPf h n nd hn
  rw [hq.view hn] at hplain hmark hstep hawake
  rw [(hq n nd hn).2, List.take_length] at hstep
  exact ⟨hplain, hstep, hmark, hawake, (hq n nd hn).1⟩

/-- Every entry has an owner: the oldest daemon would have a GRANT on its way. -/
theorem Runs.owned {s : Sys} (h : Runs P .init s) (hq : s.Quiescent) {n : UInt32} {nd : Node}
    (hn : s.nodes n = some nd) {r : Resource} {l : CpgLock} (hl : nd.d.locks.get r = some l) :
    l.ownerNodeid ≠ 0 := by
  intro h0
  have hs := Runs.sound h
  have hr := Runs.atRest hP h hq hn
  obtain ⟨t, ht, -⟩ := hr.entry hl
  obtain ⟨k, g, hg, hj, hhead⟩ := Runs.exists_oldest hP h (by rw [ht]; simp)
  obtain ⟨nd', hn'⟩ := hs.exists_node ⟨g, hg, hj⟩
  have hr' := Runs.atRest hP h hq hn'
  obtain ⟨l', hl', hsh⟩ := hr.like hr' hl
  obtain rfl := Option.some.inj (hg.symm.trans (hs.member hq hn'))
  refine hr'.not_granting r ((hr'.awake r).new l' hl' ?_ ?_)
  · exact (CpgLock.shared_eq_iff.1 hsh).2.1.trans h0
  · rw [hr'.plain.me]
    exact Ledger.getOldestNode_of_head hhead

/-- An entry's owner is a live daemon, which has an entry like it. -/
theorem Runs.owner {s : Sys} (h : Runs P .init s) (hq : s.Quiescent) {n : UInt32} {nd : Node}
    (hn : s.nodes n = some nd) {r : Resource} {l : CpgLock} (hl : nd.d.locks.get r = some l) :
    ∃ nd' l', s.nodes l.ownerNodeid = some nd' ∧ nd'.d.locks.get r = some l' ∧
      l'.shared = l.shared := by
  have hs := Runs.sound h
  have hPf := fun s a hp => (hP s a hp).1
  have hr := Runs.atRest hP h hq hn
  obtain ⟨t, ht, hsh⟩ := hr.entry hl
  have hjo := Replica.owner_joined hs.ordered (Runs.fixedLog (fun s a hp => (hPf s a hp).1) h)
    (Runs.synced hPf h).1 (k := s.log.length) le_rfl (r := r) (t := t) (by rwa [List.take_length])
  rw [List.take_length, (CpgLock.shared_eq_iff.1 hsh).2.1] at hjo
  obtain ⟨nd', hn'⟩ := hs.exists_node (hjo.resolve_left (Runs.owned hP h hq hn hl))
  obtain ⟨l', hl', hsh'⟩ := hr.like (Runs.atRest hP h hq hn') hl
  exact ⟨nd', l', hn', hl', hsh'⟩

/-- The process of a waiting request is connected. -/
theorem Runs.waiter {s : Sys} (h : Runs P .init s) (hq : s.Quiescent) {n : UInt32} {nd : Node}
    (hn : s.nodes n = some nd) {q : RequestItem} (hqr : q ∈ nd.d.requests) :
    s.Connected q.ownerNodeid q.ownerPid := by
  have hr := Runs.atRest hP h hq hn
  have hqc : q ∈ (nd.d.cell q.resource).waiting := List.mem_filter.2 ⟨hqr, by simp⟩
  obtain ⟨nd', hn'⟩ : ∃ nd', s.nodes q.ownerNodeid = some nd' := by
    rcases (hr.step.members q.resource).waiting q hqc with hm | hm
    · exact ⟨nd, (show q.ownerNodeid = n from hm) ▸ hn⟩
    · exact (Runs.sound h).exists_node hm
  have hr' := Runs.atRest hP h hq hn'
  obtain ⟨q', hq', hk⟩ := hr.same_request hr' hqr
  obtain ⟨hkn, hkp⟩ : q'.ownerNodeid = q.ownerNodeid ∧ q'.ownerPid = q.ownerPid :=
    ⟨congrArg RequestKey.nodeid hk, congrArg RequestKey.pid hk⟩
  refine ⟨nd', hn', ?_⟩
  rw [← hkp]
  exact hr'.connected hq' hkn

/-- In every reachable state with no message in flight every daemon's waiters wait for HELD locks, and
holders and waiters are connected. -/
theorem no_lost_wakeup {s : Sys} (h : Runs P .init s) (hq : s.Quiescent) {n : UInt32} {nd : Node}
    (hn : s.nodes n = some nd) : s.Served nd.d := by
  have hr := Runs.atRest hP h hq hn
  refine ⟨fun q hqr => ?_, fun r l hl hheld => ?_, fun q hqr => Runs.waiter hP h hq hn hqr,
    fun r l hl => ⟨hr.not_pending hl, Runs.owned hP h hq hn hl⟩⟩
  · obtain ⟨l, hl⟩ := hr.exists_entry hqr
    refine ⟨l, hl, ?_⟩
    cases hst : l.state with
    | held => rfl
    | pending => exact absurd hst (hr.not_pending hl)
    | free =>
      -- the owner has the request too, and would not let it wait
      obtain ⟨nd', l', hn', hl', hsh⟩ := Runs.owner hP h hq hn hl
      obtain ⟨hst', ho, -, -⟩ := CpgLock.shared_eq_iff.1 hsh
      have hr' := Runs.atRest hP h hq hn'
      obtain ⟨q', hq', hk⟩ := hr.same_request hr' hqr
      have hres : q'.resource = q.resource := congrArg RequestKey.resource hk
      exact absurd hres (hr'.no_waiter hl' ho (hst'.trans hst) hq')
  · obtain ⟨nd', l', hn', hl', hsh⟩ := Runs.owner hP h hq hn hl
    obtain ⟨hst, ho, hp, -⟩ := CpgLock.shared_eq_iff.1 hsh
    refine ⟨nd', hn', ?_⟩
    rw [← hp]
    exact (Runs.atRest hP h hq hn').holder hl' ho (hst.trans hheld)

end

/-- Process 100 of daemon 1 holds the lock `a`, process 200 of daemon 2 waits for it. -/
def holderAndWaiter : List Act :=
  oneHolder ++ [.connect 2 6, .recv 2 6 (.lockMsg .a 200 1 0), .order 2,
    .deliver 1, .deliver 2]

theorem no_lost_wakeup_waiter : ∃ (s : Sys) (nd : Node), s.nodes 2 = some nd ∧
    nd.d.requests ≠ [] ∧ s.Served nd.d := by
  have h : (Transition.exec Sys.step (fun (s : Sys) (a : Act) =>
      decide (s.FixedClients a) && decide (s.Led a)) .init holderAndWaiter).any (fun (s : Sys) =>
        decide (∀ x ∈ s.group, ∀ nd ∈ s.nodes x.nodeid, nd.d.out = [] ∧ nd.pos = s.log.length) &&
        (s.nodes 2).any fun nd => decide (nd.d.requests ≠ [])) = true := by decide +kernel
  obtain ⟨s, hs, h⟩ := Transition.Run.of_check
    (P := fun (s : Sys) (a : Act) => s.FixedClients a ∧ s.Led a)
    (fun _ _ h => by simpa using h) h
  simp only [Bool.and_eq_true, decide_eq_true_eq, Option.any_eq_true] at h
  obtain ⟨hq, nd, hn, hw⟩ := h
  exact ⟨s, nd, hn, hw, no_lost_wakeup (fun _ _ h => h) hs ((Runs.sound hs).quiescent hq) hn⟩

/-- Three daemons are announced at once and join; a client of daemon 1 locks `a`. -/
def nobodyLeads : List Act :=
  let x : MemberItem := ⟨1, 10⟩
  let y : MemberItem := ⟨2, 20⟩
  let z : MemberItem := ⟨3, 30⟩
  let boot : UInt32 → Boot := fun _ => ⟨⟨0, 0⟩, 0⟩
  let all : List Act := [.deliver 1, .deliver 2, .deliver 3]
  [.confchg (fun _ => [x, y, z]) [] [x, y, z] boot, .order 1, .order 2, .order 3] ++
    all ++ all ++ all ++ all ++
    [.connect 1 5, .recv 1 5 (.lockMsg .a 100 1 0), .order 1] ++ all

theorem nobody_leads : ¬∀ (s : Sys) (n : UInt32) (nd : Node),
    Runs (fun (s : Sys) (a : Act) => s.FixedClients a) .init s → s.Quiescent →
    s.nodes n = some nd → s.Served nd.d := by
  intro hall
  have h : (Transition.exec Sys.step (fun (s : Sys) (a : Act) => decide (s.FixedClients a)) .init
      nobodyLeads).any (fun (s : Sys) =>
        decide (∀ x ∈ s.group, ∀ nd ∈ s.nodes x.nodeid, nd.d.out = [] ∧ nd.pos = s.log.length) &&
        (s.nodes 1).any fun nd => nd.d.locks.get ⟨[97], by decide, by decide⟩ == some .blank) =
          true := by decide +kernel
  obtain ⟨s, hs, h⟩ := Transition.Run.of_check (P := fun (s : Sys) (a : Act) => s.FixedClients a)
    (fun _ _ h => of_decide_eq_true h) h
  simp only [Bool.and_eq_true, decide_eq_true_eq, Option.any_eq_true, beq_iff_eq] at h
  obtain ⟨hq, nd, hn, hl⟩ := h
  exact ((hall s 1 nd hs ((Runs.sound hs).quiescent hq) hn).owned _ _ hl).2 rfl

end Cpglock
