import Cpglock.Group.Proof.Fifo
import Cpglock.Group.ReplicaAgreement

/-!
# A mutex with a queue

Without failures and FL_TRY, and with a first daemon that joins alone, the daemons together are one
queue for each resource, whoever enters later with empty tables (`fifo_mutex`): GRANTs follow the LOCKs in
their order, the next GRANT is multicast after the holder's UNLOCK was read, and with no message in
flight one daemon has the entry as its own, HELD by the oldest request that is not unlocked.
-/

namespace Cpglock

/-- Daemon `n` has the entry `l` for `r` as its own. -/
def Sys.Owns (s : Sys) (r : Resource) (n : UInt32) (l : CpgLock) : Prop :=
  ∃ nd, s.nodes n = some nd ∧ nd.d.locks.get r = some l ∧ l.ownerNodeid = n

theorem mem_dropLast_or_last {α : Type*} {l : List α} {a : α} (h : a ∈ l) :
    a ∈ l.dropLast ∨ l.getLast? = some a := by
  rcases List.eq_nil_or_concat' l with rfl | ⟨l, b, rfl⟩
  · cases h
  · rw [List.dropLast_concat, List.getLast?_concat]
    simpa [eq_comm] using h

/-- What has been unlocked before a step's multicasts was so when it began, if it writes no GRANT. -/
theorem Unlocked.of_effects {t : List Obs} {n : UInt32} {cause : Option Nat} {d d' : Daemon}
    {q : RequestKey} (h : Unlocked (t ++ Sys.effects n cause d d') q)
    (hno : ∀ p ∈ d'.replies.drop d.replies.length, p.2.request ≠ .grant) : Unlocked t q := by
  obtain ⟨fd, g, f, m, hg, hgr, hk, hm, hu⟩ := h
  refine ⟨fd, g, f, m, ?_, hgr, hk, ?_, hu⟩
  · refine (List.mem_append.1 hg).resolve_right fun hg => ?_
    rcases List.mem_append.1 hg with hg | hg
    · obtain ⟨_, -, he⟩ := List.mem_map.1 hg
      cases he
    · obtain ⟨p, hp, he⟩ := List.mem_map.1 hg
      obtain ⟨-, -, rfl⟩ := Obs.reply.inj he
      exact hno p hp hgr
  · exact (List.mem_append.1 hm).resolve_right recv_notMem_effects

theorem append_cons_cases {α : Type*} {l₁ l₂ a b : List α} {x : α} (h : a ++ b = l₁ ++ x :: l₂) :
    (∃ c, a = l₁ ++ x :: c) ∨ ∃ c, l₁ = a ++ c ∧ x ∈ b := by
  rcases List.append_eq_append_iff.1 h with ⟨c, rfl, rfl⟩ | ⟨c, rfl, hc⟩
  · exact .inr ⟨c, rfl, by simp⟩
  · cases c with
    | nil => exact .inr ⟨[], by simp, by rw [← List.nil_append b, ← hc]; simp⟩
    | cons y c =>
      obtain ⟨rfl, -⟩ := List.cons.inj hc
      exact .inl ⟨c, rfl⟩

/-- With nothing in flight nothing is passed on. -/
theorem Sys.Quiescent.still {s : Sys} (hq : s.Quiescent) {n : UInt32} {nd : Node}
    (hn : s.nodes n = some nd) (r : Resource) : (nd.d.cell r).Still r := by
  intro m hm
  have hm := (List.mem_filter.1 hm).1
  rw [(hq n nd hn).1] at hm
  cases hm

section

variable {P : Sys → Act → Prop} (hP : ∀ s a, P s a → s.Orderly a ∧ s.UnlocksHeld a)
include hP

/-! ## The last GRANT -/

/-- The node of the last GRANT acts for the lock. -/
theorem Runs.cand_of_last {s : Sys} (h : Runs P .init s) {r : Resource} {k : Nat}
    (hk : k ≤ s.log.length) {q : RequestKey} (hq : (grantOrder r (s.log.take k)).getLast? = some q) :
    (Ledger.of (s.log.take k)).cand r = some q.nodeid := by
  have hF := fun s a hp => (hP s a hp).1.1
  have hs := Runs.sound h
  have hleft := h.nobody_left fun s a hp => (hF s a hp).1
  have hheard := (Runs.heard hF h).1
  induction k with
  | zero => cases hq
  | succ k ih =>
    obtain ⟨e, he⟩ : ∃ e, s.log[k]? = some e := ⟨_, List.getElem?_eq_getElem (by omega)⟩
    rw [Ledger.of_take_succ he]
    rw [List.take_add_one, he, Option.toList_some] at hq
    cases e with
    | confchg members left join =>
      obtain rfl := hleft _ _ _ (List.mem_of_getElem? he)
      rw [grantOrder_change] at hq
      simp [Ledger.step, Ledger.candAfter, ih (by omega) hq]
    | msg x m =>
      by_cases hg : m.request = .grant ∧ m.resource = r
      · obtain ⟨hm, rfl⟩ := hg
        rw [grantOrder_grant hm rfl, List.getLast?_concat] at hq
        obtain rfl := Option.some.inj hq
        obtain ⟨g, hg, hj⟩ := ((hheard k x m he).answer (.inl hm)).joined hheard hs.ordered hleft
          (by omega)
        exact Ledger.candAfter_grant (x := x) hm hg hj
      · rw [grantOrder_other hg] at hq
        exact (if_neg hg).trans (ih (by omega) hq)

/-- The daemon of the last GRANT, once it was delivered, has the entry as its own. -/
theorem Runs.own_last {s : Sys} (h : Runs P .init s) {r : Resource} {n : UInt32} {nd : Node}
    (hn : s.nodes n = some nd)
    (hall : grantOrder r (s.log.take nd.pos) = grantOrder r s.log) {q : RequestKey}
    (hq : (grantOrder r s.log).getLast? = some q) (hqn : q.nodeid = n) :
    ∃ l, nd.d.locks.get r = some l ∧ l.ownerNodeid = n ∧ l.key r = q := by
  have hqueued := (Runs.inLine hP h).2 n nd hn
  rw [← hall] at hq
  obtain ⟨l, hl, hown⟩ := hqueued.own r q hq hqn
  exact ⟨l, hl, hown, Option.some.inj ((hqueued.last r l hl hown).symm.trans hq)⟩

/-- While a GRANT waits, the request of the last ordered one has been unlocked. -/
theorem Runs.last_unlocked {s : Sys} (h : Runs P .init s) {n : UInt32} {nd : Node}
    (hn : s.nodes n = some nd) {g : CpgLockMsg} (hg : g ∈ nd.d.out) (hgr : g.request = .grant)
    {q : RequestKey} (hq : (grantOrder g.resource s.log).getLast? = some q) :
    Unlocked s.trace q := by
  have hFU := fun s a hp => (⟨(hP s a hp).1.1, (hP s a hp).2⟩ : s.FailureFree a ∧ s.UnlocksHeld a)
  have hs := Runs.sound h
  obtain ⟨hlead, hleads⟩ := Runs.leads hFU h
  obtain ⟨hgranter, hnone⟩ := hs.waiting hlead (hleads n nd hn)
    ((h.plain_of fun s a hp => (hFU s a hp).1).2 n nd hn) hn hg ⟨.inl hgr, rfl⟩
  have hcand := Runs.cand_of_last hP h le_rfl (by rwa [List.take_length])
  rw [List.take_length] at hcand
  have hqn : q.nodeid = n := by
    rcases hgranter with hc | ⟨hc, -⟩
    · exact Option.some.inj (hcand.symm.trans hc)
    · rw [hcand] at hc
      cases hc
  obtain ⟨l, hl, hown, rfl⟩ := Runs.own_last hP h hn (grantOrder_take hnone) hq hqn
  refine (((Runs.handed hFU h).2 n nd hn).due _ l hl hown).resolve_right fun ⟨_, hstill, _⟩ => ?_
  refine hstill g (List.mem_filter.2 ⟨List.mem_append_right _ hg, ?_⟩) ⟨.inl hgr, rfl⟩
  simp [CpgLockMsg.concerns]

/-- The requests of all GRANTs but the last have been unlocked. -/
theorem Runs.served {s : Sys} (h : Runs P .init s) (r : Resource) :
    ∀ q ∈ (grantOrder r s.log).dropLast, Unlocked s.trace q := by
  refine h.invariant_of (J := Runs P .init) id
    (I := fun s => ∀ q ∈ (grantOrder r s.log).dropLast, Unlocked s.trace q) (by simp [Sys.init, grantOrder, keysOf]) ?_
  intro s s' a hr _ hi hp hstep q hq
  obtain ⟨members, left, join, boot, rfl, -, rfl⟩ | ⟨n, nd, m, out, rfl, hn, hout, rfl⟩ |
    ⟨n, nd, d, pos, cause, seen, -, -, -, rfl⟩ := Sys.step_cases hstep
  · refine (hi q ?_).append _
    rwa [Sys.change, grantOrder_change] at hq
  · by_cases hg : m.request = .grant ∧ m.resource = r
    · obtain ⟨hm, rfl⟩ := hg
      rw [Sys.orderNext, grantOrder_grant hm rfl, List.dropLast_concat] at hq
      exact (mem_dropLast_or_last hq).elim (hi q) (Runs.last_unlocked hP hr hn (by simp [hout]) hm)
    · rw [Sys.orderNext, grantOrder_other hg] at hq
      exact hi q hq
  · rw [Sys.run, List.append_assoc]
    exact (hi q hq).append _

/-- While a GRANT waits, it is for the next request, and all before have been unlocked. -/
theorem Runs.turn_of_waiting {s : Sys} (h : Runs P .init s) {n : UInt32} {nd : Node}
    (hn : s.nodes n = some nd) {g : CpgLockMsg} (hg : g ∈ nd.d.out) (hgr : g.request = .grant) :
    ∃ l₁ l₂, lockOrder g.resource s.log = l₁ ++ g.key :: l₂ ∧ ∀ q ∈ l₁, Unlocked s.trace q := by
  have hFU := fun s a hp => (⟨(hP s a hp).1.1, (hP s a hp).2⟩ : s.FailureFree a ∧ s.UnlocksHeld a)
  have hs := Runs.sound h
  obtain ⟨hlead, hleads⟩ := Runs.leads hFU h
  obtain ⟨hlog, hqueued⟩ := Runs.inLine hP h
  have hnone := (hs.waiting hlead (hleads n nd hn)
    ((h.plain_of fun s a hp => (hFU s a hp).1).2 n nd hn) hn hg ⟨.inl hgr, rfl⟩).2
  have hnext := (hqueued n nd hn).next (List.mem_append_right _ hg) hgr hnone hgr
  obtain ⟨l, hl⟩ := hlog.grants_follow g.resource
  refine ⟨grantOrder g.resource s.log, l.tail, ?_, fun q hq => ?_⟩
  · rw [← hl, List.getElem?_append_right le_rfl, Nat.sub_self] at hnext
    cases l with
    | nil => cases hnext
    | cons k l =>
      obtain rfl := Option.some.inj hnext
      exact hl.symm
  · exact (mem_dropLast_or_last hq).elim (Runs.served hP h _ q)
      (Runs.last_unlocked hP h hn hg hgr)

/-! ## Multicasts -/

/-- A step that multicasts a GRANT writes none to clients. -/
theorem Runs.no_reply {s : Sys} (h : Runs P .init s) {n : UInt32} {nd : Node} {a : Act} {d : Daemon}
    {pos : Nat} {cause : Option Nat} {seen : List Obs} (hp : P s a) (hn : s.nodes n = some nd)
    (hl : s.Local n nd a d pos cause seen) {g : CpgLockMsg} (hg : g ∈ d.out.drop nd.d.out.length) :
    ∀ p ∈ d.replies.drop nd.d.replies.length, p.2.request ≠ .grant := by
  have hF := fun s a hp => (hP s a hp).1.1
  have hsame : d.replies = nd.d.replies →
      ∀ p ∈ d.replies.drop nd.d.replies.length, p.2.request ≠ .grant := by
    intro he p hp
    rw [he, List.drop_length] at hp
    cases hp
  cases hl with
  | @deliver e he =>
    cases e with
    | confchg members left join =>
      exact hsame (Daemon.silent_cpgConfigChange nd.d (members nd.d.myNodeId) left join).replies
    | msg x m =>
      obtain ⟨hlog, hheard⟩ := h.heard hF
      have hs := h.smooth_of hF hlog (hheard n nd hn) hn he
      have hmove := (Daemon.cellStep_deliver (r := g.resource) nd.d nd.pos x m).move
        ⟨hs.kept, hs.real, hs.member, hs.mine, hs.connected⟩
      obtain ⟨ms, hms, -⟩ := (Daemon.grows_deliver nd.d nd.pos (.msg x m)).out
      rw [hms, List.drop_left] at hg
      obtain ⟨rs, hrs⟩ := (Daemon.grows_deliver nd.d nd.pos (.msg x m)).replies
      rw [hrs, List.drop_left]
      intro p hp hpg
      obtain ⟨-, hm, -⟩ := (Daemon.writes_deliver nd.d nd.pos x m).new_reply hrs hp hpg
      -- the delivery of a GRANT multicasts nothing
      have hsent := hmove.sent_of_grant hm
      rw [Daemon.sent_of_out hms, List.append_right_eq_self] at hsent
      exact List.filter_eq_nil_iff.1 hsent g hg (by simp [CpgLockMsg.concerns])
  | connect => exact hsame rfl
  | @recv fd m => exact hsame (Daemon.silent_clientActivityCb nd.d fd m).replies
  | close => exact ((hF _ _ hp).2.1 : False).elim

/-- When a GRANT is multicast, all requests before its own have been unlocked. -/
theorem Runs.mcast_turn {s : Sys} (h : Runs P .init s) {t₁ t₂ : List Obs} {n : UInt32}
    {cause : Option Nat} {g : CpgLockMsg} (ht : s.trace = t₁ ++ .mcast n cause g :: t₂)
    (hg : g.request = .grant) :
    ∃ l₁ l₂, lockOrder g.resource s.log = l₁ ++ g.key :: l₂ ∧ ∀ q ∈ l₁, Unlocked t₁ q := by
  refine h.invariant_of (J := Runs P .init) id (I := fun s => ∀ t₂,
    s.trace = t₁ ++ .mcast n cause g :: t₂ → ∃ l₁ l₂, lockOrder g.resource s.log = l₁ ++ g.key :: l₂ ∧
      ∀ q ∈ l₁, Unlocked t₁ q) (by simp [Sys.init]) ?_ t₂ ht
  clear ht t₂
  intro s s' a hr hr' hi hp hstep t₂ ht
  obtain ⟨members, left, join, boot, rfl, -, rfl⟩ | ⟨k, nd, m, out, rfl, -, -, rfl⟩ |
    ⟨k, nd, d, pos, c, seen, hn, -, hl, rfl⟩ := Sys.step_cases hstep
  · obtain rfl : left = [] := (hP _ _ hp).1.1.1
    rw [show (s.change members [] join boot).trace = s.trace from List.append_nil _] at ht
    rw [Sys.change, lockOrder_change]
    exact hi t₂ ht
  · obtain ⟨l₁, l₂, hl, hu⟩ := hi t₂ ht
    obtain ⟨l, hgrow⟩ := lockOrder_grows g.resource s.log [.msg ⟨k, nd.d.myPid⟩ m]
    refine ⟨l₁, l₂ ++ l, ?_, hu⟩
    rw [Sys.orderNext, ← hgrow, hl]
    simp
  · rcases append_cons_cases ht with ⟨c', hc⟩ | ⟨c', rfl, hmem⟩
    · rcases append_cons_cases hc with ⟨c'', hc⟩ | ⟨c'', -, hmem⟩
      · exact hi c'' hc
      · -- what a step reads is no multicast
        obtain rfl := hl.seen_eq
        cases a <;> simp [Act.seen] at hmem
    · obtain ⟨rfl, -, hout⟩ := Sys.mem_effects.1 hmem
      have hn' : (s.run n nd d pos c seen).nodes n = some { nd with d, pos } := Sys.setNode_self ..
      obtain ⟨l₁, l₂, hlock, hu⟩ := Runs.turn_of_waiting hP hr' hn' (List.mem_of_mem_drop hout) hg
      refine ⟨l₁, l₂, hlock, fun q hq => ?_⟩
      exact ((hu q hq).of_effects (Runs.no_reply hP hr hp hn hl hout)).append _

/-! ## With no message in flight -/

/-- What a daemon knows when it has been delivered the whole order and sends nothing. -/
theorem Runs.inLine_at_rest {s : Sys} (h : Runs P .init s) (hq : s.Quiescent) {n : UInt32} {nd : Node}
    (hn : s.nodes n = some nd) : InLine s.log n nd.d := by
  have := (Runs.inLine hP h).2 n nd hn
  rwa [hq.view hn, (hq n nd hn).2, List.take_length] at this

/-- No entry waits for its GRANT. -/
theorem Runs.not_pending {s : Sys} (h : Runs P .init s) (hq : s.Quiescent) {n : UInt32} {nd : Node}
    (hn : s.nodes n = some nd) {r : Resource} {l : CpgLock} (hl : nd.d.locks.get r = some l) :
    l.state ≠ .pending := by
  intro hst
  have hFU := fun s a hp => (⟨(hP s a hp).1.1, (hP s a hp).2⟩ : s.FailureFree a ∧ s.UnlocksHeld a)
  have hturn := ((Runs.leads hFU h).2 n nd hn).turn r
  rw [hq.view hn] at hturn
  obtain ⟨m, hm, hg, hr⟩ := hturn.pending l hl hst
  exact hq.still hn r m hm ⟨.inl hg, hr⟩

/-- Some daemon has the entry of a resource that was asked for as its own. -/
theorem Runs.exists_owner {s : Sys} (h : Runs P .init s) (hq : s.Quiescent) {r : Resource}
    (hne : lockOrder r s.log ≠ []) : ∃ n l, s.Owns r n l := by
  have hF := fun s a hp => (hP s a hp).1.1
  have hs := Runs.sound h
  have hlocked : ∀ q ∈ lockOrder r s.log, Locked (s.log.take s.log.length) q := by
    intro q hq
    rw [List.take_length]
    exact (mem_lockOrder.1 hq).1
  obtain ⟨q, hmem⟩ := List.exists_mem_of_ne_nil _ hne
  obtain ⟨f, hold⟩ := Runs.exists_oldest_of_locked hP h le_rfl (hlocked q hmem)
  rw [List.take_length] at hold
  obtain ⟨nd, hn⟩ := hs.exists_node ⟨_, hold.choose_spec.1, hold.choose_spec.2.1⟩
  rcases (Runs.inLine_at_rest hP h hq hn).first r hne with ⟨f', hf', hold'⟩ | hgr | ⟨l, hl, hown | hst⟩
  · exact absurd (hs.ordered.inv_all.oldest_unique hold' hold) hf'
  · -- the daemon of the last GRANT
    obtain ⟨k, hk⟩ := Option.ne_none_iff_exists'.1 (mt List.getLast?_eq_none_iff.1 hgr)
    have hkl := ((Runs.inLine hP h).1.grants_follow r).subset (List.mem_of_getLast? hk)
    have hjoined := (hlocked k hkl).joined (Runs.heard hF h).1 hs.ordered
      (h.nobody_left fun s a hp => (hF s a hp).1) le_rfl
    rw [List.take_length] at hjoined
    obtain ⟨nd', hn'⟩ := hs.exists_node hjoined
    obtain ⟨l, hl, hown, -⟩ := Runs.own_last hP h hn'
      (by rw [(hq _ nd' hn').2, List.take_length]) hk rfl
    exact ⟨_, l, nd', hn', hl, hown⟩
  · exact ⟨f, l, nd, hn, hl, hown⟩
  · exact absurd hst (Runs.not_pending hP h hq hn hl)

/-- An own entry is that of the last GRANT. -/
theorem Runs.owner_last {s : Sys} (h : Runs P .init s) (hq : s.Quiescent) {r : Resource} {n : UInt32}
    {l : CpgLock} (hown : s.Owns r n l) : (grantOrder r s.log).getLast? = some (l.key r) := by
  obtain ⟨nd, hn, hl, hown⟩ := hown
  exact (Runs.inLine_at_rest hP h hq hn).last r l hl hown

/-- An own entry is HELD until its request is unlocked, and then FREE, when all requests have been
granted. -/
theorem Runs.owner_state {s : Sys} (h : Runs P .init s) (hq : s.Quiescent) {r : Resource} {n : UInt32}
    {l : CpgLock} (hown : s.Owns r n l) : ¬Unlocked s.trace (l.key r) ∧ l.state = .held ∨
      Unlocked s.trace (l.key r) ∧ l.state = .free ∧ grantOrder r s.log = lockOrder r s.log := by
  have hFU := fun s a hp => (⟨(hP s a hp).1.1, (hP s a hp).2⟩ : s.FailureFree a ∧ s.UnlocksHeld a)
  obtain ⟨nd, hn, hl, hown⟩ := hown
  have hhanded := (Runs.handed hFU h).2 n nd hn
  rw [hq.view hn] at hhanded
  cases hst : l.state with
  | pending => exact absurd hst (Runs.not_pending hP h hq hn hl)
  | held =>
    refine .inl ⟨?_, rfl⟩
    rintro ⟨fd, g, f, m, hg, hgr, hk, hm, hu, hid⟩
    rw [show (l.key r).nodeid = n from hown] at hg hm
    have hids := (Runs.written hFU h n nd hn).ids
    rw [hq.view hn] at hids
    have hgl := hids r l hl hown fd g ((hhanded.replies fd g).1 hg) hgr hk
    obtain ⟨fd', hgiven⟩ := hhanded.kept r l hl hown hst (hq.still hn r)
    rw [← hgl, ← hid] at hgiven
    exact (hhanded.read f m hm hu).2 fd' hgiven
  | free =>
    have hu := (hhanded.due r l hl hown).resolve_right fun hheld =>
      absurd (hst.symm.trans hheld.1) (by decide)
    refine .inr ⟨hu, rfl, ?_⟩
    obtain ⟨j, hfifo, -⟩ := (Runs.inLine_at_rest hP h hq hn).fifo r
    have hpre := (Runs.inLine hP h).1.grants_follow r
    exact hpre.eq_of_length (hfifo.length_eq hpre.length_le (hfifo.acts ⟨l, hl, .inl hown⟩)
      (hfifo.free l hl hown hst))

end

/-- The daemons are a mutex with a queue for each resource. -/
theorem fifo_mutex {s : Sys} (h : Runs (fun s a => s.Orderly a) .init s) (r : Resource) :
    (lockOrder r s.log).Nodup ∧
    (∀ k, grantOrder r (s.log.take k) <+: lockOrder r (s.log.take k)) ∧
    (∀ t₁ n c g t₂, s.trace = t₁ ++ .mcast n c g :: t₂ → g.request = .grant → g.resource = r →
      ∃ l₁ l₂, lockOrder r s.log = l₁ ++ g.key :: l₂ ∧ ∀ q ∈ l₁, Unlocked t₁ q) ∧
    (s.Quiescent → lockOrder r s.log ≠ [] → ∃ n l, s.Owns r n l ∧
      (∀ n' l', s.Owns r n' l' → n' = n) ∧
      (∀ l₁ q l₂, lockOrder r s.log = l₁ ++ q :: l₂ → (∀ p ∈ l₁, Unlocked s.trace p) →
        ¬Unlocked s.trace q → l.state = .held ∧ l.key r = q) ∧
      ((∀ q ∈ lockOrder r s.log, Unlocked s.trace q) → l.state = .free)) := by
  have hP : ∀ (s : Sys) a, s.Orderly a ∧ s.UnlocksHeld a → s.Orderly a ∧ s.UnlocksHeld a :=
    fun _ _ h => h
  have hr := Runs.disciplined (fun s a hp => hp.1) h
  have hlog := (Runs.inLine hP hr).1
  refine ⟨?_, fun k => (hlog.take k).grants_follow r, fun t₁ n c g t₂ ht hg hgr => ?_,
    fun hq hne => ?_⟩
  · have := Runs.lockOrder_nodup hP hr r s.log.length
    rwa [List.take_length] at this
  · subst hgr
    exact Runs.mcast_turn hP hr ht hg
  · obtain ⟨n, l, hown⟩ := Runs.exists_owner hP hr hq hne
    have hlast := Runs.owner_last hP hr hq hown
    have hgranted := (hlog.grants_follow r).subset
    refine ⟨n, l, hown, fun n' l' hown' => ?_, fun l₁ q l₂ hl hu hnot => ?_, fun hall => ?_⟩
    · have hlast' := Runs.owner_last hP hr hq hown'
      have hk := congrArg RequestKey.nodeid (Option.some.inj (hlast'.symm.trans hlast))
      exact (hown'.choose_spec.2.2.symm.trans hk).trans hown.choose_spec.2.2
    · have hserved := Runs.served hP hr r
      rcases Runs.owner_state hP hr hq hown with ⟨hheld, hst⟩ | ⟨hkey, -, hgl⟩
      · refine ⟨hst, ?_⟩
        -- the requests before the holder's have been unlocked
        obtain ⟨t, ht⟩ := hlog.grants_follow r
        rw [hl, ← List.dropLast_append_getLast? _ hlast, List.append_assoc] at ht
        rcases List.append_eq_append_iff.1 ht with ⟨c, hc, hcons⟩ | ⟨c, hc, hcons⟩
        · cases c with
          | nil => exact (List.cons.inj hcons).1
          | cons k c =>
            obtain ⟨rfl, -⟩ := List.cons.inj hcons
            exact absurd (hu _ (by simp [hc])) hheld
        · cases c with
          | nil => exact (List.cons.inj hcons).1.symm
          | cons k c =>
            obtain ⟨rfl, -⟩ := List.cons.inj hcons
            exact absurd (hserved q (by simp [hc])) hnot
      · have hmem : q ∈ grantOrder r s.log := by simp [hgl, hl]
        rcases mem_dropLast_or_last hmem with hmem | hlast'
        · exact absurd (hserved q hmem) hnot
        · obtain rfl := Option.some.inj (hlast'.symm.trans hlast)
          exact absurd hkey hnot
    · rcases Runs.owner_state hP hr hq hown with ⟨hnot, -⟩ | ⟨-, hfree, -⟩
      · exact absurd (hall _ (hgranted (List.mem_of_getLast? hlast))) hnot
      · exact hfree

/-- Process 100 of a single daemon holds the lock `a` when daemon 2 enters; its process 200 asks for `a`,
and process 100 unlocks it. -/
def lateDaemon : List Act :=
  oneGrant ++ [.confchg (fun _ => [⟨1, 10⟩, ⟨2, 20⟩]) [] [⟨2, 20⟩] fun _ => ⟨⟨0, 0⟩, 0⟩, .order 2,
    .deliver 1, .deliver 1, .deliver 2, .deliver 2, .connect 2 6,
    .recv 2 6 (.lockMsg .a 200 1 0), .order 2, .deliver 1, .deliver 2,
    .recv 1 5 (.unlockMsg .empty 1 100 1), .order 1, .deliver 1, .deliver 2]

theorem fifo_mutex_late : ∃ (s : Sys) (n : UInt32) (l : CpgLock),
    (grantOrder .a s.log).map (·.pid) = [100, 200] ∧ s.Owns .a n l ∧
      ∀ n' l', s.Owns .a n' l' → n' = n := by
  have h : (Transition.exec Sys.step (fun (s : Sys) (a : Act) => decide (s.Orderly a)) .init
      lateDaemon).any (fun (s : Sys) =>
        decide (∀ x ∈ s.group, ∀ nd ∈ s.nodes x.nodeid, nd.d.out = [] ∧ nd.pos = s.log.length) &&
        decide (lockOrder .a s.log ≠ []) &&
        decide ((grantOrder .a s.log).map (·.pid) = [100, 200])) = true := by decide +kernel
  obtain ⟨s, hs, h⟩ := Transition.Run.of_check (P := fun (s : Sys) (a : Act) => s.Orderly a)
    (fun _ _ h => of_decide_eq_true h) h
  simp only [Bool.and_eq_true, decide_eq_true_eq] at h
  obtain ⟨⟨hq, hne⟩, hpids⟩ := h
  obtain ⟨n, l, hown, hunique, -⟩ := (fifo_mutex hs .a).2.2.2 ((Runs.sound hs).quiescent hq) hne
  exact ⟨s, n, l, hpids, hown, hunique⟩

end Cpglock
