import Cpglock.Group.Proof.Authority

/-!
# A single granting authority

At each position of the order and for each resource at most one daemon may grant
(`Daemon.MayGrant`), whatever joined, left, disconnected or was requested before. So a delivered
LOCK makes all daemons together multicast at most one answer.
-/

namespace Cpglock

/-- A joined daemon that owns the entry for `r`, or has none and is first on its own list. -/
def Daemon.MayGrant (d : Daemon) (r : Resource) : Prop :=
  d.joined = true ∧ ((∃ l, d.locks.get r = some l ∧ l.ownerNodeid = d.myNodeId) ∨
    d.locks.get r = none ∧ d.getOldestNode.nodeid = d.myNodeId)

/-- A message multicast on the delivery of the event at index `k`. -/
def Obs.answers (k : Nat) : Obs → Bool
  | .mcast _ cause _ => cause = some k
  | _ => false

/-! ## Who may grant -/

theorem MayGrant.granter {done : List Event} {n : UInt32} {v : Daemon} {r : Resource}
    (h : v.MayGrant r) (ha : Auth done n v) (hp : Plain n v) (hi : (Ledger.of done).Inv)
    (hv : (Ledger.of done).views n = some v.toMembership) : (Ledger.of done).Granter r n := by
  obtain ⟨hj, ⟨l, hl, hown⟩ | ⟨hl, hhead⟩⟩ := h
  · refine ha.owner r (Cell.owner_eq_some.2 ⟨l, hl, hown.trans hp.me⟩)
  · have hold := hi.oldest_of_head hv hj (hhead.trans hp.me)
    cases hc : (Ledger.of done).cand r with
    | none => exact .inr ⟨hc, hold⟩
    | some c =>
      by_cases hcn : c = n
      · exact .inl (hcn ▸ hc)
      · rcases ha.cand hj r c hc hcn with ho | hpre
        · rw [Cell.owner_eq_none.2 (show (v.cell r).lock = none from hl)] at ho
          cases ho
        · obtain ⟨g, hg, -, hhead⟩ := hold
          obtain rfl := Option.some.inj (hv.symm.trans hg)
          exact absurd hhead hpre.head?_ne

theorem Runs.granter {P : Sys → Act → Prop} (hP : ∀ s a, P s a → a.HasPid) {s : Sys}
    (h : Runs P .init s) {n : UInt32} {nd : Node} {r : Resource} (hn : s.nodes n = some nd)
    (hm : nd.d.MayGrant r) : (Ledger.of (s.log.take nd.pos)).Granter r n :=
  MayGrant.granter (v := nd.view s.log n) hm (h.auth hP n nd hn) ((h.plain hP).2 n nd hn)
    (h.sound.ordered.inv _ (h.sound.bounded n nd hn)) ((h.sound.node n nd hn).views hm.1).2

/-! ## What `process_lock` multicasts -/

theorem Daemon.grantFree_out (d : Daemon) (m : CpgLockMsg) :
    (d.grantFree m).out = d.out ∨ ∃ m', (d.grantFree m).out = d.out ++ [m'] := by
  unfold grantFree grantNextElse grantNext
  cases pickPending m.resource _ with
  | none => exact .inl rfl
  | some p => exact .inr ⟨_, rfl⟩

/-- A LOCK is answered by at most one message, and by a daemon that may grant. -/
theorem Daemon.processLock_out (d : Daemon) (m : CpgLockMsg) (now : Nat) :
    (d.processLock m now).out = d.out ∨
      d.MayGrant m.resource ∧ ∃ m', (d.processLock m now).out = d.out ++ [m'] := by
  cases hj : d.joined with
  | false =>
    rw [processLock, hj]
    exact .inl rfl
  | true =>
    unfold processLock
    simp only [hj, Bool.not_true, Bool.false_eq_true, if_false]
    split
    · next l hl =>
      split
      · next hme =>
        have hmay : d.MayGrant m.resource := ⟨hj, .inl ⟨l, hl, hme⟩⟩
        split
        · exact (grantFree_out (d.queueRequest m now) m).imp id fun h => ⟨hmay, h⟩
        · split
          · exact .inr ⟨hmay, _, rfl⟩
          · exact .inl rfl
      · exact .inl rfl
    · next hl =>
      split
      · next hhead =>
        exact (grantFree_out ((d.queueRequest m now).putLock m.resource .blank) m).imp id
          fun h => ⟨⟨hj, .inr ⟨hl, hhead⟩⟩, h⟩
      · exact .inl rfl

theorem Daemon.deliver_lock_out (d : Daemon) (now : Nat) (x : MemberItem) {m : CpgLockMsg}
    (hm : m.request = .lock) : (d.deliver now (.msg x m)).out = d.out ∨
      d.MayGrant m.resource ∧ ∃ m', (d.deliver now (.msg x m)).out = d.out ++ [m'] := by
  simp only [deliver, processRequest, hm]
  exact processLock_out { d with history := d.history.oldMsg m } m now

/-! ## The trace -/

theorem Sys.mem_effects {n n' : UInt32} {cause : Option Nat} {c : Option Nat} {d d' : Daemon}
    {m : CpgLockMsg} : .mcast n c m ∈ effects n' cause d d' ↔
      n = n' ∧ c = cause ∧ m ∈ d'.out.drop d.out.length := by
  simp only [effects, List.mem_append, List.mem_map]
  constructor
  · rintro (⟨m', hm', h⟩ | ⟨p, -, h⟩)
    · cases h
      exact ⟨rfl, rfl, hm'⟩
    · cases h
  · rintro ⟨rfl, rfl, hm⟩
    exact .inl ⟨m, hm, rfl⟩

theorem Sys.answers_effects (n : UInt32) (cause : Option Nat) (d d' : Daemon) (k : Nat) :
    ((effects n cause d d').filter (Obs.answers k)).length =
      if cause = some k then (d'.out.drop d.out.length).length else 0 := by
  have hreply : ∀ l : List (Nat × CpgLockMsg),
      (l.map fun p => Obs.reply n p.1 p.2).filter (Obs.answers k) = [] := by
    intro l
    refine List.filter_eq_nil_iff.2 fun o ho => ?_
    obtain ⟨p, -, rfl⟩ := List.mem_map.1 ho
    simp [Obs.answers]
  rw [effects, List.filter_append, hreply, List.append_nil]
  split
  · next h =>
    rw [List.filter_eq_self.2, List.length_map]
    intro o ho
    obtain ⟨m, -, rfl⟩ := List.mem_map.1 ho
    simp [Obs.answers, h]
  · next h =>
    rw [List.filter_eq_nil_iff.2]
    · rfl
    · intro o ho
      obtain ⟨m, -, rfl⟩ := List.mem_map.1 ho
      simp [Obs.answers, h]

/-- Observations other than multicasts answer nothing. -/
theorem filter_answers_eq_nil {seen : List Obs} (h : ∀ o ∈ seen, ∀ n c m, o ≠ .mcast n c m)
    (k : Nat) : seen.filter (Obs.answers k) = [] := by
  refine List.filter_eq_nil_iff.2 fun o ho => ?_
  cases o with
  | mcast n c m => exact absurd rfl (h _ ho n c m)
  | _ => simp [Obs.answers]

/-- What the trace says of the LOCK at index `k`: its answers came from the granter, which is past
it, and there is at most one. -/
def Answered (s : Sys) (k : Nat) (m : CpgLockMsg) : Prop :=
  (∀ n m', .mcast n (some k) m' ∈ s.trace → (Ledger.of (s.log.take k)).Granter m.resource n ∧
    ∀ nd, s.nodes n = some nd → k < nd.pos) ∧
  (s.trace.filter (Obs.answers k)).length ≤ 1

/-- Every LOCK is answered at most once, and nothing is caused by what is not ordered yet. -/
structure TraceOk (s : Sys) : Prop where
  caused : ∀ n k m, .mcast n (some k) m ∈ s.trace → k < s.log.length
  locks : ∀ k x m, s.log[k]? = some (.msg x m) → m.request = .lock → Answered s k m

/-- A step that orders an event keeps this up. -/
theorem TraceOk.append {s s' : Sys} {e : Event} (h : TraceOk s) (hlog : s'.log = s.log ++ [e])
    {seen : List Obs} (htrace : s'.trace = s.trace ++ seen)
    (hseen : ∀ o ∈ seen, ∀ n c m, o ≠ .mcast n c m)
    (hpos : ∀ n nd, s'.nodes n = some nd → (∃ nd', s.nodes n = some nd' ∧ nd.pos = nd'.pos) ∨
      s.log.length ≤ nd.pos) : TraceOk s' := by
  have hmem : ∀ {n c m}, .mcast n c m ∈ s'.trace → .mcast n c m ∈ s.trace := by
    intro n c m hm
    rw [htrace] at hm
    exact (List.mem_append.1 hm).resolve_right fun hm => hseen _ hm n c m rfl
  have hfilter : ∀ k, s'.trace.filter (Obs.answers k) = s.trace.filter (Obs.answers k) := by
    intro k
    rw [htrace, List.filter_append, filter_answers_eq_nil hseen, List.append_nil]
  refine ⟨fun n k m hm => ?_, fun k x m hk hm => ?_⟩
  · have := h.caused n k m (hmem hm)
    rw [hlog, List.length_append]
    omega
  · rw [hlog] at hk
    have hk' := (List.getElem?_eq_some_iff.1 hk).1
    simp only [List.length_append, List.length_cons, List.length_nil] at hk'
    by_cases hlast : k = s.log.length
    · -- nothing has answered what has just been ordered
      have hnone : ∀ n m', .mcast n (some k) m' ∈ s.trace → False := fun n m' hm' => by
        have := h.caused n k m' hm'
        omega
      refine ⟨fun n m' hm' => (hnone n m' (hmem hm')).elim, ?_⟩
      rw [hfilter, List.filter_eq_nil_iff.2]
      · exact Nat.zero_le _
      · intro o ho ha
        cases o with
        | mcast n c m' =>
          obtain rfl : c = some k := by simpa [Obs.answers] using ha
          exact hnone n m' ho
        | _ => cases ha
    · have hlt : k < s.log.length := by omega
      rw [List.getElem?_append_left hlt] at hk
      obtain ⟨hall, hcount⟩ := h.locks k x m hk hm
      refine ⟨fun n m' hm' => ?_, by rwa [hfilter]⟩
      obtain ⟨hg, hp⟩ := hall n m' (hmem hm')
      rw [hlog, List.take_append_of_le_length hlt.le]
      refine ⟨hg, fun nd hn => ?_⟩
      rcases hpos n nd hn with ⟨nd', hn', he⟩ | hle
      · rw [he]
        exact hp nd' hn'
      · omega

/-- A step of one daemon that is not the delivery of a LOCK keeps this up, and so does the delivery
of a LOCK that at most the granter answers. -/
theorem TraceOk.run {s : Sys} (h : TraceOk s) (hs : s.Sound) {n : UInt32} {nd : Node} {a : Act}
    {d : Daemon} {pos : Nat} {cause : Option Nat} {seen : List Obs} (hn : s.nodes n = some nd)
    (hl : s.Local n nd a d pos cause seen)
    (hlock : ∀ x m, cause = some nd.pos → s.log[nd.pos]? = some (.msg x m) → m.request = .lock →
      d.out = nd.d.out ∨ (Ledger.of (s.log.take nd.pos)).Granter m.resource n ∧
        ∃ m', d.out = nd.d.out ++ [m']) : TraceOk (s.run n nd d pos cause seen) := by
  have hb := hs.bounded n nd hn
  have hcause : ∀ k, cause = some k → k = nd.pos ∧ pos = nd.pos + 1 ∧ k < s.log.length := by
    rintro k rfl
    cases hl with
    | deliver he => exact ⟨rfl, rfl, (List.getElem?_eq_some_iff.1 he).1⟩
  have hseen : ∀ o ∈ seen, ∀ n c m, o ≠ .mcast n c m := by
    cases hl <;> simp
  have hmem : ∀ {k c m}, .mcast k c m ∈ (s.run n nd d pos cause seen).trace →
      .mcast k c m ∈ s.trace ∨ k = n ∧ c = cause ∧ m ∈ d.out.drop nd.d.out.length := by
    intro k c m hm
    rcases List.mem_append.1 hm with hm | hm
    · exact .inl ((List.mem_append.1 hm).resolve_right fun hm => hseen _ hm k c m rfl)
    · exact .inr (Sys.mem_effects.1 hm)
  have hpos : ∀ k nd', (s.run n nd d pos cause seen).nodes k = some nd' →
      ∃ nd₀, s.nodes k = some nd₀ ∧ nd₀.pos ≤ nd'.pos := by
    intro k nd' hk
    rcases Sys.setNode_cases hk with ⟨rfl, rfl⟩ | ⟨-, hk⟩
    · exact ⟨nd, hn, (hl.pos_le hb).1⟩
    · exact ⟨nd', hk, le_rfl⟩
  have hcount : ∀ k, ((s.run n nd d pos cause seen).trace.filter (Obs.answers k)).length =
      (s.trace.filter (Obs.answers k)).length +
        if cause = some k then (d.out.drop nd.d.out.length).length else 0 := by
    intro k
    rw [← Sys.answers_effects n cause nd.d d k]
    simp only [Sys.run, List.filter_append, filter_answers_eq_nil hseen, List.append_nil,
      List.length_append]
  refine ⟨fun k j m hm => ?_, fun k x m hk hm => ?_⟩
  · rcases hmem hm with hm | ⟨-, hc, -⟩
    · exact h.caused k j m hm
    · exact (hcause j hc.symm).2.2
  · obtain ⟨hall, hle⟩ := h.locks k x m hk hm
    by_cases hk' : cause = some k
    · obtain ⟨rfl, hpos', -⟩ := hcause k hk'
      -- no answer yet: the only daemon that could have answered is here
      have hnone : (∃ m', d.out = nd.d.out ++ [m']) →
          (Ledger.of (s.log.take nd.pos)).Granter m.resource n →
          (s.trace.filter (Obs.answers nd.pos)).length = 0 := by
        intro _ hg
        rw [List.length_eq_zero_iff, List.filter_eq_nil_iff]
        intro o ho ha
        cases o with
        | mcast k c m' =>
          obtain rfl : c = some nd.pos := by simpa [Obs.answers] using ha
          obtain ⟨hg', hp⟩ := hall k m' ho
          obtain rfl := (hs.ordered.inv _ hb).granter_unique hg hg'
          exact absurd (hp nd hn) (by omega)
        | _ => cases ha
      rcases hlock x m hk' hk hm with hout | ⟨hg, m₀, hout⟩
      · refine ⟨fun k m' hm' => ?_, by rw [hcount, hout]; simpa [hk'] using hle⟩
        rcases hmem hm' with hm' | ⟨-, -, hm'⟩
        · obtain ⟨hg, hp⟩ := hall k m' hm'
          refine ⟨hg, fun nd' hn' => ?_⟩
          obtain ⟨nd₀, hn₀, hle⟩ := hpos k nd' hn'
          exact (hp nd₀ hn₀).trans_le hle
        · rw [hout] at hm'
          simp at hm'
      · refine ⟨fun k m' hm' => ?_, ?_⟩
        · rcases hmem hm' with hm' | ⟨rfl, -, hm'⟩
          · obtain ⟨hg, hp⟩ := hall k m' hm'
            refine ⟨hg, fun nd' hn' => ?_⟩
            obtain ⟨nd₀, hn₀, hle⟩ := hpos k nd' hn'
            exact (hp nd₀ hn₀).trans_le hle
          · refine ⟨hg, fun nd' hn' => ?_⟩
            have : nd'.pos = pos := by
              rcases Sys.setNode_cases hn' with ⟨-, rfl⟩ | ⟨hne, -⟩
              · rfl
              · exact absurd rfl hne
            omega
        · rw [hcount, hnone ⟨m₀, hout⟩ hg, hout]
          simp [hk']
    · refine ⟨fun j m' hm' => ?_, by rw [hcount, if_neg hk']; exact hle⟩
      rcases hmem hm' with hm' | ⟨-, hc, -⟩
      · obtain ⟨hg, hp⟩ := hall j m' hm'
        refine ⟨hg, fun nd' hn' => ?_⟩
        obtain ⟨nd₀, hn₀, hle⟩ := hpos j nd' hn'
        exact (hp nd₀ hn₀).trans_le hle
      · exact absurd hc.symm hk'

theorem Runs.traceOk {P : Sys → Act → Prop} (hP : ∀ s a, P s a → a.HasPid) {s : Sys}
    (h : Runs P .init s) : TraceOk s := by
  induction h with
  | start => exact ⟨by simp [Sys.init], by simp [Sys.init]⟩
  | @next s s' a hr hp hstep ih =>
    have hs := Runs.sound hr
    obtain ⟨members, left, join, boot, rfl, -, rfl⟩ | ⟨n, nd, m, out, rfl, hn, hout, rfl⟩ |
      ⟨n, nd, d, pos, cause, seen, hn, -, hl, rfl⟩ := Sys.step_cases hstep
    · refine ih.append rfl rfl (by simp) fun n nd hn => ?_
      obtain ⟨-, ⟨x, -, -, -, rfl⟩ | ⟨-, hn⟩⟩ := Sys.nodesAfter_cases hn
      · exact .inr le_rfl
      · exact .inl ⟨nd, hn, rfl⟩
    · refine ih.append rfl (List.append_nil _).symm (by simp) fun k nd' hk => ?_
      rcases Sys.setNode_cases hk with ⟨rfl, rfl⟩ | ⟨-, hk⟩
      · exact .inl ⟨nd, hn, rfl⟩
      · exact .inl ⟨nd', hk, rfl⟩
    · refine ih.run hs hn hl fun x m hc he hm => ?_
      cases hl with
      | deliver he' =>
        obtain rfl := Option.some.inj (he.symm.trans he')
        exact (nd.d.deliver_lock_out nd.pos x hm).imp id fun h =>
          ⟨Runs.granter hP hr hn h.1, h.2⟩
      | _ => cases hc

/-- A client of daemon 1 locks `a`. -/
def oneLock : List Act :=
  twoDaemons ++ [.connect 1 5, .recv 1 5 (.lockMsg .a 100 1 0), .order 1,
    .deliver 1, .deliver 2]

instance (a : Act) : Decidable a.HasPid := by
  refine a.casesOn ?_ ?_ ?_ ?_ ?_ ?_ <;> intros <;> dsimp only [Act.HasPid] <;> infer_instance

end Cpglock
