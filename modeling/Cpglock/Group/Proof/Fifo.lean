import Cpglock.Daemon.Proof.Fifo
import Cpglock.Group.Proof.Founded
import Cpglock.Group.Proof.Handed

/-!
# The GRANTs follow the LOCKs

In a run without failures and FL_TRY whose first daemon joins alone, every daemon queues the end of the
requests for a resource in their order (`InLine`), and a GRANT is for the next of them (`NextGrant`). So
the GRANTs of a resource are a beginning of its LOCKs, in the same order (`Runs.grants_follow`).
-/

namespace Cpglock

/-- A run without failures, FL_TRY and late first daemons. -/
def Sys.Orderly (s : Sys) (a : Act) : Prop := s.FailureFree a ∧ s.FirstAlone a ∧ s.NoTry a

instance (s : Sys) (a : Act) : Decidable (s.Orderly a) := by
  unfold Sys.Orderly
  infer_instance

/-- A GRANT is for the first request that was not granted. -/
def NextGrant (done : List Event) (_ : UInt32) (m : CpgLockMsg) : Prop :=
  m.request = .grant →
    (lockOrder m.resource done)[(grantOrder m.resource done).length]? = some m.key

/-- What a daemon knows of the requests for each resource, after the order `done`. -/
structure InLine (done : List Event) (n : UInt32) (v : Daemon) : Prop where
  fifo : ∀ r, ∃ j, (v.cell r).Fifo r n (lockOrder r done) (grantOrder r done).length j ∧
    (j = 0 ∨ ∃ f, f ≠ n ∧ (Ledger.of done).Oldest f)
  known : ∀ r, (v.cell r).lock ≠ none → lockOrder r done ≠ []
  last : ∀ r l, (v.cell r).lock = some l → l.ownerNodeid = n →
    (grantOrder r done).getLast? = some (l.key r)
  own : ∀ r k, (grantOrder r done).getLast? = some k → k.nodeid = n →
    ∃ l, (v.cell r).lock = some l ∧ l.ownerNodeid = n
  first : ∀ r, lockOrder r done ≠ [] → (∃ f, f ≠ n ∧ (Ledger.of done).Oldest f) ∨
    grantOrder r done ≠ [] ∨ (v.cell r).Acts n

/-! ## The two orders -/

theorem grantOrder_take {r : Resource} {log : List Event} {j : Nat}
    (hnone : ∀ i x m, j ≤ i → log[i]? = some (.msg x m) → ¬m.Passes r) :
    grantOrder r (log.take j) = grantOrder r log := by
  have hdrop : (keysOf .grant (log.drop j)).filter (fun k => k.resource = r) = [] := by
    refine List.filter_eq_nil_iff.2 fun k hk hr => ?_
    obtain ⟨x, m, hmem, hm, rfl⟩ := mem_keysOf.1 hk
    obtain ⟨i, hi⟩ := List.mem_iff_getElem?.1 hmem
    rw [List.getElem?_drop] at hi
    exact hnone (j + i) x m (by omega) hi ⟨.inl hm, of_decide_eq_true hr⟩
  conv_rhs => rw [← List.take_append_drop j log]
  rw [grantOrder, grantOrder, keysOf_append, List.filter_append, hdrop, List.append_nil]

theorem Ordered.take {L : List Event → UInt32 → CpgLockMsg → Prop} {log : List Event}
    (h : Ordered L log) (j : Nat) : Ordered L (log.take j) := by
  intro k x m hk
  have hlt := (List.getElem?_eq_some_iff.1 hk).1
  rw [List.length_take] at hlt
  rw [List.getElem?_take_of_lt (by omega)] at hk
  rw [List.take_take, min_eq_left (by omega)]
  exact h k x m hk

theorem getElem?_of_grows {α : Type*} {l l' : List α} {i : Nat} {a : α} (h : l <+: l')
    (hi : l[i]? = some a) : l'[i]? = some a := by
  obtain ⟨t, rfl⟩ := h
  rwa [List.getElem?_append_left (List.getElem?_eq_some_iff.1 hi).1]

/-- If every GRANT is for the next request, the GRANTs are a beginning of the LOCKs. -/
theorem Ordered.grants_follow {log : List Event} (h : Ordered NextGrant log) (r : Resource) :
    grantOrder r log <+: lockOrder r log := by
  induction log using List.reverseRecOn with
  | nil => exact List.prefix_rfl
  | append_singleton log e ih =>
    have ih := ih h.init
    cases e with
    | confchg members left join => rwa [grantOrder_change, lockOrder_change]
    | msg x m =>
      by_cases hg : m.request = .grant ∧ m.resource = r
      · obtain ⟨hm, rfl⟩ := hg
        rw [grantOrder_grant hm rfl, lockOrder_other (by simp [hm])]
        have hlast := h.last hm
        obtain ⟨l, hl⟩ := ih
        rw [← hl, List.getElem?_append_right le_rfl, Nat.sub_self] at hlast
        cases l with
        | nil => cases hlast
        | cons k l =>
          obtain rfl := Option.some.inj hlast
          exact ⟨l, by rw [← hl]; simp⟩
      · rw [grantOrder_other hg]
        exact ih.trans (lockOrder_grows r log _)

/-- A daemon that has not joined leaves its tables alone. -/
theorem Daemon.CellMove.eq_of_not_joined {d : Daemon} {r : Resource} {now : Nat} {m : CpgLockMsg}
    {c : Cell} (h : d.CellMove r now m c) (hj : d.joined = false) : c = d.cell r := by
  cases h with
  | same => rfl
  | _ => simp_all

namespace InLine

variable {done : List Event} {n : UInt32} {v : Daemon}

/-- A daemon that knows nothing, and has asked for nothing. -/
theorem blank {r : Resource} (hl : (v.cell r).lock = none) (hw : (v.cell r).waiting = [])
    (hs : ∀ m ∈ (v.cell r).sent, m.request ≠ .grant)
    (hf : ∀ k ∈ lockOrder r done, k.nodeid ≠ n)
    (hold : lockOrder r done ≠ [] → ∃ f, f ≠ n ∧ (Ledger.of done).Oldest f) :
    ∃ j, (v.cell r).Fifo r n (lockOrder r done) (grantOrder r done).length j ∧
      (j = 0 ∨ ∃ f, f ≠ n ∧ (Ledger.of done).Oldest f) := by
  refine ⟨(lockOrder r done).length,
    .blank hl hw hs le_rfl (le_max_left _ _) fun k hk => hf k (List.mem_of_mem_take hk), ?_⟩
  by_cases hnil : lockOrder r done = []
  · exact .inl (by rw [hnil]; rfl)
  · exact .inr (hold hnil)

theorem start (x : MemberItem) (b : Boot) (hg : ∀ r, ∀ k ∈ grantOrder r done, k.nodeid ≠ x.nodeid)
    (hf : ∀ r, ∀ k ∈ lockOrder r done, k.nodeid ≠ x.nodeid)
    (hold : ∀ r, lockOrder r done ≠ [] → ∃ f, f ≠ x.nodeid ∧ (Ledger.of done).Oldest f) :
    InLine done x.nodeid (.start x b) where
  fifo r := by
    refine blank rfl rfl (fun m hm => ?_) (hf r) (hold r)
    rw [List.mem_singleton.1 (show m ∈ [_] from (List.mem_filter.1 hm).1)]
    simp [CpgLockMsg.blank]
  known r h := absurd rfl h
  last r l hl := by cases hl
  own r k hk hn := absurd hn (hg r k (List.mem_of_getLast? hk))
  first r hne := .inl (hold r hne)

/-- Nothing is ordered for a lock, and the oldest daemons stay. -/
theorem same {done' : List Event} {v' : Daemon} (h : InLine done n v)
    (hcell : ∀ r, v'.cell r = v.cell r) (hlocks : ∀ r, lockOrder r done' = lockOrder r done)
    (hgrants : ∀ r, grantOrder r done' = grantOrder r done)
    (hold : ∀ f, (Ledger.of done).Oldest f → (Ledger.of done').Oldest f) : InLine done' n v' where
  fifo r := by
    obtain ⟨j, hj, hf⟩ := h.fifo r
    rw [hcell, hlocks, hgrants]
    exact ⟨j, hj, hf.imp_right fun ⟨f, hne, hf⟩ => ⟨f, hne, hold f hf⟩⟩
  known r := by
    rw [hcell, hlocks]
    exact h.known r
  last r := by
    rw [hcell, hgrants]
    exact h.last r
  own r := by
    rw [hcell, hgrants]
    exact h.own r
  first r := by
    rw [hcell, hlocks, hgrants]
    exact fun hne => (h.first r hne).imp_left fun ⟨f, hf, ho⟩ => ⟨f, hf, hold f ho⟩

/-- What a daemon that is delivered `m` from node `x` may rely on. -/
structure Fits (done : List Event) (n : UInt32) (v : Daemon) (x : MemberItem) (m : CpgLockMsg)
    (out : List CpgLockMsg) : Prop where
  me : v.myNodeId = n
  pos : n ≠ 0
  inv : (Ledger.of done).Inv
  ok : (Ledger.of done).EventOk (.msg x m)
  views : (Ledger.of done).views n = some v.toMembership
  pop : v.out = if x.nodeid = n then m :: out else out
  still : ∀ r, m.Passes r → (({ v with out } : Daemon).cell r).Still r
  turn : ∀ r, ¬m.Passes r → (({ v with out } : Daemon).cell r).Turn r n
  empty : ∀ r, (v.cell r).lock = none → (v.cell r).waiting = []
  unknown : v.joined = false → ∀ r, (v.cell r).lock = none
  grants : ∀ r, grantOrder r done <+: lockOrder r done
  nodup : ∀ r, (lockOrder r done).Nodup
  next : NextGrant done x.nodeid m
  patient : m.Patient
  mine : m.request = .grant → m.ownerNodeid = n → (v.cell m.resource).lock ≠ none
  foreign : v.joined = false → ∀ r, ∀ k ∈ lockOrder r (done ++ [.msg x m]), k.nodeid ≠ n
  founded : ∀ r, lockOrder r (done ++ [.msg x m]) ≠ [] → ∃ f, (Ledger.of done).Oldest f

/-- The first delivered LOCK, or one of a daemon that has not joined, makes another daemon known as the
oldest. -/
theorem Fits.older {x : MemberItem} {m : CpgLockMsg} {out : List CpgLockMsg}
    (hf : Fits done n v x m out) {r : Resource} (hne : lockOrder r (done ++ [.msg x m]) ≠ [])
    (h : ¬(v.joined = true ∧ v.getOldestNode.nodeid = n)) :
    ∃ f, f ≠ n ∧ (Ledger.of (done ++ [.msg x m])).Oldest f := by
  obtain ⟨f, hold⟩ := hf.founded r hne
  refine ⟨f, ?_, ?_⟩
  · rintro rfl
    obtain ⟨g, hg, hj, -⟩ := id hold
    obtain rfl := Option.some.inj (hf.views.symm.trans hg)
    exact h ⟨hj, hold.getOldestNode hf.views⟩
  · rw [Ledger.of_append]
    exact hold.step hf.ok (by rintro members left join ⟨⟩)

section

variable {out : List CpgLockMsg} {now : Nat} {x : MemberItem} {m : CpgLockMsg} {r : Resource}
  {c : Cell}

/-- The queue after a delivery. -/
theorem fifo_message (h : InLine done n v) (hf : Fits done n v x m out)
    (hmove : ({ v with out } : Daemon).CellMove r now m c) :
    ∃ j, c.Fifo r n (lockOrder r (done ++ [.msg x m])) (grantOrder r (done ++ [.msg x m])).length j ∧
      (j = 0 ∨ ∃ f, f ≠ n ∧ (Ledger.of (done ++ [.msg x m])).Oldest f) := by
  obtain ⟨d, hd⟩ : ∃ d : Daemon, d = { v with out } := ⟨_, rfl⟩
  have hcell : v.cell r = { d.cell r with
      sent := (if x.nodeid = n ∧ m.concerns r then [m] else []) ++ (d.cell r).sent } := by
    rw [hd]
    exact cell_pop hf.pop r
  have hme : d.myNodeId = n := by
    rw [hd]
    exact hf.me
  rw [← hd] at hmove
  have hstill : m.Passes r → (d.cell r).Still r := by
    rw [hd]
    exact hf.still r
  have hturn : ¬m.Passes r → (d.cell r).Turn r n := by
    rw [hd]
    exact hf.turn r
  have hempty : (d.cell r).lock = none → (d.cell r).waiting = [] := by
    rw [hd]
    exact hf.empty r
  cases hjoin : v.joined with
  | false =>
    -- it has missed all requests
    have hl : (d.cell r).lock = none := by
      rw [hd]
      exact hf.unknown hjoin r
    have hst : (d.cell r).Still r := by
      by_cases hp : m.Passes r
      · exact hstill hp
      · exact (hturn hp).still_of_none hl
    obtain rfl := hmove.eq_of_not_joined (by rw [hd]; exact hjoin)
    exact blank hl (hempty hl) (Cell.Fifo.not_grant hst) (hf.foreign hjoin r)
      fun hne => hf.older hne (by simp [hjoin])
  | true =>
    have hdj : d.joined = true := by rw [hd]; exact hjoin
    obtain ⟨j, hj, hfirst⟩ := h.fifo r
    rw [hcell] at hj
    have hfirst' : j = 0 ∨ ∃ f, f ≠ n ∧ (Ledger.of (done ++ [.msg x m])).Oldest f := by
      refine hfirst.imp_right ?_
      rintro ⟨f, hne, hold⟩
      refine ⟨f, hne, ?_⟩
      rw [Ledger.of_append]
      exact hold.step hf.ok (by rintro members left join ⟨⟩)
    refine ⟨j, ?_, hfirst'⟩
    subst hme
    by_cases hl : m.request = .lock ∧ m.resource = r
    · have hng : ¬(m.request = .grant ∧ m.resource = r) := by simp [hl.1]
      rw [lockOrder_lock hl.1 hl.2, grantOrder_other hng]
      refine Cell.Fifo.lock (hj.popped.1 hng) hmove (hturn ?_) hf.pos hl.1 hl.2 hdj (hf.patient.2 hl.1)
        (hf.grants r).length_le hempty fun hhead => ?_
      · simp [CpgLockMsg.Passes, hl.1]
      · refine hfirst.resolve_right ?_
        rintro ⟨f, hne, hold⟩
        refine hne (hf.inv.oldest_unique hold (hf.inv.oldest_of_head hf.views hjoin ?_))
        rw [← hhead, hd]
        rfl
    · rw [lockOrder_other hl]
      by_cases hg : m.request = .grant ∧ m.resource = r
      · obtain ⟨hg, rfl⟩ := hg
        rw [grantOrder_grant hg rfl, List.length_append, List.length_singleton]
        exact hj.grant hmove (hstill ⟨.inl hg, rfl⟩) hg rfl hdj (hf.nodup _) (hf.next hg) hempty
      · rw [grantOrder_other hg]
        exact (hj.popped.1 hg).other hmove hstill (fun h => hl h.2) (fun h => hg h.2) hf.patient.1

theorem message (h : InLine done n v) (hf : Fits done n v x m out)
    (hmove : ∀ r, ({ v with out } : Daemon).CellMove r now m
      ((({ v with out } : Daemon).deliver now (.msg x m)).cell r)) :
    InLine (done ++ [.msg x m]) n (({ v with out } : Daemon).deliver now (.msg x m)) := by
  have hme : ({ v with out } : Daemon).myNodeId = n := hf.me
  refine ⟨fun r => h.fifo_message hf (hmove r), fun r hl => ?_, fun r l hl hn => ?_,
    fun r k hk hn => ?_, fun r hne => ?_⟩
  · have hgrow := lockOrder_grows r done [.msg x m]
    rcases (hmove r).known hl with hl | ⟨hm | hm, hr⟩
    · intro hnil
      rw [hnil, List.prefix_nil] at hgrow
      exact h.known r hl hgrow
    · rw [lockOrder_lock hm hr]
      simp
    · intro hnil
      rw [hnil, List.prefix_nil] at hgrow
      have hnext := hf.next hm
      rw [hr, hgrow] at hnext
      cases hnext
  · rcases (hmove r).own_entry (hme ▸ hf.pos) hl (hn.trans hme.symm) with
      ⟨l₀, hl₀, hn₀, hkey, -, hno⟩ | ⟨hm, hr, -, rfl, -⟩
    · have hg : ¬(m.request = .grant ∧ m.resource = r) := by
        intro hg
        cases hj : v.joined with
        | false => exact absurd ((hf.unknown hj r).symm.trans hl₀) (by simp)
        | true => exact hno ⟨hj, hg⟩
      rw [grantOrder_other hg, hkey]
      exact h.last r l₀ hl₀ (hn₀.trans hme)
    · rw [grantOrder_grant hm hr, List.getLast?_concat]
      simp [CpgLock.key, CpgLockMsg.key, Daemon.granted, hr]
  · by_cases hg : m.request = .grant ∧ m.resource = r
    · obtain ⟨hm, rfl⟩ := hg
      rw [grantOrder_grant hm rfl, List.getLast?_concat] at hk
      obtain rfl := Option.some.inj hk
      obtain ⟨l, hl⟩ := Option.ne_none_iff_exists'.1 (hf.mine hm hn)
      have hj : v.joined = true := by
        by_contra hj
        refine absurd hl ?_
        rw [hf.unknown (Bool.eq_false_iff.2 hj)]
        simp
      exact ⟨_, ((hmove m.resource).eq_taken hj hm rfl hl).1, hn⟩
    · rw [grantOrder_other hg] at hk
      obtain ⟨l, hl, hown⟩ := h.own r k hk hn
      obtain ⟨l', hl', hown'⟩ := (hmove r).own_stays hl (hown.trans hme.symm) hg
      exact ⟨l', hl', hown'.trans hme⟩
  · by_cases hg : m.request = .grant ∧ m.resource = r
    · exact .inr (.inl (by rw [grantOrder_grant hg.1 hg.2]; simp))
    rw [grantOrder_other hg]
    by_cases hnil : lockOrder r done = []
    · -- the first LOCK
      by_cases hhead : v.joined = true ∧ v.getOldestNode.nodeid = n
      · have hm : m.request = .lock ∧ m.resource = r := by
          by_contra hm
          exact hne (by rw [lockOrder_other hm, hnil])
        have hl : (v.cell r).lock = none := by
          by_contra hl
          exact h.known r hl hnil
        have := (hmove r).acts_of_lock hhead.1 hm.1 hm.2 hl (hhead.2.trans hme.symm)
        exact .inr (.inr (by rwa [hme] at this))
      · exact .inl (hf.older hne hhead)
    · rcases h.first r hnil with ⟨f, hne, hold⟩ | hgr | ha
      · refine .inl ⟨f, hne, ?_⟩
        rw [Ledger.of_append]
        exact hold.step hf.ok (by rintro members left join ⟨⟩)
      · exact .inr (.inl hgr)
      · have := (hmove r).acts_stays (by rwa [hme]) hg
        exact .inr (.inr (by rwa [hme] at this))

end

/-- The GRANT that waits at a daemon is for the next request, if no other is on its way. -/
theorem next {log : List Event} {j : Nat} (h : InLine (log.take j) n v) {m : CpgLockMsg}
    (hm : m ∈ v.out) (hg : m.request = .grant)
    (hnone : ∀ i x g, j ≤ i → log[i]? = some (.msg x g) → ¬g.Passes m.resource) :
    NextGrant log n m := by
  intro _
  obtain ⟨i, hfifo, -⟩ := h.fifo m.resource
  have hnext := hfifo.sent m (List.mem_filter.2 ⟨hm, by simp [CpgLockMsg.concerns]⟩) hg
  rw [grantOrder_take hnone] at hnext
  refine getElem?_of_grows ?_ hnext
  have := lockOrder_grows m.resource (log.take j) (log.drop j)
  rwa [List.take_append_drop] at this

/-- A client's message. -/
theorem client (h : InLine done n v) (hme : v.myNodeId = n) (fd : Nat) (m : CpgLockMsg)
    (hunlock : m.request = .unlock → ∀ r l, (v.cell r).lock = some l → l.localId = m.lockid →
      l.state = .held ∧ l.ownerNodeid = n ∧ (v.cell r).Still r) :
    InLine done n (v.clientActivityCb fd m) := by
  have hw := fun r => Daemon.cellWrite_clientActivityCb v r fd m
  refine ⟨fun r => ?_, fun r => ?_, fun r => ?_, fun r => ?_, fun r => ?_⟩
  · obtain ⟨j, hj, hf⟩ := h.fifo r
    subst hme
    exact ⟨j, hj.write (hw r) fun hm l => hunlock hm r l, hf⟩
  · rw [(hw r).lock]
    exact h.known r
  · rw [(hw r).lock]
    exact h.last r
  · rw [(hw r).lock]
    exact h.own r
  · rw [Cell.Acts, (hw r).lock]
    exact h.first r

end InLine

/-! ## Runs -/

section

variable {P : Sys → Act → Prop} (hP : ∀ s a, P s a → s.Orderly a ∧ s.UnlocksHeld a)
include hP

/-- When a request was ordered, some daemon is the oldest. -/
theorem Runs.exists_oldest_of_locked {s : Sys} (h : Runs P .init s) {k : Nat}
    (hk : k ≤ s.log.length) {q : RequestKey} (hq : Locked (s.log.take k) q) :
    ∃ f, (Ledger.of (s.log.take k)).Oldest f := by
  have hF := fun s a hp => (hP s a hp).1.1
  have hs := Runs.sound h
  have hjoined := hq.joined (Runs.heard hF h).1 hs.ordered (h.nobody_left fun s a hp => (hF s a hp).1) hk
  exact (h.founded (fun s a hp => ⟨(hF s a hp).1, (hP s a hp).1.2.1⟩) k hk).exists_oldest
    (hs.ordered.inv k hk) hjoined

/-- No two requests for a resource have the same identity. -/
theorem Runs.lockOrder_nodup {s : Sys} (h : Runs P .init s) (r : Resource) (k : Nat) :
    (lockOrder r (s.log.take k)).Nodup := by
  have hnd := h.locks_nodup fun s a hp => (hP s a hp).1.1
  exact (hnd.sublist (keysOf_take_sublist .lock s.log k)).sublist List.filter_sublist

theorem Runs.fits_inLine {s : Sys} (h : Runs P .init s) (hlog : Ordered NextGrant s.log)
    {n : UInt32} {nd : Node} (hn : s.nodes n = some nd) {x : MemberItem} {m : CpgLockMsg}
    (he : s.log[nd.pos]? = some (.msg x m)) {out : List CpgLockMsg}
    (hout : (nd.view s.log n).out = if x.nodeid = n then m :: out else out) :
    InLine.Fits (s.log.take nd.pos) n (nd.view s.log n) x m out := by
  have hF := fun s a hp => (hP s a hp).1.1
  have hFU := fun s a hp => (⟨(hP s a hp).1.1, (hP s a hp).2⟩ : s.FailureFree a ∧ s.UnlocksHeld a)
  have hs := Runs.sound h
  have hb := hs.bounded n nd hn
  have hplain := (h.plain_of hF).2 n nd hn
  obtain ⟨hheard, hv⟩ := Runs.heard hF h
  have hviews := (hs.node n nd hn).views_of_msg he
  have hm := hheard nd.pos x m he
  have hnext : (nd.view s.log n).joined = false → ∀ k, Locked (s.log.take nd.pos ++ [.msg x m]) k →
      k.nodeid ≠ n := by
    intro hj k hk hkn
    rcases hk.of_append with hk | ⟨y, g, heq, hl, rfl⟩
    · exact absurd (((hv n nd hn).mine k hk hkn).1.symm.trans hj) (by decide)
    · obtain ⟨rfl, rfl⟩ := Event.msg.inj heq
      obtain ⟨hx, g, hg, hgj⟩ := hm.lock hl
      rw [← hx, show m.ownerNodeid = n from hkn] at hg
      obtain rfl := Option.some.inj (hviews.symm.trans hg)
      exact absurd (hgj.symm.trans hj) (by decide)
  exact
    { me := hplain.me
      pos := hplain.pos
      inv := hs.ordered.inv nd.pos hb
      ok := hs.ordered _ _ he
      views := hviews
      pop := hout
      still := fun r => (Runs.popped hFU h hn he hout r).1
      turn := fun r => (Runs.popped hFU h hn he hout r).2
      empty := ((Runs.once hFU h).2 n nd hn).empty
      unknown := hplain.empty
      grants := (hlog.take nd.pos).grants_follow
      nodup := fun r => Runs.lockOrder_nodup hP h r nd.pos
      next := hlog nd.pos x m he
      patient := (h.patient fun s a hp => ⟨(hP s a hp).1.1, (hP s a hp).1.2.2⟩).1 nd.pos x m he
      mine := fun hg hown => (h.smooth_of hF hheard (hv n nd hn) hn he).mine hg
        (hown.trans hplain.me.symm)
      foreign := fun hj r k hk => hnext hj k (mem_lockOrder.1 hk).1
      founded := fun r hne => by
        obtain ⟨k, hk⟩ := List.exists_mem_of_ne_nil _ hne
        rcases (mem_lockOrder.1 hk).1.of_append with hk | ⟨y, g, heq, hl, -⟩
        · exact Runs.exists_oldest_of_locked hP h hb hk
        · obtain ⟨rfl, rfl⟩ := Event.msg.inj heq
          exact (h.founded (fun s a hp => ⟨(hF s a hp).1, (hP s a hp).1.2.1⟩) _ hb).exists_oldest
            (hs.ordered.inv nd.pos hb) (hm.lock hl).2 }

theorem Runs.inLine {s : Sys} (h : Runs P .init s) :
    Ordered NextGrant s.log ∧ s.Views InLine := by
  have hF := fun s a hp => (hP s a hp).1.1
  have hFU := fun s a hp => (⟨(hP s a hp).1.1, (hP s a hp).2⟩ : s.FailureFree a ∧ s.UnlocksHeld a)
  refine (h.rule Sys.sound_init (by intro k x m h; simp [Sys.init] at h)
    (by intro n nd h; cases h) ?_ ?_ ?_).2
  · intro s members left join boot hs hr hp hok x b hx _
    have hnone := hs.nodes_join hok hx
    have hheard := (Runs.heard hF hr).1
    have hlocked : ∀ k, Locked s.log k → k.nodeid ≠ x.nodeid := by
      rintro k ⟨y, m, hm, hl, rfl⟩ hkx
      obtain ⟨-, nd, hnd, -⟩ := hr.asker_connected hF ((Runs.fromClients hr).log y m hm (.inl hl))
      rw [hkx, hnone] at hnd
      cases hnd
    refine .start x b (fun r k hk => ?_) (fun r k hk => hlocked k (mem_lockOrder.1 hk).1)
      fun r hne => ?_
    · obtain ⟨y, m, hm, hg, rfl⟩ := mem_keysOf.1 (List.mem_filter.1 hk).1
      obtain ⟨j, hj⟩ := List.mem_iff_getElem?.1 hm
      obtain ⟨z, l, hl, hlock⟩ := (hheard j y m hj).answer (.inl hg)
      exact hlocked m.key ⟨z, l, List.mem_of_mem_take hl, hlock⟩
    · obtain ⟨k, hk⟩ := List.exists_mem_of_ne_nil _ hne
      have hk : Locked (s.log.take s.log.length) k := by
        rw [List.take_length]
        exact (mem_lockOrder.1 hk).1
      obtain ⟨f, hold⟩ := Runs.exists_oldest_of_locked hP hr le_rfl hk
      rw [List.take_length] at hold
      refine ⟨f, ?_, hold⟩
      rintro rfl
      obtain ⟨g, hg, hj, -⟩ := hold
      obtain ⟨nd, hn⟩ := hs.exists_node ⟨g, hg, hj⟩
      rw [hnone] at hn
      cases hn
  · intro s n nd m out hs hr _ _ hv hn hout hm
    obtain ⟨hlead, hleads⟩ := Runs.leads hFU hr
    have hlog := (hs.waiting hlead (hleads n nd hn) ((hr.plain_of hF).2 n nd hn) hn
      (m := m) (by simp [hout]) ⟨.inl hm, rfl⟩).2
    exact (hv n nd hn).next (Node.mem_view hout) hm hlog hm
  · intro s a n nd v pos hs hr hp hlog hv hn _ hstep
    have hqueued := hv n nd hn
    have hme : (nd.view s.log n).myNodeId = n := ((hr.plain_of hF).2 n nd hn).me
    cases hstep with
    | @msg x m out he hout =>
      rw [List.take_add_one, he]
      exact hqueued.message (Runs.fits_inLine hP hr hlog hn he hout) (hr.cellMove hF hn he out)
    | @change members left join he =>
      obtain rfl := hr.nobody_left (fun s a hp => (hF s a hp).1) _ _ _ (List.mem_of_getElem? he)
      have hok := hs.ordered _ _ he
      rw [List.take_add_one, he]
      refine hqueued.same (fun r => rfl) (fun r => lockOrder_change r _ _ _ _)
        (fun r => grantOrder_change r _ _ _ _) fun f hold => ?_
      rw [Option.toList_some, Ledger.of_append]
      refine hold.step hok ?_
      rintro members left join ⟨⟩
      simp
    | connect => exact hqueued.same (fun r => rfl) (fun r => rfl) (fun r => rfl) fun f hold => hold
    | @recv fd m =>
      exact hqueued.client hme fd m fun hm r l hl hid => (hP _ _ hp).2 hm nd hn r l hl hid
    | close => exact ((hF _ _ hp).2.1 : False).elim

end

end Cpglock
