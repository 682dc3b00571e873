import Cpglock.Daemon.Proof.Turn

/-!
# A queue is the end of the requests in their order

`Cell.Fifo`: of the requests `A` for a resource the first `g` have been granted, and a daemon that knows
all but the first `j` of them queues those that are neither. A daemon that decides about the lock misses
none of the waiting ones (`acts`), so what it grants is the next. Smooth deliveries without FL_TRY keep
this, one request or one grant further.
-/

namespace Cpglock

namespace Cell

structure Fifo (r : Resource) (n : UInt32) (A : List RequestKey) (g j : Nat) (c : Cell) : Prop where
  bound : j ≤ A.length
  keys : c.keys = A.drop (max j g)
  foreign : ∀ k ∈ A.take j, k.nodeid ≠ n
  acts : c.Acts n → j ≤ g
  marks : ∀ q ∈ c.waiting, q.state ≠ .pending → ∃ m ∈ c.sent, m.request = .grant ∧ m.key = q.key
  sent : ∀ m ∈ c.sent, m.request = .grant → A[g]? = some m.key
  free : ∀ l, c.lock = some l → l.ownerNodeid = n → l.state = .free → c.waiting = []

namespace Fifo

variable {r : Resource} {n : UInt32} {A : List RequestKey} {g j : Nat} {c c' : Cell} {m : CpgLockMsg}
  {l : CpgLock}

/-- Where no GRANT is on its way no request is marked. -/
theorem all_pending (h : c.Fifo r n A g j) (hs : c.Still r) (hw : ∀ q ∈ c.waiting, q.resource = r) :
    ∀ q ∈ c.waiting, q.state = .pending := by
  intro q hq
  by_contra hne
  obtain ⟨m, hm, hg, hk⟩ := h.marks q hq hne
  exact hs m hm ⟨.inl hg, (congrArg RequestKey.resource hk).trans (hw q hq)⟩

/-- A daemon that decides and queues nothing has granted all requests. -/
theorem length_eq (h : c.Fifo r n A g j) (hg : g ≤ A.length) (hj : j ≤ g) (hw : c.waiting = []) :
    g = A.length := by
  have hk := h.keys
  rw [Cell.keys, hw, List.map_nil, eq_comm, List.drop_eq_nil_iff] at hk
  omega

/-- The first request of the queue is the next one. -/
theorem next (h : c.Fifo r n A g j) (hj : j ≤ g) {q : RequestItem} {l : List RequestItem}
    (hw : c.waiting = q :: l) : A[g]? = some q.key := by
  have hk := h.keys
  rw [Cell.keys, hw, List.map_cons, max_eq_right hj] at hk
  rw [← List.head?_drop, ← hk]
  rfl

theorem keys_append (h : c.Fifo r n A g j) (hg : g ≤ A.length) (k : RequestKey) :
    c.keys ++ [k] = (A ++ [k]).drop (max j g) := by
  rw [List.drop_append_of_le_length (max_le h.bound hg), h.keys]

theorem foreign_append (h : c.Fifo r n A g j) (k : RequestKey) :
    ∀ q ∈ (A ++ [k]).take j, q.nodeid ≠ n := by
  rw [List.take_append_of_le_length h.bound]
  exact h.foreign

theorem sent_append (h : c.Fifo r n A g j) (k : RequestKey) :
    ∀ m ∈ c.sent, m.request = .grant → (A ++ [k])[g]? = some m.key := by
  intro m hm hgr
  have hs := h.sent m hm hgr
  rwa [List.getElem?_append_left (List.getElem?_eq_some_iff.1 hs).1]

/-- A daemon that knows neither the lock nor a request. -/
theorem blank (hl : c.lock = none) (hw : c.waiting = []) (hs : ∀ m ∈ c.sent, m.request ≠ .grant)
    (hb : j ≤ A.length) (hlen : A.length ≤ max j g) (hf : ∀ k ∈ A.take j, k.nodeid ≠ n) :
    c.Fifo r n A g j where
  bound := hb
  keys := by rw [Cell.keys, hw, List.map_nil, eq_comm, List.drop_eq_nil_iff]; exact hlen
  foreign := hf
  acts := by
    rintro ⟨l, hl', -⟩
    exact absurd (hl.symm.trans hl') (by simp)
  marks q hq := by
    rw [hw] at hq
    cases hq
  sent m hm hg := absurd hg (hs m hm)
  free l hl' := absurd (hl.symm.trans hl') (by simp)

/-- Messages that grant nothing come and go. -/
theorem sub (h : c.Fifo r n A g j) (hl : c'.lock = c.lock) (hw : c'.waiting = c.waiting)
    (hs : ∀ m, m.request = .grant → (m ∈ c'.sent ↔ m ∈ c.sent)) : c'.Fifo r n A g j where
  bound := h.bound
  keys := by rw [Cell.keys, hw]; exact h.keys
  foreign := h.foreign
  acts ha := h.acts (by rwa [Cell.Acts, ← hl])
  marks q hq hne := by
    obtain ⟨m, hm, hg, hk⟩ := h.marks q (hw ▸ hq) hne
    exact ⟨m, (hs m hg).2 hm, hg, hk⟩
  sent m hm hg := h.sent m ((hs m hg).1 hm) hg
  free l hl' hn hf := by
    rw [hw]
    exact h.free l (hl ▸ hl') hn hf

/-- A request is queued. -/
theorem enqueue (h : c.Fifo r n A g j) (hg : g ≤ A.length) (now : Nat)
    (hw : c'.waiting = c.waiting ++ [m.item now]) (hs : c'.sent = c.sent) (ha : c'.Acts n → j ≤ g)
    (hf : ∀ l, c'.lock = some l → l.ownerNodeid = n → l.state ≠ .free) :
    c'.Fifo r n (A ++ [m.key]) g j where
  bound := by
    have := h.bound
    rw [List.length_append]
    omega
  keys := by
    rw [← h.keys_append hg, Cell.keys, hw, List.map_append]
    rfl
  foreign := h.foreign_append _
  acts := ha
  marks q hq hne := by
    rw [hw] at hq
    rw [hs]
    rcases List.mem_append.1 hq with hq | hq
    · exact h.marks q hq hne
    · rw [List.mem_singleton.1 hq] at hne
      exact absurd rfl hne
  sent := by
    rw [hs]
    exact h.sent_append _
  free l hl hn hst := absurd hst (hf l hl hn)

/-- A GRANT of the only request that waits, or the first. -/
theorem pick {q : RequestItem} {ws : List RequestItem} (h : c.Fifo r n A g j) (hj : j ≤ g)
    (hpend : ∀ x ∈ c.waiting, x.state = .pending) (hq : Picks c.waiting q ws)
    (hno : ∀ m ∈ c.sent, m.request ≠ .grant)
    (hl : ∀ l', c'.lock = some l' → l'.state ≠ .free) (hw : c'.waiting = ws)
    (hs : c'.sent = c.sent ++ [Daemon.grantMsg q]) : c'.Fifo r n A g j := by
  obtain ⟨l, hl', rfl⟩ := hq.first hpend
  refine ⟨h.bound, ?_, h.foreign, fun _ => hj, fun x hx hne => ?_, fun m hm hg => ?_,
    fun l' hl'' _ hf => absurd hf (hl l' hl'')⟩
  · rw [Cell.keys, hw, hq.keys]
    exact h.keys
  · rw [hw] at hx
    rcases List.mem_cons.1 hx with rfl | hx
    · exact ⟨Daemon.grantMsg q, by rw [hs]; simp, rfl, rfl⟩
    · exact absurd (hpend x (by rw [hl']; simp [hx])) hne
  · rw [hs] at hm
    rcases List.mem_append.1 hm with hm | hm
    · exact absurd hg (hno m hm)
    · rw [List.mem_singleton.1 hm]
      exact h.next hj hl'

/-! ## Deliveries -/

theorem getD_blank_cases {o : Option CpgLock} {l : CpgLock} (h : some (o.getD .blank) = some l) :
    o = some l ∨ o = none ∧ l = .blank := by
  cases o with
  | some l' => exact .inl h
  | none => exact .inr ⟨rfl, (Option.some.inj h).symm⟩

/-- Before the delivery of `m` it may have been the message on its way. -/
theorem popped {own : Prop} [Decidable own]
    (h : Cell.Fifo r n A g j { c with sent := (if own ∧ m.concerns r then [m] else []) ++ c.sent }) :
    (¬(m.request = .grant ∧ m.resource = r) → c.Fifo r n A g j) ∧
      (c.Still r → (∀ q ∈ c.waiting, q.resource = r) →
        ∀ q ∈ c.waiting, q.state ≠ .pending → m.request = .grant ∧ q.key = m.key) := by
  refine ⟨fun hm => ?_, fun hs hw q hq hne => ?_⟩
  · refine h.sub rfl rfl fun m' hm' => ?_
    by_cases hown : own ∧ m.concerns r = true
    · have hne : m' ≠ m := by
        rintro rfl
        exact hm ⟨hm', by simpa [CpgLockMsg.concerns, hm'] using hown.2⟩
      simp [hown, hne]
    · simp [hown]
  · obtain ⟨m', hm', hg, hk⟩ := h.marks q hq hne
    rcases List.mem_append.1 hm' with hm' | hm'
    · split at hm'
      · obtain rfl := List.mem_singleton.1 hm'
        exact ⟨hg, hk.symm⟩
      · cases hm'
    · exact absurd ⟨.inl hg, (congrArg RequestKey.resource hk).trans (hw q hq)⟩ (hs m' hm')

variable {d : Daemon} {now : Nat}

/-- Without a GRANT for the lock there is none in its cell. -/
theorem not_grant (h : (d.cell r).Still r) : ∀ m ∈ (d.cell r).sent, m.request ≠ .grant := by
  intro m hm hg
  have hres : m.resource = r := by
    have := (List.mem_filter.1 hm).2
    simpa [CpgLockMsg.concerns, hg] using this
  exact h m hm ⟨.inl hg, hres⟩

/-- A LOCK is delivered to a daemon that has joined: the oldest daemon, which knows all requests, takes
a lock that is new. -/
theorem lock (h : (d.cell r).Fifo r d.myNodeId A g j) (hs : d.CellMove r now m c)
    (ht : (d.cell r).Turn r d.myNodeId) (h0 : d.myNodeId ≠ 0) (hm : m.request = .lock)
    (hr : m.resource = r) (hj : d.joined = true) (htry : m.isTry = false) (hg : g ≤ A.length)
    (hempty : (d.cell r).lock = none → (d.cell r).waiting = [])
    (hhead : d.getOldestNode.nodeid = d.myNodeId → j = 0) :
    c.Fifo r d.myNodeId (A ++ [m.key]) g j := by
  cases hs with
  | same hsame => exact absurd hm (hsame hj hr).1
  | asks _ _ _ hl _ =>
    refine h.enqueue hg now rfl rfl (fun ⟨l, hl', ha⟩ => h.acts ?_) fun l hl' hn => ?_
    · rcases getD_blank_cases hl' with hl' | ⟨-, rfl⟩
      · exact ⟨l, hl', ha⟩
      · rcases ha with ha | ha
        · exact absurd ha.symm h0
        · cases ha
    · rcases getD_blank_cases hl' with hl' | ⟨-, rfl⟩
      · exact (hl l hl' hn).1
      · exact absurd hn.symm h0
  | refused _ _ _ _ _ _ ht => exact absurd (htry.symm.trans ht) (by decide)
  | @granted l q ws _ _ _ hown hq =>
    -- nobody else waits, so the new request is the next
    have hall : (d.cell r).Still r ∧ (d.cell r).waiting = [] ∧ j ≤ g := by
      rcases hown with ⟨hl, hn, hfree⟩ | ⟨hl, hfirst, -⟩
      · exact ⟨ht.still_of_free hl hfree, h.free l hl hn hfree, h.acts ⟨l, hl, .inl hn⟩⟩
      · exact ⟨ht.still_of_none hl, hempty hl, by rw [hhead hfirst]; exact Nat.zero_le _⟩
    obtain ⟨hstill, hnil, hjg⟩ := hall
    have hpre : Cell.Fifo r d.myNodeId (A ++ [m.key]) g j
        { lock := none, waiting := (d.cell r).waiting ++ [m.item now], sent := (d.cell r).sent } :=
      h.enqueue hg now rfl rfl (fun ⟨_, hl', _⟩ => by cases hl') fun _ hl' => by cases hl'
    refine hpre.pick hjg (fun x hx => ?_) hq (not_grant hstill) (fun l' hl' => ?_) rfl rfl
    · rw [hnil, List.nil_append] at hx
      rw [List.mem_singleton.1 hx]
      rfl
    · obtain rfl := Option.some.inj hl'
      simp
  | _ => simp_all

/-- A GRANT is delivered, which is the next request's; `own`: the daemon sent it. -/
theorem grant {own : Prop} [Decidable own]
    (h : Cell.Fifo r d.myNodeId A g j { d.cell r with
      sent := (if own ∧ m.concerns r then [m] else []) ++ (d.cell r).sent })
    (hs : d.CellMove r now m c) (hstill : (d.cell r).Still r) (hm : m.request = .grant)
    (hr : m.resource = r) (hj : d.joined = true) (hnodup : A.Nodup) (hkey : A[g]? = some m.key)
    (hempty : (d.cell r).lock = none → (d.cell r).waiting = []) :
    c.Fifo r d.myNodeId A (g + 1) j := by
  have hg := (List.getElem?_eq_some_iff.1 hkey).1
  have hno := not_grant hstill
  have hmarks := h.popped.2 hstill fun q hq => Daemon.CellStep.mem_waiting hq
  -- an own request was ordered after the daemon had joined
  have hmine : m.ownerNodeid = d.myNodeId → j ≤ g := by
    intro hn
    by_contra hlt
    refine h.foreign m.key ?_ hn
    have := List.mem_of_getElem? (l := A.take j) (i := g) (a := m.key)
    refine this ?_
    rw [List.getElem?_take_of_lt (by omega)]
    exact hkey
  have hkeys : (d.cell r).keys.erase m.key = A.drop (max j (g + 1)) := by
    rw [show (d.cell r).keys = A.drop (max j g) from h.keys]
    by_cases hjg : j ≤ g
    · rw [max_eq_right hjg, max_eq_right (by omega), List.drop_eq_getElem_cons hg]
      have : A[g] = m.key := by
        rw [List.getElem?_eq_getElem hg] at hkey
        exact Option.some.inj hkey
      rw [this, List.erase_cons_head]
    · rw [max_eq_left (by omega), max_eq_left (by omega), List.erase_of_not_mem]
      intro hk
      obtain ⟨i, hi, hik⟩ := List.mem_iff_getElem.1 hk
      rw [List.getElem_drop] at hik
      have hgk : A[g] = m.key := by
        rw [List.getElem?_eq_getElem hg] at hkey
        exact Option.some.inj hkey
      have := (hnodup.getElem_inj_iff).1 (hik.trans hgk.symm)
      omega
  cases hs with
  | same hsame => exact absurd hm (hsame hj hr).2.1
  | @taken l _ _ _ hl =>
    refine ⟨h.bound, ?_, h.foreign, fun ha => ?_, fun q hq hne => ?_,
      fun m' hm' hg' => absurd hg' (hno m' hm'), fun l' hl' _ hf => ?_⟩
    · rw [Cell.keys, Daemon.map_key_eraseP]
      exact hkeys
    · obtain ⟨l', hl', ha⟩ := ha
      obtain rfl := Option.some.inj hl'
      rcases ha with ha | ha
      · have := hmine ha
        omega
      · cases ha
    · -- the marked request is gone
      have hq' : q.key ∈ (d.cell r).keys.erase m.key := by
        rw [Cell.keys, ← Daemon.map_key_eraseP]
        exact List.mem_map_of_mem hq
      have hk := (hmarks q (List.mem_of_mem_eraseP hq) hne).2
      rw [hk] at hq'
      have hnd : (d.cell r).keys.Nodup := by
        rw [show (d.cell r).keys = A.drop (max j g) from h.keys]
        exact hnodup.sublist (List.drop_sublist _ _)
      exact absurd hq' hnd.not_mem_erase
    · obtain rfl := Option.some.inj hl'
      cases hf
  | learnt _ _ _ hl hn =>
    have hnil := hempty hl
    refine ⟨h.bound, ?_, h.foreign, fun ha => ?_, fun q hq => ?_,
      fun m' hm' hg' => absurd hg' (hno m' hm'), fun l' hl' hn' => ?_⟩
    · rw [← hkeys, Cell.keys, Cell.keys, show (d.cell r).waiting = [] from hnil]
      rfl
    · obtain ⟨l', hl', ha⟩ := ha
      obtain rfl := Option.some.inj hl'
      rcases ha with ha | ha
      · exact absurd ha hn
      · cases ha
    · rw [show (d.cell r).waiting = [] from hnil] at hq
      cases hq
    · obtain rfl := Option.some.inj hl'
      exact absurd hn' hn
  | _ => simp_all

/-- Another message is delivered. -/
theorem other (h : (d.cell r).Fifo r d.myNodeId A g j) (hs : d.CellMove r now m c)
    (hstill : m.Passes r → (d.cell r).Still r)
    (hlock : ¬(d.joined = true ∧ m.request = .lock ∧ m.resource = r))
    (hgrant : ¬(d.joined = true ∧ m.request = .grant ∧ m.resource = r))
    (hnak : m.request ≠ .nak) : c.Fifo r d.myNodeId A g j := by
  have hw : ∀ q ∈ (d.cell r).waiting, q.resource = r := fun q hq => Daemon.CellStep.mem_waiting hq
  cases hs with
  | same => exact h
  | asks hj hm hr _ _ => exact absurd ⟨hj, hm, hr⟩ hlock
  | refused hj hm hr _ _ _ _ => exact absurd ⟨hj, hm, hr⟩ hlock
  | granted hj hm hr _ _ => exact absurd ⟨hj, hm, hr⟩ hlock
  | taken hj hm hr _ => exact absurd ⟨hj, hm, hr⟩ hgrant
  | learnt hj hm hr _ _ => exact absurd ⟨hj, hm, hr⟩ hgrant
  | dropped _ hm _ => exact absurd hm hnak
  | stale => exact h
  | freed _ hm hr hl _ _ _ hno =>
    have hpend := h.all_pending (hstill ⟨.inr hm, hr⟩) hw
    refine ⟨h.bound, h.keys, h.foreign, fun ⟨l', hl', ha⟩ => ?_, h.marks, h.sent, fun l' hl' hn _ => ?_⟩
    · obtain rfl := Option.some.inj hl'
      rcases ha with ha | ha
      · exact h.acts ⟨_, hl, .inl ha⟩
      · cases ha
    · obtain rfl := Option.some.inj hl'
      exact List.eq_nil_iff_forall_not_mem.2 fun q hq => hno hn q hq (hpend q hq)
  | passed _ hm hr hl _ _ _ hn hq =>
    have hst := hstill ⟨.inr hm, hr⟩
    refine h.pick (h.acts ⟨_, hl, .inl hn⟩) (h.all_pending hst hw) hq (not_grant hst)
      (fun l' hl' => ?_) rfl rfl
    obtain rfl := Option.some.inj hl'
    simp

/-! ## Clients -/

/-- A client's message, if an UNLOCK finds an own HELD entry that is not being passed on. -/
theorem write (h : (d.cell r).Fifo r d.myNodeId A g j) (hs : d.CellWrite r m c)
    (hunlock : m.request = .unlock → ∀ l, (d.cell r).lock = some l → l.localId = m.lockid →
      l.state = .held ∧ l.ownerNodeid = d.myNodeId ∧ (d.cell r).Still r) :
    c.Fifo r d.myNodeId A g j := by
  cases hs with
  | same => exact h
  | asks hm _ =>
    refine h.sub rfl rfl fun g hg => ?_
    have hne : g ≠ { m with ownerNodeid := d.myNodeId } := by
      rintro rfl
      exact absurd (hg.symm.trans hm) (by decide)
    simp [Cell.send, hne]
  | @passed l q _ hm hl hid hq =>
    obtain ⟨hheld, hown, hstill⟩ := hunlock hm l hl hid
    refine h.pick (h.acts ⟨l, hl, .inl hown⟩)
      (h.all_pending hstill fun q hq => Daemon.CellStep.mem_waiting hq) hq (not_grant hstill)
      (fun l' hl' => ?_) rfl rfl
    obtain rfl := Option.some.inj (hl.symm.trans hl')
    rw [hheld]
    decide
  | @freed l u hm hl hid _ hu _ _ _ =>
    refine h.sub rfl rfl fun g hg => ?_
    have hne : g ≠ u := by
      rintro rfl
      exact absurd (hg.symm.trans hu) (by decide)
    simp [Cell.send, hne]

end Fifo

end Cell

/-! ## Entries -/

namespace Daemon.CellMove

variable {d : Daemon} {r : Resource} {now : Nat} {m : CpgLockMsg} {c : Cell}

/-- An entry was there before, or a LOCK or a GRANT makes it. -/
theorem known (h : d.CellMove r now m c) (hl : c.lock ≠ none) : (d.cell r).lock ≠ none ∨
    (m.request = .lock ∨ m.request = .grant) ∧ m.resource = r := by
  cases h with
  | same => exact .inl hl
  | asks _ hm hr _ _ => exact .inr ⟨.inl hm, hr⟩
  | refused _ hm hr _ _ _ _ => exact .inr ⟨.inl hm, hr⟩
  | granted _ hm hr _ _ => exact .inr ⟨.inl hm, hr⟩
  | taken _ hm hr _ => exact .inr ⟨.inr hm, hr⟩
  | learnt _ hm hr _ _ => exact .inr ⟨.inr hm, hr⟩
  | dropped => exact .inl hl
  | stale => exact .inl hl
  | freed _ _ _ hl' _ _ _ _ => exact .inl (by simp [hl'])
  | passed _ _ _ hl' _ _ _ _ _ => exact .inl (by simp [hl'])

/-- The delivery of a GRANT sends nothing. -/
theorem sent_of_grant (h : d.CellMove r now m c) (hm : m.request = .grant) :
    c.sent = (d.cell r).sent := by
  cases h with
  | same => rfl
  | taken => rfl
  | learnt => rfl
  | _ => simp_all

/-- An own entry stays one until a GRANT. -/
theorem own_stays (h : d.CellMove r now m c) {l : CpgLock} (hl : (d.cell r).lock = some l)
    (hn : l.ownerNodeid = d.myNodeId) (hg : ¬(m.request = .grant ∧ m.resource = r)) :
    ∃ l', c.lock = some l' ∧ l'.ownerNodeid = d.myNodeId := by
  have hsome : ∀ {l' : CpgLock}, (d.cell r).lock = some l' → l'.ownerNodeid = d.myNodeId := by
    intro l' hl'
    obtain rfl := Option.some.inj (hl.symm.trans hl')
    exact hn
  cases h with
  | same => exact ⟨l, hl, hn⟩
  | asks => exact ⟨l, by simp [hl], hn⟩
  | refused _ _ _ hl' _ _ _ => exact ⟨_, rfl, hsome hl'⟩
  | granted _ _ _ hfree _ =>
    rcases hfree with ⟨hl', -⟩ | ⟨hl', -⟩
    · have hn' := hsome hl'
      exact ⟨_, rfl, hn'⟩
    · exact absurd (hl.symm.trans hl') (by simp)
  | taken _ hm hr _ => exact absurd ⟨hm, hr⟩ hg
  | learnt _ hm hr _ _ => exact absurd ⟨hm, hr⟩ hg
  | dropped => exact ⟨l, hl, hn⟩
  | stale => exact ⟨l, hl, hn⟩
  | freed _ _ _ hl' _ _ _ _ =>
    have hn' := hsome hl'
    exact ⟨_, rfl, hn'⟩
  | passed _ _ _ _ _ _ _ hn' _ => exact ⟨_, rfl, hn'⟩

/-- Who decides about a lock decides until a GRANT. -/
theorem acts_stays (h : d.CellMove r now m c) (ha : (d.cell r).Acts d.myNodeId)
    (hg : ¬(m.request = .grant ∧ m.resource = r)) : c.Acts d.myNodeId := by
  obtain ⟨l, hl, hn | hs⟩ := ha
  · obtain ⟨l', hl', hn'⟩ := h.own_stays hl hn hg
    exact ⟨l', hl', .inl hn'⟩
  · have hsome : ∀ {l' : CpgLock}, (d.cell r).lock = some l' → l'.state = .held → False := by
      intro l' hl' hs'
      obtain rfl := Option.some.inj (hl.symm.trans hl')
      exact absurd (hs.symm.trans hs') (by decide)
    cases h with
    | same => exact ⟨l, hl, .inr hs⟩
    | asks => exact ⟨l, by simp [hl], .inr hs⟩
    | refused _ _ _ hl' _ _ _ => exact ⟨l, hl' ▸ hl, .inr hs⟩
    | granted => exact ⟨_, rfl, .inr rfl⟩
    | taken _ hm hr _ => exact absurd ⟨hm, hr⟩ hg
    | learnt _ hm hr _ _ => exact absurd ⟨hm, hr⟩ hg
    | dropped => exact ⟨l, hl, .inr hs⟩
    | stale => exact ⟨l, hl, .inr hs⟩
    | freed _ _ _ hl' hs' _ _ _ => exact (hsome hl' hs').elim
    | passed _ _ _ hl' hs' _ _ _ _ => exact (hsome hl' hs').elim

/-- The oldest daemon decides about a lock from the first LOCK for it. -/
theorem acts_of_lock (h : d.CellMove r now m c) (hj : d.joined = true) (hm : m.request = .lock)
    (hr : m.resource = r) (hl : (d.cell r).lock = none) (hhead : d.getOldestNode.nodeid = d.myNodeId) :
    c.Acts d.myNodeId := by
  cases h with
  | same hs => exact absurd hm (hs hj hr).1
  | asks _ _ _ _ hno => exact absurd hhead (hno hl)
  | granted => exact ⟨_, rfl, .inr rfl⟩
  | _ => simp_all

end Daemon.CellMove

end Cpglock
