import Cpglock.Group.ReplicaAgreement

/-!
# The tables of the survivors after `del_node`

After the leave of node `gone` the daemon of the head `top` has acted on its entries and the others
have only rewritten owners. The messages that wait at a daemon say how its entry differs from the one
that the order determines (`Phase`): it is granting the lock, it gives back a lock of the departed
node, or it hands one on. All but the first are the head's, and a daemon whose entry differs is the
one that acts for the entry (`Acts`).
-/

namespace Cpglock

instance CpgLockMsg.decidableOfEntry (m : CpgLockMsg) : Decidable m.OfEntry := by
  unfold CpgLockMsg.OfEntry
  infer_instance

/-! ## Marks -/

/-- No request is marked. -/
def Pending (w : List RequestItem) : Prop := ∀ q ∈ w, q.state = .pending

/-- At most the first request is marked; it has identity `k` then. -/
def MarkedFirst (k : RequestKey) (w : List RequestItem) : Prop :=
  Pending w ∨ ∃ q l, w = q :: l ∧ q.key = k ∧ Pending l

section

variable {k : RequestKey} {w : List RequestItem}

theorem Pending.append {q : RequestItem} (h : Pending w) (hq : q.state = .pending) :
    Pending (w ++ [q]) := by
  intro x hx
  rcases List.mem_append.1 hx with hx | hx
  · exact h x hx
  · rw [List.mem_singleton.1 hx]
    exact hq

theorem Pending.sublist {w' : List RequestItem} (h : Pending w) (hs : w'.Sublist w) : Pending w' :=
  fun q hq => h q (hs.subset hq)

theorem MarkedFirst.append {q : RequestItem} (h : MarkedFirst k w) (hq : q.state = .pending) :
    MarkedFirst k (w ++ [q]) := by
  rcases h with h | ⟨x, l, rfl, hk, hl⟩
  · exact .inl (h.append hq)
  · exact .inr ⟨x, l ++ [q], rfl, hk, hl.append hq⟩

theorem MarkedFirst.filter (h : MarkedFirst k w) (p : RequestItem → Bool) :
    MarkedFirst k (w.filter p) := by
  rcases h with h | ⟨x, l, rfl, hk, hl⟩
  · exact .inl (h.sublist List.filter_sublist)
  · rw [List.filter_cons]
    split
    · exact .inr ⟨x, l.filter p, rfl, hk, hl.sublist List.filter_sublist⟩
    · exact .inl (hl.sublist List.filter_sublist)

theorem MarkedFirst.eraseP (h : MarkedFirst k w) (k' : RequestKey) :
    MarkedFirst k (w.eraseP fun q => q.key = k') := by
  rcases h with h | ⟨x, l, rfl, hk, hl⟩
  · exact .inl (h.sublist List.eraseP_sublist)
  · by_cases hx : x.key = k'
    · rw [List.eraseP_cons_of_pos (by simpa using hx)]
      exact .inl hl
    · rw [List.eraseP_cons_of_neg (by simpa using hx)]
      exact .inr ⟨x, _, rfl, hk, hl.sublist List.eraseP_sublist⟩

/-- Once the request with identity `k` is unlinked, none is marked. -/
theorem MarkedFirst.eraseP_self (h : MarkedFirst k w) : Pending (w.eraseP fun q => q.key = k) := by
  rcases h with h | ⟨x, l, rfl, hk, hl⟩
  · exact h.sublist List.eraseP_sublist
  · rw [List.eraseP_cons_of_pos (by simpa using hk)]
    exact hl

end

/-! ## Cells -/

namespace Cell

variable {r : Resource} {c : Cell}

/-- The GRANTs, NAKs and UNLOCKs that wait. -/
def rulings (c : Cell) : List CpgLockMsg := c.sent.filter fun m => m.OfEntry

theorem rulings_send {m : CpgLockMsg} (h : m.OfEntry) (c : Cell) :
    (c.send m).rulings = c.rulings ++ [m] := by
  simp [rulings, send, h]

/-- `grant_next` on unmarked requests marks the first. -/
theorem grantNext_pending (hw : Pending c.waiting) (hr : ∀ q ∈ c.waiting, q.resource = r) :
    c.waiting = [] ∧ c.grantNext r = none ∨ ∃ q l, c.waiting = q :: l ∧
      c.grantNext r = some { c with
        waiting := { q with state := .held } :: l, sent := c.sent ++ [Daemon.grantMsg q] } := by
  unfold grantNext
  cases hc : c.waiting with
  | nil => exact .inl ⟨rfl, rfl⟩
  | cons q l =>
    have hq : q ∈ c.waiting := by rw [hc]; exact List.mem_cons_self
    exact .inr ⟨q, l, rfl, by simp [Daemon.pickPending, hr q hq, hw q hq]⟩

/-- What is granted is the first request. -/
theorem grantNextElse_pending {k : Cell → Cell} (hw : Pending c.waiting)
    (hr : ∀ q ∈ c.waiting, q.resource = r) (hne : c.waiting ≠ []) : ∃ q l, c.waiting = q :: l ∧
      c.grantNextElse r k = { c with
        waiting := { q with state := .held } :: l, sent := c.sent ++ [Daemon.grantMsg q] } := by
  rcases grantNext_pending hw hr with ⟨hnil, -⟩ | ⟨q, l, hc, hg⟩
  · exact absurd hnil hne
  · exact ⟨q, l, hc, by rw [grantNextElse, hg, Option.getD_some]⟩

end Cell

/-! ## Who acts, and in which phase -/

/-- The entry is for node `n` to act on: its own, or, for the head, one of nobody or of `gone`. -/
def Acts (top : MemberItem) (gone n : UInt32) : Option CpgLock → Prop
  | none => n = top.nodeid
  | some t => t.ownerNodeid = n ∨ n = top.nodeid ∧ (t.ownerNodeid = 0 ∨ t.ownerNodeid = gone)

/-- The UNLOCK by which the head gives back a lock of the departed node. -/
def CpgLockMsg.GivesBack (top : MemberItem) (u : CpgLockMsg) : Prop :=
  u.request = .unlock ∧ u.ownerNodeid = top.nodeid ∧ u.ownerPid = top.pid

/-- The entry is held in the name of the head's daemon. -/
def CpgLock.Taken (top : MemberItem) (t : CpgLock) : Prop :=
  t.state = .held ∧ t.ownerNodeid = top.nodeid ∧ t.ownerPid = top.pid

/-- How node `n`'s entry `l` and requests `w` for `r` differ from the entry `t` that the order
determines, by the rulings that wait. -/
inductive Phase (top : MemberItem) (gone n : UInt32) (r : Resource) (t l : CpgLock)
    (w : List RequestItem) : List CpgLockMsg → Prop
  | idle {ms : List CpgLockMsg} : l.shared = t.shared → t.state ≠ .pending →
      (n = top.nodeid → t.ownerNodeid ≠ gone) → (∀ m ∈ ms, m.request = .nak) →
      (t.state = .free → (t.ownerNodeid = top.nodeid → n = top.nodeid) → ms = []) → Pending w →
      Phase top gone n r t l w ms
  | granting {g : CpgLockMsg} {ms : List CpgLockMsg} : l.state = .pending → l.key r = t.key r →
      t.state = .free → t.ownerNodeid = n ∨ n = top.nodeid ∧ t.ownerNodeid = 0 →
      g.request = .grant → (∀ m ∈ ms, m.request = .nak) →
      (n = top.nodeid → g.ownerNodeid ≠ gone) → MarkedFirst g.key w →
      Phase top gone n r t l w (g :: ms)
  | unlocking {u : CpgLockMsg} : n = top.nodeid → l.state = .free → l.key r = t.key r →
      t.Taken top → u.GivesBack top → Pending w → Phase top gone n r t l w [u]
  | relocking {u g : CpgLockMsg} {ms : List CpgLockMsg} : n = top.nodeid → l.state = .pending →
      l.key r = t.key r → t.Taken top → u.GivesBack top → g.request = .grant →
      (∀ m ∈ ms, m.request = .nak) → g.ownerNodeid ≠ gone → MarkedFirst g.key w →
      Phase top gone n r t l w (u :: g :: ms)
  | regranting {g : CpgLockMsg} : n = top.nodeid → l.state = .free → l.ownerNodeid = gone →
      t.ownerNodeid = top.nodeid ∨ t.ownerNodeid = gone → t.state ≠ .pending →
      g.request = .grant → g.ownerNodeid ≠ gone → MarkedFirst g.key w →
      Phase top gone n r t l w [g]

/-- The same of a cell, with the rulings `ms`. -/
def Rejoins (top : MemberItem) (gone n : UInt32) (r : Resource) (t : Option CpgLock) (c : Cell)
    (ms : List CpgLockMsg) : Prop :=
  match t with
  | none => c.lock = none ∧ ms = [] ∧ Pending c.waiting
  | some t => ∃ l, c.lock = some l ∧ Phase top gone n r t l c.waiting ms

section

variable {top : MemberItem} {gone n x : UInt32} {r : Resource} {t l : CpgLock} {o : Option CpgLock}
  {w : List RequestItem} {ms : List CpgLockMsg} {c : Cell} {m : CpgLockMsg}

theorem CpgLock.shared_eq {a b : CpgLock} :
    a.shared = b.shared ↔ a.state = b.state ∧ a.key r = b.key r := by
  simp [shared, key_eq]

/-- One node acts for an entry. -/
theorem Acts.unique (h : Acts top gone n o) (h' : Acts top gone x o) (hn : n ≠ 0 ∧ n ≠ gone)
    (hx : x ≠ 0 ∧ x ≠ gone) : n = x := by
  cases o with
  | none => exact Eq.trans h (Eq.symm h')
  | some t =>
    rcases h with h | ⟨h, h0⟩ <;> rcases h' with h' | ⟨h', h0'⟩
    · exact h.symm.trans h'
    · rcases h0' with h0' | h0'
      · exact absurd (h.symm.trans h0') hn.1
      · exact absurd (h.symm.trans h0') hn.2
    · rcases h0 with h0 | h0
      · exact absurd (h'.symm.trans h0) hx.1
      · exact absurd (h'.symm.trans h0) hx.2
    · exact h.trans h'.symm

/-- A node whose entry differs acts for it. -/
theorem Phase.idle_or_acts (h : Phase top gone n r t l w ms) :
    (l.shared = t.shared ∧ t.state ≠ .pending ∧ (∀ m ∈ ms, m.request = .nak) ∧
      (t.state = .free → (t.ownerNodeid = top.nodeid → n = top.nodeid) → ms = []) ∧ Pending w) ∨
      Acts top gone n (some t) := by
  cases h with
  | idle hs hp _ hnak hfree hw => exact .inl ⟨hs, hp, hnak, hfree, hw⟩
  | granting _ _ _ ho _ _ _ _ => exact .inr (ho.imp id fun ⟨hn, h0⟩ => ⟨hn, .inl h0⟩)
  | unlocking hn _ _ ht _ _ => exact .inr (.inl (ht.2.1.trans hn.symm))
  | relocking hn _ _ ht _ _ _ _ _ => exact .inr (.inl (ht.2.1.trans hn.symm))
  | regranting hn _ _ ho _ _ _ _ =>
    refine .inr (ho.imp (fun h => h.trans hn.symm) fun h => ⟨hn, .inr h⟩)

/-- Requests go, and no mark comes. -/
theorem Phase.waiting {w' : List RequestItem} (h : Phase top gone n r t l w ms)
    (hp : Pending w → Pending w') (hm : ∀ k, MarkedFirst k w → MarkedFirst k w') :
    Phase top gone n r t l w' ms := by
  cases h with
  | idle hs hp' hg hnak hfree hw => exact .idle hs hp' hg hnak hfree (hp hw)
  | granting h₁ h₂ h₃ h₄ h₅ h₆ h₇ hw => exact .granting h₁ h₂ h₃ h₄ h₅ h₆ h₇ (hm _ hw)
  | unlocking h₁ h₂ h₃ h₄ h₅ hw => exact .unlocking h₁ h₂ h₃ h₄ h₅ (hp hw)
  | relocking h₁ h₂ h₃ h₄ h₅ h₆ h₇ h₈ hw => exact .relocking h₁ h₂ h₃ h₄ h₅ h₆ h₇ h₈ (hm _ hw)
  | regranting h₁ h₂ h₃ h₄ h₅ h₆ h₇ hw => exact .regranting h₁ h₂ h₃ h₄ h₅ h₆ h₇ (hm _ hw)

/-! ## Deliveries -/

/-- A LOCK on an entry that is free here: the first request is granted. -/
theorem Cell.grantFree_pending (hl : c.lock = some l) (hw : Pending c.waiting)
    (hr : ∀ q ∈ c.waiting, q.resource = r) (hne : c.waiting ≠ []) :
    ∃ q ∈ c.waiting, (c.grantFree r).lock = some { l with state := .pending } ∧
      (c.grantFree r).rulings = c.rulings ++ [Daemon.grantMsg q] ∧
      MarkedFirst (Daemon.grantMsg q).key (c.grantFree r).waiting := by
  obtain ⟨q, w', hc, hg⟩ := grantNextElse_pending (c := c.setState .pending)
    (k := (·.setState .free)) hw hr hne
  have hc : c.waiting = q :: w' := hc
  refine ⟨q, by rw [hc]; exact List.mem_cons_self, ?_, ?_, ?_⟩
  · rw [grantFree, hg]
    simp [hl]
  · rw [grantFree, hg]
    exact rulings_send (.inl rfl) c
  · rw [grantFree, hg]
    refine .inr ⟨_, w', rfl, rfl, fun q' hq' => hw q' ?_⟩
    rw [hc]
    exact List.mem_cons_of_mem _ hq'

theorem Rejoins.lock (h : Rejoins top gone n r o c c.rulings) (hn : n ≠ 0 ∧ n ≠ gone) (now : Nat)
    (hr : m.resource = r) (hm : m.request = .lock) (hgone : m.ownerNodeid ≠ gone)
    (hres : ∀ q ∈ c.waiting, q.resource = r)
    (hmine : n = top.nodeid → ∀ q ∈ c.waiting, q.ownerNodeid ≠ gone) :
    Rejoins top gone n r (m.relock o) (c.processLock r n (top.nodeid = n) m now)
      (c.processLock r n (top.nodeid = n) m now).rulings := by
  have hres : ∀ q ∈ (c.enqueue m now).waiting, q.resource = r := by
    intro q hq
    rcases List.mem_append.1 hq with hq | hq
    · exact hres q hq
    · rw [List.mem_singleton.1 hq]
      exact hr
  have hmine : n = top.nodeid → ∀ q ∈ (c.enqueue m now).waiting, q.ownerNodeid ≠ gone := by
    intro htop q hq
    rcases List.mem_append.1 hq with hq | hq
    · exact hmine htop q hq
    · rw [List.mem_singleton.1 hq]
      exact hgone
  have hne : (c.enqueue m now).waiting ≠ [] := by simp [Cell.enqueue]
  simp only [CpgLockMsg.relock, hm]
  unfold Cell.processLock
  cases o with
  | none =>
    obtain ⟨hl, hms, hw⟩ := h
    simp only [Cell.enqueue_lock, hl, Option.getD_none, decide_eq_true_eq]
    split
    · next htop =>
      obtain ⟨q, hq, hlock, hrul, hmark⟩ := Cell.grantFree_pending (r := r) (l := .blank)
        (c := { c.enqueue m now with lock := some .blank }) rfl (hw.append rfl) hres hne
      refine ⟨_, hlock, ?_⟩
      rw [hrul, show ({ c.enqueue m now with lock := some .blank } : Cell).rulings = [] from hms]
      exact .granting rfl rfl rfl (.inr ⟨htop.symm, rfl⟩) rfl (by simp)
        (fun _ => hmine htop.symm q hq) hmark
    · next htop =>
      refine ⟨.blank, rfl, .idle rfl (by simp [CpgLock.blank]) (fun h => absurd h.symm htop) ?_
        (fun _ _ => hms) (hw.append rfl)⟩
      intro m' hm'
      rw [show ({ c.enqueue m now with lock := some .blank } : Cell).rulings = [] from hms] at hm'
      cases hm'
  | some t =>
    obtain ⟨l, hl, h⟩ := h
    have hrul : (c.enqueue m now).rulings = c.rulings := rfl
    simp only [Cell.enqueue_lock, hl, Option.getD_some]
    have hsame : Rejoins top gone n r (some t) (c.enqueue m now) (c.enqueue m now).rulings :=
      ⟨l, hl, hrul ▸ h.waiting (·.append rfl) fun _ hk => hk.append rfl⟩
    have hnak : (({ m with request := .nak } : CpgLockMsg)).OfEntry := .inr (.inl rfl)
    generalize hrs : c.rulings = rs at h hrul
    cases h with
    | idle hs hp hg hms hfree hw =>
      obtain ⟨hst, hkey⟩ := (CpgLock.shared_eq (r := r)).1 hs
      have howner := (CpgLock.key_eq.1 hkey).1
      split
      · next hme =>
        split
        · next hlf =>
          -- the entry is this node's and free: no ruling of it waits
          have htf : t.state = .free := hst.symm.trans hlf
          have htn : t.ownerNodeid = n := howner.symm.trans hme
          have hnil : (c.enqueue m now).rulings = [] := hrul.trans (hfree htf fun ht => htn.symm.trans ht)
          obtain ⟨q, hq, hlock, hrul', hmark⟩ := Cell.grantFree_pending (r := r)
            (c := c.enqueue m now) hl (hw.append rfl) hres hne
          refine ⟨_, hlock, ?_⟩
          rw [hrul', hnil]
          exact .granting rfl hkey htf (.inl htn) rfl (by simp) (fun htop => hmine htop q hq) hmark
        · next hlf =>
          split
          · refine ⟨l, hl, ?_⟩
            rw [Cell.rulings_send hnak, hrul]
            refine .idle hs hp hg (fun m' hm' => ?_) (fun htf => absurd (hst.trans htf) hlf)
              (hw.append rfl)
            rcases List.mem_append.1 hm' with hm' | hm'
            · exact hms m' hm'
            · rw [List.mem_singleton.1 hm']
          · exact hsame
      · exact hsame
    | @granting g ms hst hkey htf ho hg hms hgt hw =>
      split
      · split
        · next hlf => rw [hst] at hlf; cases hlf
        · split
          · refine ⟨l, hl, ?_⟩
            rw [Cell.rulings_send hnak, hrul, List.cons_append]
            refine .granting hst hkey htf ho hg (fun m' hm' => ?_) hgt (hw.append rfl)
            rcases List.mem_append.1 hm' with hm' | hm'
            · exact hms m' hm'
            · rw [List.mem_singleton.1 hm']
          · exact hsame
      · exact hsame
    | @unlocking u htop hst hkey ht hu hw =>
      have howner := (CpgLock.key_eq.1 hkey).1
      rw [if_pos (howner.trans (ht.2.1.trans htop.symm)), if_pos hst]
      obtain ⟨q, hq, hlock, hrul', hmark⟩ := Cell.grantFree_pending (r := r)
        (c := c.enqueue m now) hl (hw.append rfl) hres hne
      refine ⟨_, hlock, ?_⟩
      rw [hrul', hrul]
      exact .relocking htop rfl hkey ht hu rfl (by simp) (hmine htop q hq) hmark
    | @relocking u g ms htop hst hkey ht hu hg hms hgt hw =>
      split
      · split
        · next hlf => rw [hst] at hlf; cases hlf
        · split
          · refine ⟨l, hl, ?_⟩
            rw [Cell.rulings_send hnak, hrul, List.cons_append, List.cons_append]
            refine .relocking htop hst hkey ht hu hg (fun m' hm' => ?_) hgt (hw.append rfl)
            rcases List.mem_append.1 hm' with hm' | hm'
            · exact hms m' hm'
            · rw [List.mem_singleton.1 hm']
          · exact hsame
      · exact hsame
    | @regranting g htop hst ho hto hp hg hgt hw =>
      rw [if_neg fun hme => hn.2 (hme.symm.trans ho)]
      exact hsame

/-- A GRANT to a process that is connected where it belongs. -/
theorem Cell.processGrant_connected (hl : c.lock = some l) (lost : Bool) {connected : Bool}
    (id : UInt64) (hp : m.ownerPid ≠ 0) (h0 : m.ownerNodeid ≠ 0)
    (hcon : m.ownerNodeid = n → connected = true) :
    ∃ l', l'.shared = (Daemon.granted m t).shared ∧
      c.processGrant r n lost connected id m =
        ({ c.unlink m.key with lock := some l' } : Cell).regrantNonMember r lost m := by
  unfold processGrant
  have havert : ¬(l.state = .held ∧ (m.ownerPid = 0 ∨ m.ownerNodeid = 0)) :=
    fun h => h.2.elim hp h0
  simp only [hl, if_neg havert]
  split
  · next hme =>
    rw [if_pos (hcon hme)]
    refine ⟨{ Daemon.granted m l with localId := id }, rfl, ?_⟩
    simp [unlink, set, hl]
  · refine ⟨Daemon.granted m l, rfl, ?_⟩
    simp [unlink, set, hl]

theorem Rejoins.grant {own : Prop} [Decidable own]
    (h : Rejoins top gone n r (some t) c ((if own then [m] else []) ++ c.rulings))
    (hown : own ↔ x = n) (hn : n ≠ 0 ∧ n ≠ gone) (hx : x ≠ 0 ∧ x ≠ gone)
    (hacts : Acts top gone x (some t)) (hm : m.request = .grant) (hp : m.ownerPid ≠ 0)
    (h0 : m.ownerNodeid ≠ 0) {lost connected : Bool} (id : UInt64)
    (hlost : lost = true ↔ n = top.nodeid ∧ m.ownerNodeid = gone)
    (hcon : m.ownerNodeid = n → connected = true)
    (hres : ∀ q ∈ c.waiting, q.resource = r)
    (hmine : n = top.nodeid → ∀ q ∈ c.waiting, q.ownerNodeid ≠ gone)
    (hgone : m.ownerNodeid = gone → t.state = .free ∧ (n = top.nodeid → c.waiting ≠ [])) :
    Rejoins top gone n r (m.relock (some t)) (c.processGrant r n lost connected id m)
      (c.processGrant r n lost connected id m).rulings := by
  obtain ⟨l, hl, h⟩ := h
  obtain ⟨l', hs', heq⟩ := Cell.processGrant_connected (t := t) (r := r) hl lost id hp h0 hcon
  rw [heq]
  simp only [CpgLockMsg.relock, hm, Option.map_some]
  have hheld : (Daemon.granted m t).state ≠ .pending := by simp [Daemon.granted]
  have hnotfree : (Daemon.granted m t).state ≠ .free := by simp [Daemon.granted]
  -- a GRANT that stays, if no request is marked after it
  have hstay : (lost = false) → (∀ m' ∈ c.rulings, m'.request = .nak) →
      Pending (c.waiting.eraseP fun q => q.key = m.key) →
      Rejoins top gone n r (some (Daemon.granted m t))
        (({ c.unlink m.key with lock := some l' } : Cell).regrantNonMember r lost m)
        (({ c.unlink m.key with lock := some l' } : Cell).regrantNonMember r lost m).rulings := by
    intro hf hnak hw
    rw [hf]
    refine ⟨l', rfl, .idle hs' hheld (fun htop hg => ?_) hnak (fun hf => absurd hf hnotfree) hw⟩
    rw [hlost.2 ⟨htop, hg⟩] at hf
    cases hf
  have hnotlost : ¬(n = top.nodeid ∧ m.ownerNodeid = gone) → lost = false := fun hno =>
    Bool.eq_false_iff.2 fun h => hno (hlost.1 h)
  by_cases ho : own
  · rw [if_pos ho, List.singleton_append] at h
    generalize hrs : c.rulings = rs at h
    cases h with
    | idle _ _ _ hnak _ _ =>
      have := hnak m List.mem_cons_self
      rw [hm] at this
      cases this
    | granting _ _ _ _ _ hms hgt hw =>
      exact hstay (hnotlost fun h => hgt h.1 h.2) (hrs ▸ hms) hw.eraseP_self
    | unlocking _ _ _ _ hu _ =>
      have := hu.1
      rw [hm] at this
      cases this
    | relocking _ _ _ _ hu _ _ _ _ =>
      have := hu.1
      rw [hm] at this
      cases this
    | regranting _ _ _ _ _ _ hgt hw =>
      exact hstay (hnotlost fun h => hgt h.2) (by rw [hrs]; simp) hw.eraseP_self
  · rw [if_neg ho, List.nil_append] at h
    obtain ⟨-, -, hnak, hfree, hw⟩ := h.idle_or_acts.resolve_right fun ha =>
      ho (hown.2 (hacts.unique ha hx hn))
    by_cases hl : n = top.nodeid ∧ m.ownerNodeid = gone
    · -- the head hands the lock on
      obtain ⟨htf, hne⟩ := hgone hl.2
      have herase : c.waiting.eraseP (fun q => q.key = m.key) = c.waiting := by
        refine List.eraseP_of_forall_not fun q hq => ?_
        have := hmine hl.1 q hq
        rw [← hl.2] at this
        simp only [decide_eq_true_eq]
        exact fun hk => this (congrArg RequestKey.nodeid hk)
      let c' : Cell := { c.unlink m.key with lock := some l' }
      have hw' : c'.waiting = c.waiting := herase
      obtain ⟨q, w', hc, hg⟩ := Cell.grantNextElse_pending (r := r) (c := c'.setState .free)
        (k := (·.send { m with request := .unlock }))
        (by rw [show (c'.setState .free).waiting = _ from hw']; exact hw)
        (by rw [show (c'.setState .free).waiting = _ from hw']; exact hres)
        (by rw [show (c'.setState .free).waiting = _ from hw']; exact hne hl.1)
      have hc : c.waiting = q :: w' := hw'.symm.trans hc
      have hq : q ∈ c.waiting := by rw [hc]; exact List.mem_cons_self
      have hre : c'.regrantNonMember r lost m = _ :=
        (if_pos (hlost.2 hl)).trans hg
      rw [hre]
      have hrul : ({ c'.setState .free with
          waiting := { q with state := .held } :: w'
          sent := (c'.setState .free).sent ++ [Daemon.grantMsg q] } : Cell).rulings =
          [Daemon.grantMsg q] := by
        rw [show ({ c'.setState .free with
          waiting := { q with state := .held } :: w'
          sent := (c'.setState .free).sent ++ [Daemon.grantMsg q] } : Cell).rulings =
            (c.send (Daemon.grantMsg q)).rulings from rfl,
          Cell.rulings_send (.inl rfl), hfree htf fun _ => hl.1]
        rfl
      rw [hrul]
      refine ⟨{ l' with state := .free }, rfl, .regranting hl.1 rfl ?_ (.inr hl.2) hheld rfl
        (hmine hl.1 q hq) (.inr ⟨_, w', rfl, rfl, fun q' hq' => hw q' ?_⟩)⟩
      · exact (congrArg (fun s => s.2.1) hs').trans hl.2
      · rw [hc]
        exact List.mem_cons_of_mem _ hq'
    · exact hstay (hnotlost hl) hnak (hw.sublist List.eraseP_sublist)

theorem Rejoins.unlink {ms : List CpgLockMsg} (h : Rejoins top gone n r o c ms) (k : RequestKey) :
    Rejoins top gone n r o (c.unlink k) ms := by
  cases o with
  | none => exact ⟨h.1, h.2.1, h.2.2.sublist List.eraseP_sublist⟩
  | some t =>
    obtain ⟨l, hl, h⟩ := h
    exact ⟨l, hl, h.waiting (·.sublist List.eraseP_sublist) fun _ hk => hk.eraseP k⟩

theorem Rejoins.nak {own : Prop} [Decidable own]
    (h : Rejoins top gone n r o c ((if own then [m] else []) ++ c.rulings))
    (hm : m.request = .nak) {connected : Bool} (hcon : m.ownerNodeid = n → connected = true) :
    Rejoins top gone n r o (c.processNak n connected m) (c.processNak n connected m).rulings := by
  have hrul : (c.processNak n connected m).rulings = c.rulings := by
    unfold Cell.processNak
    split
    · dsimp only
      split <;> rfl
    · rfl
  -- an own NAK was the first ruling that waited
  have hpop : Rejoins top gone n r o c c.rulings := by
    by_cases ho : own
    · rw [if_pos ho, List.singleton_append] at h
      cases o with
      | none => exact absurd h.2.1 (List.cons_ne_nil _ _)
      | some t =>
        obtain ⟨l, hl, h⟩ := h
        refine ⟨l, hl, ?_⟩
        generalize c.rulings = rs at h
        cases h with
        | idle hs hp hg hnak hfree hw =>
          refine .idle hs hp hg (fun m' hm' => hnak m' (List.mem_cons_of_mem _ hm'))
            (fun hf ht => ?_) hw
          exact absurd (hfree hf ht) (List.cons_ne_nil _ _)
        | granting _ _ _ _ hg _ _ _ => rw [hm] at hg; cases hg
        | unlocking _ _ _ _ hu _ => have := hu.1; rw [hm] at this; cases this
        | relocking _ _ _ _ hu _ _ _ _ => have := hu.1; rw [hm] at this; cases this
        | regranting _ _ _ _ _ hg _ _ => rw [hm] at hg; cases hg
    · rwa [if_neg ho, List.nil_append] at h
  rw [hrul]
  unfold Cell.processNak
  split
  · dsimp only
    rw [if_neg fun hc => by simp [hcon hc.1] at hc]
    exact hpop.unlink m.key
  · exact hpop

theorem Rejoins.unlock {own : Prop} [Decidable own]
    (h : Rejoins top gone n r (some t) c ((if own then [m] else []) ++ c.rulings))
    (hown : own ↔ top.nodeid = n) (hn : n ≠ 0 ∧ n ≠ gone) (hx : top.nodeid ≠ 0 ∧ top.nodeid ≠ gone)
    (ht : t.Taken top) (hm : m.GivesBack top) :
    Rejoins top gone n r (m.relock (some t)) (c.processUnlock r n m)
      (c.processUnlock r n m).rulings := by
  have hrel : m.Releases t := ⟨ht.2.1.trans hm.2.1.symm, ht.2.2.trans hm.2.2.symm⟩
  obtain ⟨l, hl, h⟩ := h
  simp only [CpgLockMsg.relock, hm.1, Option.map_some, if_pos (And.intro ht.1 hrel)]
  by_cases ho : own
  · -- the head has acted already
    have htop : n = top.nodeid := (hown.1 ho).symm
    have hsame : l.state ≠ .held → c.processUnlock r n m = c := by
      intro hst
      unfold Cell.processUnlock
      simp only [hl]
      exact if_neg fun h => hst h.1
    rw [if_pos ho, List.singleton_append] at h
    generalize hrs : c.rulings = rs at h
    cases h with
    | idle _ _ _ hnak _ _ =>
      have := hnak m List.mem_cons_self
      rw [hm.1] at this
      cases this
    | granting _ _ _ _ hg _ _ _ => rw [hm.1] at hg; cases hg
    | unlocking _ hst hkey _ _ hw =>
      rw [hsame (by simp [hst]), hrs]
      refine ⟨l, hl, .idle (CpgLock.shared_eq.2 ⟨hst, hkey⟩) (by simp) (fun _ => ?_) (by simp)
        (fun _ _ => rfl) hw⟩
      exact fun hg => hx.2 (ht.2.1.symm.trans hg)
    | relocking _ hst hkey _ _ hg hms hgt hw =>
      rw [hsame (by simp [hst]), hrs]
      exact ⟨l, hl, .granting hst hkey rfl (.inl (ht.2.1.trans htop.symm)) hg hms (fun _ => hgt) hw⟩
    | regranting _ _ _ _ _ hg _ _ => rw [hm.1] at hg; cases hg
  · have hne : n ≠ top.nodeid := fun h => ho (hown.2 h.symm)
    rw [if_neg ho, List.nil_append] at h
    have hacts : Acts top gone top.nodeid (some t) := .inl ht.2.1
    obtain ⟨hs, hp, hnak, hfree, hw⟩ := h.idle_or_acts.resolve_right fun ha =>
      hne (ha.unique hacts hn hx)
    obtain ⟨hst, hkey⟩ := (CpgLock.shared_eq (r := r)).1 hs
    obtain ⟨hlo, hlp, -⟩ := CpgLock.key_eq.1 hkey
    have heq : c.processUnlock r n m = c.setState .free := by
      unfold Cell.processUnlock
      simp only [hl]
      rw [if_pos ⟨hst.trans ht.1, (hlo.trans hrel.1), hlp.trans hrel.2⟩, if_neg]
      exact fun h => hne (h.symm.trans (hlo.trans ht.2.1))
    rw [heq]
    refine ⟨{ l with state := .free }, by simp [hl],
      .idle (CpgLock.shared_eq (r := r).2 ⟨rfl, hkey⟩) (by simp) (fun h => absurd h hne) hnak ?_ hw⟩
    exact fun _ htop => absurd (htop ht.2.1) hne

theorem Rejoins.purge {ms : List CpgLockMsg} (h : Rejoins top gone n r o c ms) (a p : UInt32) :
    Rejoins top gone n r o (c.purge a p) ms := by
  cases o with
  | none => exact ⟨h.1, h.2.1, h.2.2.sublist List.filter_sublist⟩
  | some t =>
    obtain ⟨l, hl, h⟩ := h
    exact ⟨l, hl, h.waiting (·.sublist List.filter_sublist) fun _ hk => hk.filter _⟩

end

end Cpglock
