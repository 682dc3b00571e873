import Cpglock.Daemon.Proof.Calm

/-!
# What a delivery does while nobody leaves or disconnects

`Daemon.Smooth`: the delivered message is no PURGE, a GRANT names a member, and one of this node finds
its entry and its client. `CellMove` lists what then becomes of a cell (`CellStep.move`): the request
is queued, refused or granted at once, the entry is taken, freed or passed on.
-/

namespace Cpglock

/-- The request that `queue_request` makes of a LOCK. -/
def CpgLockMsg.item (m : CpgLockMsg) (now : Nat) : RequestItem :=
  { resource := m.resource, ownerNodeid := m.ownerNodeid, ownerPid := m.ownerPid,
    ownerTid := m.ownerTid, state := .pending, reqTime := now }

@[simp] theorem CpgLockMsg.item_key (m : CpgLockMsg) (now : Nat) : (m.item now).key = m.key := rfl

/-- `q` is the first pending request of `ws`, and `ws'` is `ws` with `q` marked. -/
def Picks (ws : List RequestItem) (q : RequestItem) (ws' : List RequestItem) : Prop :=
  ∃ l₁ l₂, ws = l₁ ++ q :: l₂ ∧ ws' = l₁ ++ { q with state := .held } :: l₂ ∧ q.state = .pending ∧
    ∀ x ∈ l₁, x.state ≠ .pending

namespace Picks

variable {ws ws' : List RequestItem} {q : RequestItem}

theorem mem (h : Picks ws q ws') : q ∈ ws := by
  obtain ⟨l₁, l₂, rfl, -, -, -⟩ := h
  exact List.mem_append_right _ List.mem_cons_self

theorem pending (h : Picks ws q ws') : q.state = .pending := by
  obtain ⟨-, -, -, -, hq, -⟩ := h
  exact hq

/-- Marking keeps the identities. -/
theorem keys (h : Picks ws q ws') : ws'.map (·.key) = ws.map (·.key) := by
  obtain ⟨l₁, l₂, rfl, rfl, -, -⟩ := h
  simp [RequestItem.key]

/-- Of requests that are all pending the first is picked. -/
theorem first (h : Picks ws q ws') (hw : ∀ x ∈ ws, x.state = .pending) :
    ∃ l, ws = q :: l ∧ ws' = { q with state := .held } :: l := by
  obtain ⟨l₁, l₂, rfl, rfl, -, hl⟩ := h
  cases l₁ with
  | nil => exact ⟨l₂, rfl, rfl⟩
  | cons x l₁ => exact absurd (hw x (by simp)) (hl x List.mem_cons_self)

/-- Behind requests that are not pending the last is picked. -/
theorem last {x : RequestItem} (h : Picks (ws ++ [x]) q ws') (hw : ∀ y ∈ ws, y.state ≠ .pending) :
    q = x ∧ ws' = ws ++ [{ x with state := .held }] := by
  obtain ⟨l₁, l₂, he, rfl, hq, -⟩ := h
  rcases List.eq_nil_or_concat l₂ with rfl | ⟨l₂, y, rfl⟩
  · obtain ⟨rfl, hx⟩ := List.append_inj' he rfl
    obtain rfl := List.cons.inj hx |>.1
    exact ⟨rfl, rfl⟩
  · have he' : ws ++ [x] = (l₁ ++ q :: l₂) ++ [y] := by simpa using he
    obtain ⟨rfl, -⟩ := List.append_inj' he' rfl
    exact absurd hq (hw q (by simp))

/-- A request that is pending after the choice was so before. -/
theorem mem_of_pending (h : Picks ws q ws') {x : RequestItem} (hx : x ∈ ws')
    (hs : x.state = .pending) : x ∈ ws := by
  obtain ⟨l₁, l₂, rfl, rfl, -, -⟩ := h
  rcases List.mem_append.1 hx with hx | hx
  · exact List.mem_append_left _ hx
  · rcases List.mem_cons.1 hx with rfl | hx
    · cases hs
    · exact List.mem_append_right _ (List.mem_cons_of_mem _ hx)

end Picks

namespace Cell

variable {r : Resource} {c : Cell}

/-- `grant_next` on a cell, by what it picks. -/
theorem grantNext_picks (hw : ∀ q ∈ c.waiting, q.resource = r) :
    (c.grantNext r = none ∧ ∀ q ∈ c.waiting, q.state ≠ .pending) ∨
    ∃ q ws, Picks c.waiting q ws ∧
      c.grantNext r = some { c with waiting := ws, sent := c.sent ++ [Daemon.grantMsg q] } := by
  rcases grantNext_cases r c with ⟨hn, hp⟩ | ⟨q, l₁, l₂, heq, -, hs, hl, hg⟩
  · exact .inl ⟨hn, fun q hq => hp q hq (hw q hq)⟩
  · refine .inr ⟨q, _, ⟨l₁, l₂, heq, rfl, hs, fun x hx => hl x hx (hw x ?_)⟩, hg⟩
    rw [heq]
    exact List.mem_append_left _ hx

end Cell

namespace Daemon

structure Smooth (d : Daemon) (m : CpgLockMsg) : Prop where
  kept : m.request ≠ .purge
  real : m.request = .grant → m.ownerPid ≠ 0 ∧ m.ownerNodeid ≠ 0
  member : d.joined = true → m.request = .grant → d.lost m.ownerNodeid = false
  mine : m.request = .grant → m.ownerNodeid = d.myNodeId → d.locks.get m.resource ≠ none
  connected : m.request = .grant ∨ m.request = .nak → m.ownerNodeid = d.myNodeId →
    d.connected m.ownerPid = true

/-- What a smooth delivery makes of the cell of `r`. -/
inductive CellMove (d : Daemon) (r : Resource) (now : Nat) (m : CpgLockMsg) : Cell → Prop
  | same : (d.joined = true → m.resource = r → m.request ≠ .lock ∧ m.request ≠ .grant ∧
      m.request ≠ .nak ∧ m.request ≠ .unlock) → CellMove d r now m (d.cell r)
  | asks : d.joined = true → m.request = .lock → m.resource = r →
      (∀ l, (d.cell r).lock = some l → l.ownerNodeid = d.myNodeId →
        l.state ≠ .free ∧ m.isTry = false) →
      ((d.cell r).lock = none → d.getOldestNode.nodeid ≠ d.myNodeId) → CellMove d r now m
      { lock := some ((d.cell r).lock.getD .blank)
        waiting := (d.cell r).waiting ++ [m.item now], sent := (d.cell r).sent }
  | refused {l : CpgLock} : d.joined = true → m.request = .lock → m.resource = r →
      (d.cell r).lock = some l → l.ownerNodeid = d.myNodeId → l.state ≠ .free → m.isTry = true →
      CellMove d r now m
      { lock := some l, waiting := (d.cell r).waiting ++ [m.item now]
        sent := (d.cell r).sent ++ [{ m with request := .nak }] }
  | granted {l : CpgLock} {q : RequestItem} {ws : List RequestItem} : d.joined = true →
      m.request = .lock → m.resource = r →
      ((d.cell r).lock = some l ∧ l.ownerNodeid = d.myNodeId ∧ l.state = .free ∨
        (d.cell r).lock = none ∧ d.getOldestNode.nodeid = d.myNodeId ∧ l = .blank) →
      Picks ((d.cell r).waiting ++ [m.item now]) q ws → CellMove d r now m
      { lock := some { l with state := .pending }, waiting := ws
        sent := (d.cell r).sent ++ [grantMsg q] }
  | taken {l : CpgLock} : d.joined = true → m.request = .grant → m.resource = r →
      (d.cell r).lock = some l → CellMove d r now m
      { lock := some { Daemon.granted m l with
          localId := if m.ownerNodeid = d.myNodeId then d.localLockid + 1 else l.localId }
        waiting := (d.cell r).waiting.eraseP fun q => q.key = m.key, sent := (d.cell r).sent }
  -- a GRANT of another node's request for a lock that is not known here
  | learnt : d.joined = true → m.request = .grant → m.resource = r → (d.cell r).lock = none →
      m.ownerNodeid ≠ d.myNodeId → CellMove d r now m
      { d.cell r with lock := some (Daemon.granted m .blank) }
  | dropped : d.joined = true → m.request = .nak → m.resource = r → CellMove d r now m
      { d.cell r with waiting := (d.cell r).waiting.eraseP fun q => q.key = m.key }
  | stale : d.joined = true → m.request = .unlock → m.resource = r →
      (∀ l, (d.cell r).lock = some l → l.state = .held →
        ¬(l.ownerNodeid = m.ownerNodeid ∧ l.ownerPid = m.ownerPid)) →
      CellMove d r now m (d.cell r)
  | freed {l : CpgLock} : d.joined = true → m.request = .unlock → m.resource = r →
      (d.cell r).lock = some l → l.state = .held → l.ownerNodeid = m.ownerNodeid →
      l.ownerPid = m.ownerPid →
      (l.ownerNodeid = d.myNodeId → ∀ q ∈ (d.cell r).waiting, q.state ≠ .pending) →
      CellMove d r now m { d.cell r with lock := some { l with state := .free } }
  | passed {l : CpgLock} {q : RequestItem} {ws : List RequestItem} : d.joined = true →
      m.request = .unlock → m.resource = r → (d.cell r).lock = some l → l.state = .held →
      l.ownerNodeid = m.ownerNodeid → l.ownerPid = m.ownerPid → l.ownerNodeid = d.myNodeId →
      Picks (d.cell r).waiting q ws → CellMove d r now m
      { lock := some { l with state := .pending }, waiting := ws
        sent := (d.cell r).sent ++ [grantMsg q] }

namespace CellStep

variable {d : Daemon} {r : Resource} {now : Nat} {m : CpgLockMsg} {c : Cell}

/-- The owner of a FREE entry, or the oldest daemon that creates it, grants it at once. -/
theorem grantFree_move {l : CpgLock} {w : List RequestItem} {s : List CpgLockMsg} {x : RequestItem}
    (hw : ∀ q ∈ w ++ [x], q.resource = r) (hx : x.state = .pending) :
    ∃ q ws, Picks (w ++ [x]) q ws ∧
      Cell.grantFree r { lock := some l, waiting := w ++ [x], sent := s } =
        { lock := some { l with state := .pending }, waiting := ws, sent := s ++ [grantMsg q] } := by
  rcases Cell.grantNext_picks (c := { lock := some { l with state := .pending }
                                      waiting := w ++ [x], sent := s }) hw with
    ⟨-, hp⟩ | ⟨q, ws, hq, heq⟩
  · exact absurd hx (hp x (by simp))
  · refine ⟨q, ws, hq, ?_⟩
    rw [Cell.grantFree, Cell.grantNextElse]
    exact congrArg (Option.getD · _) heq

theorem move_lock (hj : d.joined = true) (hm : m.request = .lock) (hr : m.resource = r) :
    CellMove d r now m
      ((d.cell r).processLock r d.myNodeId (d.getOldestNode.nodeid = d.myNodeId) m now) := by
  have hw : ∀ q ∈ (d.cell r).waiting ++ [m.item now], q.resource = r := by
    intro q hq
    rcases List.mem_append.1 hq with hq | hq
    · exact mem_waiting hq
    · rw [List.mem_singleton.1 hq]
      exact hr
  have he : (d.cell r).enqueue m now =
      { d.cell r with waiting := (d.cell r).waiting ++ [m.item now] } := rfl
  unfold Cell.processLock
  cases hl : (d.cell r).lock with
  | some l =>
    have he' : { d.cell r with waiting := (d.cell r).waiting ++ [m.item now] } =
        { lock := some l, waiting := (d.cell r).waiting ++ [m.item now]
          sent := (d.cell r).sent : Cell } := by rw [← hl]
    simp only [he, he']
    split
    · next hme =>
      split
      · next hs =>
        obtain ⟨q, ws, hq, heq⟩ := grantFree_move (l := l) (s := (d.cell r).sent) hw rfl
        rw [heq]
        exact .granted hj hm hr (.inl ⟨hl, hme, hs⟩) hq
      · next hs =>
        split
        · next ht => exact .refused hj hm hr hl hme hs ht
        · next ht =>
          have : CellMove d r now m _ := .asks hj hm hr (fun l' hl' _ => by
            obtain rfl := Option.some.inj (hl.symm.trans hl')
            exact ⟨hs, by simpa using ht⟩) fun h0 => absurd (h0.symm.trans hl) (by simp)
          rwa [hl] at this
    · next hme =>
      have : CellMove d r now m _ := .asks hj hm hr (fun l' hl' hn => by
        obtain rfl := Option.some.inj (hl.symm.trans hl')
        exact absurd hn hme) fun h0 => absurd (h0.symm.trans hl) (by simp)
      rwa [hl] at this
  | none =>
    simp only [he, hl, decide_eq_true_eq]
    split
    · next hhead =>
      obtain ⟨q, ws, hq, heq⟩ := grantFree_move (l := .blank) (s := (d.cell r).sent) hw rfl
      rw [heq]
      exact .granted hj hm hr (.inr ⟨hl, hhead, rfl⟩) hq
    · next hhead =>
      have : CellMove d r now m _ := .asks hj hm hr
        (fun l' hl' _ => absurd (hl.symm.trans hl') (by simp)) fun _ => hhead
      rwa [hl] at this

theorem move_unlock (hj : d.joined = true) (hm : m.request = .unlock) (hr : m.resource = r) :
    CellMove d r now m ((d.cell r).processUnlock r d.myNodeId m) := by
  unfold Cell.processUnlock
  split
  · next l hl =>
    split
    · next hrel =>
      obtain ⟨hs, hn, hp⟩ := hrel
      have hset : ∀ st, (d.cell r).setState st =
          { d.cell r with lock := some { l with state := st } } := by
        intro st
        simp [Cell.setState, Cell.set, hl]
      simp only [hset]
      split
      · next hme =>
        rcases Cell.grantNext_picks (c := { d.cell r with lock := some { l with state := .free } })
          (fun q hq => mem_waiting hq) with ⟨hno, hw⟩ | ⟨q, ws, hq, heq⟩
        · rw [hno]
          exact .freed hj hm hr hl hs hn hp fun _ => hw
        · rw [heq]
          exact .passed (l := l) hj hm hr hl hs hn hp hme hq
      · next hme => exact .freed hj hm hr hl hs hn hp fun h => absurd h hme
    · next hrel =>
      refine .stale hj hm hr fun l' hl' hs hrel' => hrel ?_
      obtain rfl := Option.some.inj (hl.symm.trans hl')
      exact ⟨hs, hrel'⟩
  · next hl => exact .stale hj hm hr fun l hl' => absurd (hl.symm.trans hl') (by simp)

theorem move (h : d.CellStep r now m c) (hs : d.Smooth m) : d.CellMove r now m c := by
  cases h with
  | lock hj hm hr => exact move_lock hj hm hr
  | grant hj hm hr =>
    cases hl : (d.cell r).lock with
    | none =>
      have hn : m.ownerNodeid ≠ d.myNodeId := fun hn => hs.mine hm hn (hr ▸ hl)
      rw [show (d.cell r).processGrant r d.myNodeId (d.lost m.ownerNodeid)
          (d.connected m.ownerPid) (d.localLockid + 1) m =
          { d.cell r with lock := some (Daemon.granted m .blank) } by simp [Cell.processGrant, hl]]
      exact .learnt hj hm hr hl hn
    | some l =>
      rw [hs.member hj hm, Cell.processGrant_calm hl (hs.real hm).1 (hs.real hm).2
        (hs.connected (.inl hm))]
      exact .taken hj hm hr hl
  | nak hj hm hr =>
    rw [Cell.processNak_calm (hs.connected (.inr hm))]
    exact .dropped hj hm hr
  | unlock hj hm hr => exact move_unlock hj hm hr
  | purge hm => exact absurd hm hs.kept
  | gone hm hr hn hc => exact absurd (hs.connected hm hn) (by simp [hc])
  | same _ h => exact .same h

end CellStep

namespace CellMove

variable {d : Daemon} {r : Resource} {now : Nat} {m : CpgLockMsg} {c : Cell}

/-- Who waits after a delivery waited before, but for a LOCK's request. -/
theorem mem_keys (h : d.CellMove r now m c) {k : RequestKey} (hk : k ∈ c.keys) :
    k ∈ (d.cell r).keys ∨ m.request = .lock ∧ m.key = k := by
  have hnew : ∀ ws : List RequestItem, ws.map (·.key) = (d.cell r).keys ++ [m.key] →
      k ∈ ws.map (·.key) → m.request = .lock → k ∈ (d.cell r).keys ∨ m.request = .lock ∧ m.key = k := by
    intro ws hws hk hm
    rw [hws] at hk
    exact (List.mem_append.1 hk).imp_right fun hk => ⟨hm, (List.mem_singleton.1 hk).symm⟩
  have hsub : ∀ ws : List RequestItem, ws.Sublist (d.cell r).waiting → k ∈ ws.map (·.key) →
      k ∈ (d.cell r).keys := fun ws hws hk => (hws.map _).subset hk
  cases h with
  | same => exact .inl hk
  | asks _ hm _ _ _ => exact hnew _ (by simp [Cell.keys]) hk hm
  | refused _ hm _ _ _ _ _ => exact hnew _ (by simp [Cell.keys]) hk hm
  | granted _ hm _ _ hq => exact hnew _ (hq.keys.trans (by simp [Cell.keys])) hk hm
  | taken => exact .inl (hsub _ List.eraseP_sublist hk)
  | learnt => exact .inl hk
  | dropped => exact .inl (hsub _ List.eraseP_sublist hk)
  | stale => exact .inl hk
  | freed => exact .inl hk
  | passed _ _ _ _ _ _ _ _ hq => exact .inl (by rwa [Cell.keys, hq.keys] at hk)

/-- A delivery sends at most one message: the GRANT of a waiting request or a refusal. -/
theorem sent_cases (h : d.CellMove r now m c) : c.sent = (d.cell r).sent ∨
    (∃ q, c.sent = (d.cell r).sent ++ [grantMsg q] ∧ q.resource = r ∧ q.key ∈ c.keys ∧
      q.state = .pending) ∨
    m.request = .lock ∧ m.resource = r ∧ m.isTry = true ∧ m.key ∈ c.keys ∧
      c.sent = (d.cell r).sent ++ [{ m with request := .nak }] := by
  have hpick : ∀ {ws : List RequestItem} {q : RequestItem} {ws' : List RequestItem},
      Picks ws q ws' → q.key ∈ ws'.map (·.key) := by
    intro ws q ws' hq
    rw [hq.keys]
    exact List.mem_map_of_mem hq.mem
  cases h with
  | same => exact .inl rfl
  | asks => exact .inl rfl
  | refused _ hm hr _ _ _ ht => exact .inr (.inr ⟨hm, hr, ht, by simp [Cell.keys], rfl⟩)
  | granted _ hm hr _ hq =>
    refine .inr (.inl ⟨_, rfl, ?_, hpick hq, hq.pending⟩)
    rcases List.mem_append.1 hq.mem with hq | hq
    · exact CellStep.mem_waiting hq
    · rw [List.mem_singleton.1 hq]
      exact hr
  | taken => exact .inl rfl
  | learnt => exact .inl rfl
  | dropped => exact .inl rfl
  | stale => exact .inl rfl
  | freed => exact .inl rfl
  | passed _ _ _ _ _ _ _ _ hq =>
    exact .inr (.inl ⟨_, rfl, CellStep.mem_waiting hq.mem, hpick hq, hq.pending⟩)

/-- Entries stay, and a LOCK that a joined daemon is delivered makes one. -/
theorem lock_ne_none (h : d.CellMove r now m c)
    (hl : (d.cell r).lock ≠ none ∨ d.joined = true ∧ m.request = .lock ∧ m.resource = r) :
    c.lock ≠ none := by
  cases h with
  | same hs =>
    rcases hl with hl | ⟨hj, hm, hr⟩
    · exact hl
    · exact absurd hm (hs hj hr).1
  | dropped _ hm _ =>
    rcases hl with hl | ⟨-, hm', -⟩
    · exact hl
    · exact absurd (hm.symm.trans hm') (by decide)
  | stale _ hm _ _ =>
    rcases hl with hl | ⟨-, hm', -⟩
    · exact hl
    · exact absurd (hm.symm.trans hm') (by decide)
  | _ => exact Option.some_ne_none _

end CellMove

/-! ## Clients -/

/-- What a client's message makes of the cell of `r`. -/
inductive CellWrite (d : Daemon) (r : Resource) (m : CpgLockMsg) : Cell → Prop
  | same : (m.request = .lock → m.resource ≠ r) →
      (m.request = .unlock → ∀ l, (d.cell r).lock = some l → l.localId = m.lockid →
        ∃ r' l', r' ≠ r ∧ d.locks.get r' = some l' ∧ l'.localId = m.lockid) →
      CellWrite d r m (d.cell r)
  | asks : m.request = .lock → m.resource = r →
      CellWrite d r m ((d.cell r).send { m with ownerNodeid := d.myNodeId })
  | passed {l : CpgLock} {q : RequestItem} {ws : List RequestItem} : m.request = .unlock →
      (d.cell r).lock = some l → l.localId = m.lockid → Picks (d.cell r).waiting q ws →
      CellWrite d r m { d.cell r with waiting := ws, sent := (d.cell r).sent ++ [grantMsg q] }
  | freed {l : CpgLock} {u : CpgLockMsg} : m.request = .unlock → (d.cell r).lock = some l →
      l.localId = m.lockid → (∀ q ∈ (d.cell r).waiting, q.state ≠ .pending) →
      u.request = .unlock → u.resource = r → u.ownerNodeid = l.ownerNodeid →
      u.ownerPid = l.ownerPid → CellWrite d r m ((d.cell r).send u)

theorem cellWrite_clientActivityCb (d : Daemon) (r : Resource) (fd : Nat) (m : CpgLockMsg) :
    CellWrite d r m ((d.clientActivityCb fd m).cell r) := by
  rw [cell_clientActivityCb]
  split
  · next h => exact .asks h.1 h.2
  · next hlock =>
    split
    · next hm =>
      have hnot : m.request = .lock → m.resource ≠ r := fun h => by simp [hm] at h
      split
      · next m' hf =>
        obtain ⟨l, hl, hid, hn, hp, -, -⟩ := findLockById_some hf
        split
        · next hr =>
          subst hr
          rcases Cell.grantNext_picks (r := m'.resource) (c := d.cell m'.resource)
            (fun q hq => CellStep.mem_waiting hq) with ⟨hno, hw⟩ | ⟨q, ws, hq, heq⟩
          · have h : (d.cell m'.resource).grantNextOrUnlock m'.resource m' =
                (d.cell m'.resource).send { m' with request := .unlock } := by
              simp only [Cell.grantNextOrUnlock, Cell.grantNextElse, hno, Option.getD_none]
            rw [h]
            exact .freed hm hl hid hw rfl rfl hn hp
          · have h : (d.cell m'.resource).grantNextOrUnlock m'.resource m' =
                { d.cell m'.resource with
                  waiting := ws, sent := (d.cell m'.resource).sent ++ [grantMsg q] } := by
              simp only [Cell.grantNextOrUnlock, Cell.grantNextElse, heq, Option.getD_some]
            rw [h]
            exact .passed hm hl hid hq
        · next hr => exact .same hnot fun _ _ _ _ => ⟨m'.resource, l, hr, hl, hid⟩
      · next hf =>
        refine .same hnot fun _ l hl hid => ?_
        have hnone := Option.map_eq_none_iff.1 hf
        rw [List.find?_eq_none] at hnone
        have hmem : (r, l) ∈ d.locks.entries := SortedMap.mem_entries.2 hl
        exact absurd hid.symm (by simpa using hnone _ hmem)
    · next hm => exact .same (fun h hr => hlock ⟨h, hr⟩) fun h => absurd h hm

namespace CellWrite

variable {d : Daemon} {r : Resource} {m : CpgLockMsg} {c : Cell}

theorem lock (h : d.CellWrite r m c) : c.lock = (d.cell r).lock := by
  cases h <;> rfl

theorem keys (h : d.CellWrite r m c) : c.keys = (d.cell r).keys := by
  cases h with
  | passed _ _ _ hq => exact hq.keys
  | _ => rfl

/-- A client's message makes a daemon send at most one message: the LOCK, the GRANT of a waiting
request, or an UNLOCK. -/
theorem sent_cases (h : d.CellWrite r m c) : c.sent = (d.cell r).sent ∨
    m.request = .lock ∧ m.resource = r ∧
      c.sent = (d.cell r).sent ++ [{ m with ownerNodeid := d.myNodeId }] ∨
    (∃ q, c.sent = (d.cell r).sent ++ [grantMsg q] ∧ q.resource = r ∧ q.key ∈ (d.cell r).keys ∧
      q.state = .pending) ∨
    ∃ u, u.request = .unlock ∧ u.resource = r ∧ c.sent = (d.cell r).sent ++ [u] := by
  cases h with
  | same => exact .inl rfl
  | asks hm hr => exact .inr (.inl ⟨hm, hr, rfl⟩)
  | passed _ _ _ hq =>
    exact .inr (.inr (.inl ⟨_, rfl, CellStep.mem_waiting hq.mem, List.mem_map_of_mem hq.mem,
      hq.pending⟩))
  | freed _ _ _ _ hu hr _ _ => exact .inr (.inr (.inr ⟨_, hu, hr, rfl⟩))

end CellWrite

end Daemon

end Cpglock
