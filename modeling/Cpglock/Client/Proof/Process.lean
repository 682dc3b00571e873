import Cpglock.Client.Process

/-!
# Where the lock ids of a process are

An id that a process was given is in a GRANT that no thread has taken, in a HELD variable, or in an
UNLOCK that the daemon has not read, and in one of these places only (`Process.Ok`). Every step of the
process keeps that, so each UNLOCK has an id of its own that the daemon has given and not got back.
-/

namespace Cpglock

theorem CpgLockHandle.pass_pid {h h' : CpgLockHandle} {l r : CpgLockMsg} {read : ReadRet} {t : Turn}
    (hp : h.pass l r read = some (h', t)) : h'.pid = h.pid := by
  unfold pass checkPending at hp
  cases hf : h.pending.find? fun m => l.Answers m with
  | some m =>
    simp only [hf, Option.map_some, Option.some.injEq, Prod.mk.injEq] at hp
    rw [← hp.1]
  | none =>
    simp only [hf, Option.map_none] at hp
    cases read with
    | failed e => rw [(Prod.mk.inj (Option.some.inj hp)).1]
    | message =>
      simp only at hp
      cases hu : h.unread with
      | nil => rw [hu] at hp; cases hp
      | cons m unread =>
        rw [hu] at hp
        simp only at hp
        split at hp
        · rw [← (Prod.mk.inj (Option.some.inj hp)).1]
          rfl
        · split at hp
          · rw [← (Prod.mk.inj (Option.some.inj hp)).1]
            rfl
          · rw [← (Prod.mk.inj (Option.some.inj hp)).1]

/-- `*lock` after `cpg_lock`: HELD with the id of the GRANT, or as it was. -/
theorem CpgLockHandle.finish_lock (h : CpgLockHandle) (lock : CpgLock) (r : CpgLockMsg) :
    (h.finish lock r).lock = lock ∨ r.request = .grant ∧ (h.finish lock r).lock.state = .held ∧
      (h.finish lock r).lock.localId = r.lockid := by
  unfold finish
  split
  · exact .inl rfl
  · split
    · exact .inl rfl
    · split
      · exact .inl rfl
      · next hg => exact .inr ⟨not_not.1 hg, rfl, rfl⟩

namespace Process

variable {ι κ : Type}

/-- The ids in GRANTs that no thread has taken. -/
def grantIds (p : Process ι κ) : List UInt64 :=
  (p.handle.waiting.filter fun m => m.request = .grant).map (·.lockid)

/-- The ids in UNLOCKs that the daemon has not read. -/
def unlockIds (p : Process ι κ) : List UInt64 :=
  (p.sent.filter fun m => m.request = .unlock).map (·.lockid)

/-- The numbers of the LOCKs that the daemon has not read. -/
def lockTids (p : Process ι κ) : List UInt32 :=
  (p.sent.filter fun m => m.request = .lock).map (·.ownerTid)

/-- The variable is HELD. -/
def Holds (p : Process ι κ) (v : κ) : Prop := (p.locks v).lock.state = .held

/-- The id of the variable. -/
def idOf (p : Process ι κ) (v : κ) : UInt64 := (p.locks v).lock.localId

/-- A process whose LOCKs that the daemon read had the numbers `read`; `G i r`: the daemon has given it
the id `i` for `r`, and not got back. -/
structure Ok (p : Process ι κ) (read : List UInt32) (G : UInt64 → Resource → Prop) : Prop where
  sent : ∀ m ∈ p.sent, m.request = .lock ∧ m.ownerPid = p.handle.pid ∨ m.request = .unlock
  numbers : (read ++ p.lockTids).Nodup
  bound : ∀ t ∈ read ++ p.lockTids, t.toNat ≤ p.handle.seq.toNat
  grants : ∀ m ∈ p.handle.waiting, m.request = .grant → G m.lockid m.resource
  held : ∀ v, p.Holds v → G (p.idOf v) (p.locks v).resource
  unlocks : ∀ i ∈ p.unlockIds, ∃ r, G i r
  nodup : (p.grantIds ++ p.unlockIds).Nodup
  apart : ∀ v, p.Holds v → p.idOf v ∉ p.grantIds ++ p.unlockIds
  inj : ∀ v w, p.Holds v → p.Holds w → p.idOf v = p.idOf w → v = w
  waits : ∀ i l r v, p.threads i = .waiting l r v → l.resource = (p.locks v).resource ∧ ¬p.Holds v
  alone : ∀ i j l r l' r' v, p.threads i = .waiting l r v → p.threads j = .waiting l' r' v → i = j

theorem init_ok {pid : UInt32} {G : UInt64 → Resource → Prop} :
    (init pid : Process ι κ).Ok [] G where
  sent := by simp [init]
  numbers := by simp [init, lockTids]
  bound := by simp [init, lockTids]
  grants := by simp [init, CpgLockHandle.init, CpgLockHandle.waiting]
  held v h := by cases h
  unlocks := by simp [init, unlockIds]
  nodup := by simp [init, grantIds, unlockIds, CpgLockHandle.init, CpgLockHandle.waiting]
  apart v h := by cases h
  inj v w h := by cases h
  waits i l r v h := by cases h
  alone i j l r l' r' v h := by cases h

namespace Ok

variable {p p' : Process ι κ} {read : List UInt32} {G G' : UInt64 → Resource → Prop}

/-! ## What the daemon does -/

/-- The daemon writes GRANTs with new ids, and other messages. -/
theorem receive (h : p.Ok read G) {ms : List CpgLockMsg}
    (hnew : ∀ m ∈ ms, m.request = .grant → G m.lockid m.resource)
    (hnodup : ((ms.filter fun m => m.request = .grant).map (·.lockid)).Nodup)
    (hfresh : ∀ m ∈ ms, m.request = .grant →
      m.lockid ∉ p.grantIds ++ p.unlockIds ∧ ∀ v, p.Holds v → p.idOf v ≠ m.lockid) :
    (p.receive ms).Ok read G := by
  have hperm : (p.receive ms).grantIds.Perm
      ((ms.filter fun m => m.request = .grant).map (·.lockid) ++ p.grantIds) := by
    have hw : (p.receive ms).handle.waiting.Perm (ms ++ p.handle.waiting) := by
      have hcomm : (p.handle.unread ++ ms).Perm (ms ++ p.handle.unread) := List.perm_append_comm
      refine (hcomm.append_right _).trans ?_
      rw [List.append_assoc]
      exact .refl _
    rw [grantIds, grantIds, ← List.map_append, ← List.filter_append]
    exact (hw.filter _).map _
  have hmem : ∀ i, i ∈ (p.receive ms).grantIds ++ p.unlockIds ↔
      i ∈ (ms.filter fun m => m.request = .grant).map (·.lockid) ∨ i ∈ p.grantIds ++ p.unlockIds := by
    intro i
    rw [List.mem_append, hperm.mem_iff, List.mem_append, List.mem_append, or_assoc]
  refine { h with grants := ?_, nodup := ?_, apart := ?_ }
  · intro m hm hg
    have hm : m ∈ p.handle.unread ++ ms ++ p.handle.pending := hm
    simp only [List.mem_append, or_assoc] at hm
    rcases hm with hm | hm | hm
    · exact h.grants m (List.mem_append_left _ hm) hg
    · exact hnew m hm hg
    · exact h.grants m (List.mem_append_right _ hm) hg
  · refine ((hperm.append_right _).nodup_iff).2 ?_
    rw [List.append_assoc]
    refine List.nodup_append.2 ⟨hnodup, h.nodup, ?_⟩
    rintro i hi _ hi' rfl
    obtain ⟨m, hm, rfl⟩ := List.mem_map.1 hi
    obtain ⟨hm, hg⟩ := List.mem_filter.1 hm
    exact (hfresh m hm (of_decide_eq_true hg)).1 hi'
  · intro v hv hi
    rcases (hmem _).1 hi with hi | hi
    · obtain ⟨m, hm, he⟩ := List.mem_map.1 hi
      obtain ⟨hm, hg⟩ := List.mem_filter.1 hm
      exact (hfresh m hm (of_decide_eq_true hg)).2 v hv he.symm
    · exact h.apart v hv hi

/-- The ids that the daemon has given stay, or are not those of the process. -/
theorem mono (h : p.Ok read G) (hG : ∀ i r, G i r → G' i r ∨
    i ∉ p.grantIds ++ p.unlockIds ∧ ∀ v, p.Holds v → p.idOf v ≠ i) : p.Ok read G' where
  sent := h.sent
  numbers := h.numbers
  bound := h.bound
  grants m hm hg := by
    refine (hG _ _ (h.grants m hm hg)).resolve_right fun hno => hno.1 (List.mem_append_left _ ?_)
    exact List.mem_map.2 ⟨m, List.mem_filter.2 ⟨hm, decide_eq_true hg⟩, rfl⟩
  held v hv := (hG _ _ (h.held v hv)).resolve_right fun hno => hno.2 v hv rfl
  unlocks i hi := by
    obtain ⟨r, hr⟩ := h.unlocks i hi
    exact ⟨r, (hG _ _ hr).resolve_right fun hno => hno.1 (List.mem_append_right _ hi)⟩
  nodup := h.nodup
  apart := h.apart
  inj := h.inj
  waits := h.waits
  alone := h.alone

/-- The daemon reads a LOCK. -/
theorem readLock (h : p.Ok read G) {m : CpgLockMsg} {sent : List CpgLockMsg} (hs : p.sent = m :: sent)
    (hm : m.request = .lock) : ({ p with sent } : Process ι κ).Ok (read ++ [m.ownerTid]) G := by
  have htids : p.lockTids = m.ownerTid :: ({ p with sent } : Process ι κ).lockTids := by
    simp [lockTids, hs, hm]
  have hids : p.unlockIds = ({ p with sent } : Process ι κ).unlockIds := by
    simp [unlockIds, hs, hm]
  have heq : read ++ p.lockTids =
      read ++ [m.ownerTid] ++ ({ p with sent } : Process ι κ).lockTids := by
    rw [htids]
    simp
  exact {
    sent := fun g hg => h.sent g (by rw [hs]; exact List.mem_cons_of_mem _ hg)
    numbers := heq ▸ h.numbers
    bound := heq ▸ h.bound
    grants := h.grants
    held := h.held
    unlocks := hids ▸ h.unlocks
    nodup := by
      have := h.nodup
      rwa [hids] at this
    apart := fun v hv => by
      have := h.apart v hv
      rwa [hids] at this
    inj := h.inj
    waits := h.waits
    alone := h.alone }

/-- The daemon reads an UNLOCK, and gets its id back. -/
theorem readUnlock (h : p.Ok read G) {m : CpgLockMsg} {sent : List CpgLockMsg}
    (hs : p.sent = m :: sent) (hm : m.request = .unlock) (hG : ∀ i r, G i r → G' i r ∨ i = m.lockid) :
    ({ p with sent } : Process ι κ).Ok read G' := by
  have htids : p.lockTids = ({ p with sent } : Process ι κ).lockTids := by
    simp [lockTids, hs, hm]
  have hids : p.unlockIds = m.lockid :: ({ p with sent } : Process ι κ).unlockIds := by
    simp [unlockIds, hs, hm]
  have hnodup : (m.lockid :: (p.grantIds ++ ({ p with sent } : Process ι κ).unlockIds)).Nodup := by
    have := h.nodup
    rw [hids] at this
    exact List.nodup_middle.1 this
  have hmem : ∀ {i}, i ∈ p.grantIds ++ ({ p with sent } : Process ι κ).unlockIds →
      i ∈ p.grantIds ++ p.unlockIds := by
    intro i hi
    rw [hids]
    exact List.mem_append.2 ((List.mem_append.1 hi).imp id (List.mem_cons_of_mem _))
  refine Ok.mono (G := G) ?_ fun i r hi => (hG i r hi).imp_right ?_
  · exact {
      sent := fun g hg => h.sent g (by rw [hs]; exact List.mem_cons_of_mem _ hg)
      numbers := htids ▸ h.numbers
      bound := htids ▸ h.bound
      grants := h.grants
      held := h.held
      unlocks := fun i hi => h.unlocks i (by rw [hids]; exact List.mem_cons_of_mem _ hi)
      nodup := (List.nodup_cons.1 hnodup).2
      apart := fun v hv hi => h.apart v hv (hmem hi)
      inj := h.inj
      waits := h.waits
      alone := h.alone }
  · rintro rfl
    refine ⟨(List.nodup_cons.1 hnodup).1, fun v hv he => h.apart v hv ?_⟩
    have he : p.idOf v = m.lockid := he
    rw [he, hids]
    exact List.mem_append_right _ List.mem_cons_self

/-! ## What its threads do -/

variable [DecidableEq ι] [DecidableEq κ]

omit [DecidableEq κ] in
/-- Thread `i` returns to the program. -/
theorem leave (h : p.Ok read G) (i : ι) (ret : Int) (errno : Option Errno) :
    (p.leave i ret errno).Ok read G := by
  have hthread : ∀ {j l r v}, (p.leave i ret errno).threads j = .waiting l r v →
      p.threads j = .waiting l r v := by
    intro j l r v hj
    have hj : Function.update p.threads i .out j = .waiting l r v := hj
    by_cases hji : j = i
    · rw [hji, Function.update_self] at hj
      cases hj
    · rwa [Function.update_of_ne hji] at hj
  exact { h with
    waits := fun j l r v hj => h.waits j l r v (hthread hj)
    alone := fun j k l r l' r' v hj hk => h.alone j k l r l' r' v (hthread hj) (hthread hk) }

omit [DecidableEq κ] in
/-- Thread `i` waits, as the only one, with a variable that is not HELD. -/
theorem sleep (h : p.Ok read G) {i : ι} {l r : CpgLockMsg} {v : κ}
    (hl : l.resource = (p.locks v).resource) (hv : ¬p.Holds v)
    (ha : ∀ j l r, p.threads j = .waiting l r v → j = i) :
    (p.setThread i (.waiting l r v)).Ok read G := by
  have hthread : ∀ {j l' r' w}, (p.setThread i (.waiting l r v)).threads j = .waiting l' r' w →
      j = i ∧ l' = l ∧ w = v ∨ j ≠ i ∧ p.threads j = .waiting l' r' w := by
    intro j l' r' w hj
    have hj : Function.update p.threads i (.waiting l r v) j = .waiting l' r' w := hj
    by_cases hji : j = i
    · rw [hji, Function.update_self] at hj
      obtain ⟨rfl, -, rfl⟩ := InLock.waiting.inj hj
      exact .inl ⟨hji, rfl, rfl⟩
    · rw [Function.update_of_ne hji] at hj
      exact .inr ⟨hji, hj⟩
  refine { h with waits := ?_, alone := ?_ }
  · intro j l' r' w hj
    rcases hthread hj with ⟨-, rfl, rfl⟩ | ⟨-, hj⟩
    · exact ⟨hl, hv⟩
    · exact h.waits j l' r' w hj
  · intro j k l' r' l'' r'' w hj hk
    rcases hthread hj with ⟨rfl, -, rfl⟩ | ⟨-, hj'⟩
    · rcases hthread hk with ⟨rfl, -, -⟩ | ⟨-, hk'⟩
      · rfl
      · exact (ha k _ _ hk').symm
    · rcases hthread hk with ⟨rfl, -, rfl⟩ | ⟨-, hk'⟩
      · exact ha j _ _ hj'
      · exact h.alone j k _ _ _ _ w hj' hk'

omit [DecidableEq ι] in
/-- A variable with which no thread waits is written; if it is HELD then, its id is nowhere else. -/
theorem setLock (h : p.Ok read G) {v : κ} {x : LockVar} (hno : ∀ j l r, p.threads j ≠ .waiting l r v)
    (hx : x.lock.state = .held → G x.lock.localId x.resource ∧
      x.lock.localId ∉ p.grantIds ++ p.unlockIds ∧ ∀ w, p.Holds w → p.idOf w ≠ x.lock.localId) :
    (p.setLock v x).Ok read G := by
  have hself : (p.setLock v x).locks v = x := Function.update_self ..
  have hof : ∀ {w}, w ≠ v → (p.setLock v x).locks w = p.locks w := fun hw =>
    Function.update_of_ne hw ..
  refine { h with held := ?_, apart := ?_, inj := ?_, waits := ?_ }
  · intro w hw
    simp only [Holds, idOf] at hw ⊢
    by_cases hwv : w = v
    · rw [hwv, hself] at hw ⊢
      exact (hx hw).1
    · rw [hof hwv] at hw ⊢
      exact h.held w hw
  · intro w hw
    simp only [Holds, idOf] at hw ⊢
    by_cases hwv : w = v
    · rw [hwv, hself] at hw ⊢
      exact (hx hw).2.1
    · rw [hof hwv] at hw ⊢
      exact h.apart w hw
  · intro w w' hw hw' he
    simp only [Holds, idOf] at hw hw' he
    by_cases hwv : w = v
    · by_cases hwv' : w' = v
      · exact hwv.trans hwv'.symm
      · rw [hwv, hself] at hw he
        rw [hof hwv'] at hw' he
        exact absurd he.symm ((hx hw).2.2 w' hw')
    · rw [hof hwv] at hw he
      by_cases hwv' : w' = v
      · rw [hwv', hself] at hw' he
        exact absurd he ((hx hw').2.2 w hw)
      · rw [hof hwv'] at hw' he
        exact h.inj w w' hw hw' he
  · intro j l r w hj
    have hwv : w ≠ v := fun hwv => hno j l r (hwv ▸ hj)
    have := h.waits j l r w hj
    simp only [Holds, hof hwv]
    exact this

omit [DecidableEq ι] [DecidableEq κ] in
/-- Messages are taken from those that wait. -/
theorem handle (h : p.Ok read G) {h' : CpgLockHandle} (ms : List CpgLockMsg)
    (hseq : h'.seq = p.handle.seq) (hpid : h'.pid = p.handle.pid)
    (hw : p.handle.waiting.Perm (ms ++ h'.waiting)) :
    ({ p with handle := h' } : Process ι κ).Ok read G := by
  have hids : p.grantIds.Perm ((ms.filter fun m => m.request = .grant).map (·.lockid) ++
      ({ p with handle := h' } : Process ι κ).grantIds) := by
    rw [grantIds, grantIds, ← List.map_append, ← List.filter_append]
    exact (hw.filter _).map _
  have hsub : ∀ {i}, i ∈ ({ p with handle := h' } : Process ι κ).grantIds ++ p.unlockIds →
      i ∈ p.grantIds ++ p.unlockIds := by
    intro i hi
    rw [List.mem_append, hids.mem_iff]
    exact (List.mem_append.1 hi).imp_left (List.mem_append_right _)
  exact { h with
    sent := fun m hm => (h.sent m hm).imp_left fun hm => ⟨hm.1, hm.2.trans hpid.symm⟩
    bound := fun t ht => (h.bound t ht).trans (congrArg UInt32.toNat hseq).ge
    grants := fun m hm => h.grants m (hw.mem_iff.2 (List.mem_append_right _ hm))
    nodup := by
      have := ((hids.append_right p.unlockIds).nodup_iff).1 h.nodup
      rw [List.append_assoc] at this
      exact (List.nodup_append.1 this).2.1
    apart := fun v hv hi => h.apart v hv (hsub hi) }

/-- A pass of the loop. -/
theorem pass (h : p.Ok read G) {i : ι} {l r : CpgLockMsg} {v : κ} {rd : ReadRet}
    (hl : l.resource = (p.locks v).resource) (hv : ¬p.Holds v)
    (ha : ∀ j l r, p.threads j = .waiting l r v → j = i)
    (hp : p.pass i l r v rd = some p') : p'.Ok read G ∧ p'.handle.pid = p.handle.pid := by
  obtain ⟨⟨h', t⟩, hpass, hp'⟩ := Option.map_eq_some_iff.1 hp
  obtain ⟨hseq, hpassed⟩ := CpgLockHandle.pass_spec hpass
  have hpid := CpgLockHandle.pass_pid hpass
  subst hp'
  refine ⟨?_, ?_⟩
  · cases hpassed with
    | sleep hw => exact (h.handle [] hseq hpid hw).sleep hl hv ha
    | failed _ _ hw => exact (h.handle [] hseq hpid hw).leave i _ _
    | @reply m hans hw =>
      have hok := (h.handle [m] hseq hpid hw).leave i (h'.finish (p.locks v).lock m).ret
        (h'.finish (p.locks v).lock m).errno
      refine hok.setLock (v := v) (fun j l r hj => ?_) fun hheld => ?_
      · have hj : Function.update p.threads i .out j = .waiting l r v := hj
        by_cases hji : j = i
        · rw [hji, Function.update_self] at hj
          cases hj
        · rw [Function.update_of_ne hji] at hj
          exact hji (ha j l r hj)
      · rcases h'.finish_lock (p.locks v).lock m with hlock | ⟨hg, -, hid⟩
        · exact absurd ((congrArg CpgLock.state hlock).symm.trans hheld) hv
        · have hm : m ∈ p.handle.waiting := hw.mem_iff.2 List.mem_cons_self
          have hmem : m.lockid ∈ p.grantIds :=
            List.mem_map.2 ⟨m, List.mem_filter.2 ⟨hm, decide_eq_true hg⟩, rfl⟩
          rw [show (LockVar.lock _).localId = m.lockid from hid]
          refine ⟨?_, ?_, fun w hholds he => h.apart w hholds ?_⟩
          · rw [show (LockVar.resource _) = m.resource from hl.symm.trans hans.1]
            exact h.grants m hm hg
          · -- the GRANT was the only one with its id
            have hids : p.grantIds.Perm (m.lockid ::
                ({ p with handle := h' } : Process ι κ).grantIds) := by
              have := (hw.filter fun m => m.request = .grant).map (·.lockid)
              rwa [List.filter_cons_of_pos (by simpa using hg), List.map_cons] at this
            have := ((hids.append_right p.unlockIds).nodup_iff).1 h.nodup
            exact (List.nodup_cons.1 this).1
          · have he : p.idOf w = m.lockid := he
            rw [he]
            exact List.mem_append_left _ hmem
  · cases t <;> exact hpid

theorem wake (h : p.Ok read G) {i : ι} {rd : ReadRet} (hp : p.wake i rd = some p') :
    p'.Ok read G ∧ p'.handle.pid = p.handle.pid := by
  unfold Process.wake at hp
  split at hp
  · cases hp
  · next l r v hi =>
    obtain ⟨hl, hv⟩ := h.waits i l r v hi
    exact h.pass hl hv (fun j l' r' hj => h.alone j i l' r' l r v hj hi) hp

omit [DecidableEq ι] [DecidableEq κ] in
/-- The next request gets the next number. -/
theorem count (h : p.Ok read G) (h0 : p.handle.seq + 1 ≠ 0) :
    ({ p with handle := { p.handle with seq := p.handle.seq + 1 } } : Process ι κ).Ok read G ∧
      ∀ t ∈ read ++ p.lockTids, t ≠ p.handle.seq + 1 := by
  have hsucc := Threads.Placed.toNat_succ h0
  refine ⟨{ h with bound := fun t ht => (h.bound t ht).trans ?_ }, fun t ht he => ?_⟩
  · rw [hsucc]
    exact Nat.le_succ _
  · have := h.bound t ht
    rw [he, hsucc] at this
    omega

omit [DecidableEq ι] [DecidableEq κ] in
/-- A LOCK is written. -/
theorem ask (h : p.Ok read G) {l : CpgLockMsg} (hl : l.request = .lock)
    (hpid : l.ownerPid = p.handle.pid) (hle : l.ownerTid.toNat ≤ p.handle.seq.toNat)
    (hnew : ∀ t ∈ read ++ p.lockTids, t ≠ l.ownerTid) :
    ({ p with sent := p.sent ++ [l] } : Process ι κ).Ok read G := by
  have htids : ({ p with sent := p.sent ++ [l] } : Process ι κ).lockTids =
      p.lockTids ++ [l.ownerTid] := by
    simp [lockTids, hl]
  have hids : ({ p with sent := p.sent ++ [l] } : Process ι κ).unlockIds = p.unlockIds := by
    simp [unlockIds, hl]
  exact { h with
    sent := fun m hm => (List.mem_append.1 hm).elim (h.sent m) fun hm => by
      rw [List.mem_singleton.1 hm]
      exact .inl ⟨hl, hpid⟩
    numbers := by
      rw [htids, ← List.append_assoc]
      exact List.nodup_append.2 ⟨h.numbers, List.nodup_singleton _, fun t ht u hu he =>
        hnew t ht (he.trans (List.mem_singleton.1 hu))⟩
    bound := fun t ht => by
      rw [htids, ← List.append_assoc] at ht
      rcases List.mem_append.1 ht with ht | ht
      · exact h.bound t ht
      · rw [List.mem_singleton.1 ht]
        exact hle
    unlocks := hids ▸ h.unlocks
    nodup := by
      rw [hids]
      exact h.nodup
    apart := fun v hv => by
      rw [hids]
      exact h.apart v hv }

omit [DecidableEq ι] [DecidableEq κ] in
/-- An UNLOCK is written, with an id that is nowhere else. -/
theorem giveBack (h : p.Ok read G) {l : CpgLockMsg} (hl : l.request = .unlock)
    (hG : ∃ r, G l.lockid r) (hnew : l.lockid ∉ p.grantIds ++ p.unlockIds)
    (hheld : ∀ v, p.Holds v → p.idOf v ≠ l.lockid) :
    ({ p with sent := p.sent ++ [l] } : Process ι κ).Ok read G := by
  have htids : ({ p with sent := p.sent ++ [l] } : Process ι κ).lockTids = p.lockTids := by
    simp [lockTids, hl]
  have hids : ({ p with sent := p.sent ++ [l] } : Process ι κ).unlockIds =
      p.unlockIds ++ [l.lockid] := by
    simp [unlockIds, hl]
  exact { h with
    sent := fun m hm => (List.mem_append.1 hm).elim (h.sent m) fun hm => by
      rw [List.mem_singleton.1 hm]
      exact .inr hl
    numbers := htids ▸ h.numbers
    bound := htids ▸ h.bound
    unlocks := fun i hi => by
      rw [hids] at hi
      rcases List.mem_append.1 hi with hi | hi
      · exact h.unlocks i hi
      · rw [List.mem_singleton.1 hi]
        exact hG
    nodup := by
      rw [hids, ← List.append_assoc]
      exact List.nodup_append.2 ⟨h.nodup, List.nodup_singleton _, fun i hi j hj he =>
        hnew (List.mem_singleton.1 hj ▸ he ▸ hi)⟩
    apart := fun v hv hi => by
      rw [hids, ← List.append_assoc] at hi
      rcases List.mem_append.1 hi with hi | hi
      · exact h.apart v hv hi
      · exact hheld v hv (List.mem_singleton.1 hi) }

theorem call (h : p.Ok read G) {i : ι} {getpid : UInt32} {resource : {b : List UInt8 // 0 ∉ b}}
    {flags : UInt32} {v : κ} {write : Option Errno} {rd : ReadRet} (hfree : p.Free v)
    (h0 : p.handle.seq + 1 ≠ 0)
    (hp : p.call i getpid resource flags v write rd = some p') :
    p'.Ok read G ∧ p'.handle.pid = p.handle.pid := by
  obtain ⟨hv, hothers⟩ := hfree
  have hno : ∀ j l r, p.threads j ≠ .waiting l r v := by
    intro j l r hj
    have := hothers j
    rw [hj] at this
    exact this rfl
  unfold Process.call at hp
  split at hp
  · unfold Process.cpgLock at hp
    split at hp
    · obtain rfl := Option.some.inj hp
      exact ⟨h.leave i _ _, rfl⟩
    · split at hp
      · next hlen =>
        have hset := h.setLock (x := { p.locks v with resource := ⟨resource.1, hlen, resource.2⟩ })
          hno fun hx => absurd hx hv
        obtain ⟨hcount, hnew⟩ := hset.count h0
        cases write with
        | some e =>
          obtain rfl := Option.some.inj hp
          exact ⟨hcount.leave i _ _, rfl⟩
        | none =>
          refine (hcount.ask (l := .lockMsg _ _ _ flags) rfl rfl le_rfl ?_).pass ?_ ?_ ?_ hp
          · exact hnew
          · show _ = (Function.update p.locks v _ v).resource
            rw [Function.update_self]
            rfl
          · show ¬(Function.update p.locks v _ v).lock.state = .held
            rw [Function.update_self]
            exact hv
          · exact fun j l r hj => absurd hj (hno j l r)
      · obtain rfl := Option.some.inj hp
        exact ⟨h.leave i _ _, rfl⟩
  · cases hp

theorem unlock (h : p.Ok read G) {i : ι} {getpid : UInt32} {v : κ} {write : Option Errno}
    (hp : p.unlock i getpid v write = some p') :
    p'.Ok read G ∧ p'.handle.pid = p.handle.pid := by
  unfold Process.unlock at hp
  split at hp
  · obtain rfl := Option.some.inj hp
    unfold Process.cpgUnlock
    dsimp only
    split
    · exact ⟨h.leave i _ _, rfl⟩
    · split
      · exact ⟨h.leave i _ _, rfl⟩
      · next hst =>
        have hv : p.Holds v := not_not.1 hst
        split
        · exact ⟨h.leave i _ _, rfl⟩
        · have hset := h.setLock
            (x := { p.locks v with lock := { (p.locks v).lock with state := .free } })
            (fun j l r hj => (h.waits j l r v hj).2 hv) fun hx => by cases hx
          cases write with
          | some e => exact ⟨hset.leave i _ _, rfl⟩
          | none =>
            refine ⟨(hset.giveBack (l := .unlockMsg _ _ _ _) rfl ⟨_, h.held v hv⟩
              (h.apart v hv) fun w hw he => ?_).leave i _ _, rfl⟩
            -- another variable with its id
            by_cases hwv : w = v
            · rw [hwv] at hw
              have hw : (Function.update p.locks v _ v).lock.state = .held := hw
              rw [Function.update_self] at hw
              cases hw
            · have hw : (Function.update p.locks v _ w).lock.state = .held := hw
              have he : (Function.update p.locks v _ w).lock.localId = _ := he
              rw [Function.update_of_ne hwv] at hw he
              exact hwv (h.inj w v hw hv he)
  · cases hp

end Ok

/-! ## What it writes -/

section

variable [DecidableEq ι] [DecidableEq κ] (p : Process ι κ) {p' : Process ι κ}

theorem sent_pass {i : ι} {l r : CpgLockMsg} {v : κ} {rd : ReadRet}
    (hp : p.pass i l r v rd = some p') : p'.sent = p.sent := by
  obtain ⟨⟨h', t⟩, -, rfl⟩ := Option.map_eq_some_iff.1 hp
  cases t <;> rfl

theorem sent_wake {i : ι} {rd : ReadRet} (hp : p.wake i rd = some p') : p'.sent = p.sent := by
  unfold Process.wake at hp
  split at hp
  · cases hp
  · exact p.sent_pass hp

theorem sent_call {i : ι} {getpid : UInt32} {resource : {b : List UInt8 // 0 ∉ b}} {flags : UInt32}
    {v : κ} {write : Option Errno} {rd : ReadRet}
    (hp : p.call i getpid resource flags v write rd = some p') :
    ∀ m ∈ p'.sent, m ∈ p.sent ∨ m.flags = flags := by
  intro m hm
  unfold Process.call at hp
  split at hp
  · unfold Process.cpgLock at hp
    split at hp
    · obtain rfl := Option.some.inj hp
      exact .inl hm
    · split at hp
      · cases write with
        | some e =>
          obtain rfl := Option.some.inj hp
          exact .inl hm
        | none =>
          rw [sent_pass _ hp] at hm
          refine (List.mem_append.1 hm).imp_right fun hm => ?_
          rw [List.mem_singleton.1 hm]
          rfl
      · obtain rfl := Option.some.inj hp
        exact .inl hm
  · cases hp

theorem sent_unlock {i : ι} {getpid : UInt32} {v : κ} {write : Option Errno}
    (hp : p.unlock i getpid v write = some p') : ∀ m ∈ p'.sent, m ∈ p.sent ∨ m.flags = 0 := by
  intro m hm
  unfold Process.unlock at hp
  split at hp
  · obtain rfl := Option.some.inj hp
    unfold Process.cpgUnlock at hm
    dsimp only at hm
    split at hm
    · exact .inl hm
    · split at hm
      · exact .inl hm
      · split at hm
        · exact .inl hm
        · cases write with
          | some e => exact .inl hm
          | none =>
            refine (List.mem_append.1 hm).imp_right fun hm => ?_
            rw [List.mem_singleton.1 hm]
            rfl
  · cases hp

end

end Process

end Cpglock
