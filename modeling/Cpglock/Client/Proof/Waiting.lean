import Cpglock.Client.Proof.Process

/-!
# Who waits for which GRANT

While no read fails but by its time limit and no write fails, a thread leaves `cpg_lock` with its GRANT
only. So a GRANT that nobody has taken has a thread that waits for it, and a lock that the process was
given is in such a GRANT, in a HELD variable or in an UNLOCK on its way (`Process.Waits`).
-/

namespace Cpglock

theorem CpgLockHandle.finish_grant (h : CpgLockHandle) (lock : CpgLock) {r : CpgLockMsg}
    (hr : r.request = .grant) (h0 : r.ownerNodeid ≠ 0) : (h.finish lock r).lock.state = .held ∧
      (h.finish lock r).lock.localId = r.lockid := by
  rw [finish, if_neg h0, if_neg (by simp [hr]), if_neg (by simp [hr])]
  exact ⟨rfl, rfl⟩

namespace Process

variable {ι κ : Type}

/-- A process from which the daemon has read `read`, to which it has written `got`, and which has not
given back the locks `held`. -/
structure Waits (p : Process ι κ) (read got held : CpgLockMsg → Prop) : Prop where
  lock : ∀ i l r v, p.threads i = .waiting l r v → l.request = .lock ∧ (l ∈ p.sent ∨ read l)
  bound : ∀ i l r v, p.threads i = .waiting l r v → l.ownerTid.toNat ≤ p.handle.seq.toNat
  apart : ∀ i j l r v l' r' v', p.threads i = .waiting l r v → p.threads j = .waiting l' r' v' →
    l.ownerTid = l'.ownerTid → i = j
  all : ∀ g ∈ p.handle.waiting, got g
  once : (p.handle.waiting.map (·.ownerTid)).Nodup
  kept : ∀ i l r v, p.threads i = .waiting l r v → ∀ g, got g → l.Answers g → g ∈ p.handle.waiting
  thread : ∀ m, m.request = .lock → m ∈ p.sent ∨ read m →
    (∃ i r v, p.threads i = .waiting m r v) ∨ ∃ g, got g ∧ m.Answers g
  taken : ∀ g ∈ p.handle.waiting, ∃ i l r v, p.threads i = .waiting l r v ∧ l.Answers g
  hands : ∀ g, held g → g ∈ p.handle.waiting ∨ (∃ v, p.Holds v ∧ p.idOf v = g.lockid) ∨
    g.lockid ∈ p.unlockIds
  old : ∀ g, got g → g.request = .grant ∧ g.ownerNodeid ≠ 0 ∧
    ∃ m, read m ∧ m.request = .lock ∧ m.Answers g

theorem init_waits {pid : UInt32} {read got held : CpgLockMsg → Prop}
    (hread : ∀ m, read m → m.request ≠ .lock) (hgot : ∀ g, ¬got g) (hheld : ∀ g, ¬held g) :
    (init pid : Process ι κ).Waits read got held where
  lock i l r v h := by cases h
  bound i l r v h := by cases h
  apart i j l r v l' r' v' h := by cases h
  all g h := by simp [init, CpgLockHandle.init, CpgLockHandle.waiting] at h
  once := by simp [init, CpgLockHandle.init, CpgLockHandle.waiting]
  kept i l r v h := by cases h
  thread m hm h := absurd hm (hread m (h.resolve_left List.not_mem_nil))
  taken g h := by simp [init, CpgLockHandle.init, CpgLockHandle.waiting] at h
  hands g h := absurd h (hheld g)
  old g h := absurd h (hgot g)

namespace Waits

variable {p p' : Process ι κ} {read read' got got' held held' : CpgLockMsg → Prop}

/-! ## What the daemon does -/

/-- The daemon writes GRANTs for LOCKs that it has read, one for each. -/
theorem receive (h : p.Waits read got held) {ms : List CpgLockMsg}
    (hgot : ∀ g, got' g ↔ got g ∨ g ∈ ms) (hheld : ∀ g, held' g → held g ∨ g ∈ ms)
    (hms : ∀ g ∈ ms, g.request = .grant ∧ g.ownerNodeid ≠ 0 ∧
      ∃ m, read m ∧ m.request = .lock ∧ m.Answers g)
    (hnodup : (ms.map (·.ownerTid)).Nodup) (hnew : ∀ g ∈ ms, ∀ g', got g' → g'.ownerTid ≠ g.ownerTid) :
    (p.receive ms).Waits read got' held' := by
  have hmem : ∀ {g}, g ∈ (p.receive ms).handle.waiting ↔ g ∈ p.handle.waiting ∨ g ∈ ms := by
    intro g
    show g ∈ p.handle.unread ++ ms ++ p.handle.pending ↔ g ∈ p.handle.unread ++ p.handle.pending ∨ _
    simp only [List.mem_append]
    tauto
  refine { h with all := ?_, once := ?_, kept := ?_, thread := ?_, taken := ?_, hands := ?_, old := ?_ }
  · exact fun g hg => (hgot g).2 ((hmem.1 hg).imp_left (h.all g))
  · have hperm : ((p.receive ms).handle.waiting).Perm (ms ++ p.handle.waiting) := by
      have hcomm : (p.handle.unread ++ ms).Perm (ms ++ p.handle.unread) := List.perm_append_comm
      refine (hcomm.append_right _).trans ?_
      rw [List.append_assoc]
      exact .refl _
    rw [(hperm.map _).nodup_iff, List.map_append]
    refine List.nodup_append.2 ⟨hnodup, h.once, fun t ht u hu he => ?_⟩
    obtain ⟨g, hg, rfl⟩ := List.mem_map.1 ht
    obtain ⟨g', hg', rfl⟩ := List.mem_map.1 hu
    exact hnew g hg g' (h.all g' hg') he.symm
  · intro i l r v hi g hg hans
    exact hmem.2 (((hgot g).1 hg).imp_left fun hg => h.kept i l r v hi g hg hans)
  · intro m hm hs
    refine (h.thread m hm hs).imp_right ?_
    rintro ⟨g, hg, hans⟩
    exact ⟨g, (hgot g).2 (.inl hg), hans⟩
  · intro g hg
    rcases hmem.1 hg with hg | hg
    · exact h.taken g hg
    · -- the thread has not been answered before
      obtain ⟨-, -, m, hm, hl, hans⟩ := hms g hg
      rcases h.thread m hl (.inr hm) with ⟨i, r, v, hi⟩ | ⟨g', hg', hans'⟩
      · exact ⟨i, m, r, v, hi, hans⟩
      · exact absurd (hans'.2.symm.trans hans.2) (hnew g hg g' hg')
  · intro g hg
    rcases hheld g hg with hg | hg
    · exact (h.hands g hg).imp_left fun hg => hmem.2 (.inl hg)
    · exact .inl (hmem.2 (.inr hg))
  · intro g hg
    exact ((hgot g).1 hg).elim (h.old g) (hms g)

/-- The daemon reads a message; an UNLOCK gives a lock back. -/
theorem readOne (h : p.Waits read got held) {m : CpgLockMsg} {sent : List CpgLockMsg}
    (hs : p.sent = m :: sent) (hread : ∀ g, read' g ↔ read g ∨ g = m)
    (hheld : ∀ g, held' g → held g ∧ (m.request = .unlock → g.lockid ≠ m.lockid)) :
    ({ p with sent } : Process ι κ).Waits read' got held' := by
  have hmem : ∀ {g}, g ∈ sent ∨ read' g ↔ g ∈ p.sent ∨ read g := by
    intro g
    rw [hread, hs, List.mem_cons]
    tauto
  refine { h with lock := ?_, thread := ?_, hands := ?_, old := ?_ }
  · exact fun i l r v hi => ⟨(h.lock i l r v hi).1, hmem.2 (h.lock i l r v hi).2⟩
  · exact fun g hg hs => h.thread g hg (hmem.1 hs)
  · intro g hg
    obtain ⟨hg, hne⟩ := hheld g hg
    refine (h.hands g hg).imp_right fun hg => hg.imp_right fun hg => ?_
    obtain ⟨u, hu, he⟩ := List.mem_map.1 hg
    obtain ⟨hu, hr⟩ := List.mem_filter.1 hu
    rw [hs] at hu
    rcases List.mem_cons.1 hu with rfl | hu
    · exact absurd he.symm (hne (of_decide_eq_true hr))
    · exact List.mem_map.2 ⟨u, List.mem_filter.2 ⟨hu, hr⟩, he⟩
  · intro g hg
    obtain ⟨hr, h0, l, hl, hans⟩ := h.old g hg
    exact ⟨hr, h0, l, (hread l).2 (.inl hl), hans⟩

/-! ## What its threads do -/

variable [DecidableEq ι] [DecidableEq κ]

omit [DecidableEq κ] in
/-- A thread that is not in `cpg_lock` leaves as it came. -/
theorem leave (h : p.Waits read got held) {i : ι} (hi : p.threads i = .out) (ret : Int)
    (errno : Option Errno) : (p.leave i ret errno).Waits read got held := by
  have hthreads : (p.leave i ret errno).threads = p.threads := by
    show Function.update p.threads i .out = p.threads
    rw [← hi, Function.update_eq_self]
  exact {
    lock := by rw [hthreads]; exact h.lock
    bound := by rw [hthreads]; exact h.bound
    apart := by rw [hthreads]; exact h.apart
    all := h.all
    once := h.once
    kept := by rw [hthreads]; exact h.kept
    thread := by rw [hthreads]; exact h.thread
    taken := by rw [hthreads]; exact h.taken
    hands := h.hands
    old := h.old }

omit [DecidableEq κ] in
/-- Thread `i` writes a LOCK with a new number, and waits. -/
theorem enter (h : p.Waits read got held) {i : ι} (hi : p.threads i = .out) {l r : CpgLockMsg} {v : κ}
    (hl : l.request = .lock) (hseq : l.ownerTid.toNat ≤ p.handle.seq.toNat)
    (hthreads : ∀ j l' r' v', p.threads j = .waiting l' r' v' → l'.ownerTid ≠ l.ownerTid)
    (hnew : ∀ g, got g → g.ownerTid ≠ l.ownerTid) :
    (({ p with sent := p.sent ++ [l] } : Process ι κ).setThread i (.waiting l r v)).Waits
      read got held := by
  have hcases : ∀ {j l' r' w}, Function.update p.threads i (.waiting l r v) j = .waiting l' r' w →
      j = i ∧ l' = l ∨ j ≠ i ∧ p.threads j = .waiting l' r' w := by
    intro j l' r' w hj
    by_cases hji : j = i
    · rw [hji, Function.update_self] at hj
      obtain ⟨rfl, -⟩ := InLock.waiting.inj hj
      exact .inl ⟨hji, rfl⟩
    · rw [Function.update_of_ne hji] at hj
      exact .inr ⟨hji, hj⟩
  have hold : ∀ {j l' r' w}, p.threads j = .waiting l' r' w →
      Function.update p.threads i (.waiting l r v) j = .waiting l' r' w := by
    intro j l' r' w hj
    rw [Function.update_of_ne, hj]
    rintro rfl
    rw [hi] at hj
    cases hj
  refine ⟨?_, ?_, ?_, h.all, h.once, ?_, ?_, ?_, ?_, h.old⟩
  · intro j l' r' w hj
    rcases hcases hj with ⟨-, rfl⟩ | ⟨-, hj⟩
    · exact ⟨hl, .inl (List.mem_append_right _ List.mem_cons_self)⟩
    · exact (h.lock j l' r' w hj).imp_right fun hs => hs.imp_left (List.mem_append_left _)
  · intro j l' r' w hj
    rcases hcases hj with ⟨-, rfl⟩ | ⟨-, hj⟩
    · exact hseq
    · exact h.bound j l' r' w hj
  · intro j k l' r' w l'' r'' w' hj hk he
    rcases hcases hj with ⟨rfl, rfl⟩ | ⟨-, hj'⟩
    · rcases hcases hk with ⟨rfl, -⟩ | ⟨-, hk'⟩
      · rfl
      · exact absurd he.symm (hthreads k _ _ _ hk')
    · rcases hcases hk with ⟨rfl, rfl⟩ | ⟨-, hk'⟩
      · exact absurd he (hthreads j _ _ _ hj')
      · exact h.apart j k _ _ _ _ _ _ hj' hk' he
  · intro j l' r' w hj g hg hans
    rcases hcases hj with ⟨-, rfl⟩ | ⟨-, hj⟩
    · exact absurd hans.2.symm (hnew g hg)
    · exact h.kept j l' r' w hj g hg hans
  · intro m hm hs
    have hs : (m ∈ p.sent ∨ read m) ∨ m = l := by
      rcases hs with hs | hs
      · rcases List.mem_append.1 hs with hs | hs
        · exact .inl (.inl hs)
        · exact .inr (List.mem_singleton.1 hs)
      · exact .inl (.inr hs)
    rcases hs with hs | rfl
    · refine (h.thread m hm hs).imp_left ?_
      rintro ⟨j, r', w, hj⟩
      exact ⟨j, r', w, hold hj⟩
    · exact .inl ⟨i, r, v, Function.update_self ..⟩
  · intro g hg
    obtain ⟨j, l', r', w, hj, hans⟩ := h.taken g hg
    exact ⟨j, l', r', w, hold hj, hans⟩
  · intro g hg
    have hids : ({ p with sent := p.sent ++ [l] } : Process ι κ).unlockIds = p.unlockIds := by
      simp [unlockIds, hl]
    exact hids ▸ h.hands g hg

/-- A pass of the loop by a thread that waits. -/
theorem pass {i : ι} {l r : CpgLockMsg} {v : κ} {rd : ReadRet}
    (h : (p.setThread i (.waiting l r v)).Waits read got held) (hv : ¬p.Holds v) (hrd : rd.InTime)
    (hp : p.pass i l r v rd = some p') : p'.Waits read got held := by
  obtain ⟨⟨h', t⟩, hpass, hp'⟩ := Option.map_eq_some_iff.1 hp
  obtain ⟨hseq, hpassed⟩ := CpgLockHandle.pass_spec hpass
  subst hp'
  have hself : Function.update p.threads i (.waiting l r v) i = .waiting l r v :=
    Function.update_self ..
  cases hpassed with
  | failed hf he _ =>
    subst hf
    exact absurd hrd he
  | @sleep r' hw =>
    have hcases : ∀ {j l' s w}, Function.update p.threads i (.waiting l r' v) j = .waiting l' s w →
        ∃ s', Function.update p.threads i (.waiting l r v) j = .waiting l' s' w := by
      intro j l' s w hj
      by_cases hji : j = i
      · rw [hji, Function.update_self] at hj
        obtain ⟨rfl, -, rfl⟩ := InLock.waiting.inj hj
        exact ⟨r, hji ▸ Function.update_self ..⟩
      · rw [Function.update_of_ne hji] at hj
        exact ⟨s, by rw [Function.update_of_ne hji, hj]⟩
    have hback : ∀ {j l' s w}, Function.update p.threads i (.waiting l r v) j = .waiting l' s w →
        ∃ s', Function.update p.threads i (.waiting l r' v) j = .waiting l' s' w := by
      intro j l' s w hj
      by_cases hji : j = i
      · rw [hji, Function.update_self] at hj
        obtain ⟨rfl, -, rfl⟩ := InLock.waiting.inj hj
        exact ⟨r', hji ▸ Function.update_self ..⟩
      · rw [Function.update_of_ne hji] at hj
        exact ⟨s, by rw [Function.update_of_ne hji, hj]⟩
    refine ⟨fun j l' s w hj => ?_, fun j l' s w hj => ?_, fun j k l' s w l'' s' w' hj hk => ?_,
      fun g hg => h.all g (hw.mem_iff.2 hg), ((hw.map _).nodup_iff).1 h.once,
      fun j l' s w hj g hg ha => ?_, fun m hm hs => ?_, fun g hg => ?_, fun g hg => ?_, h.old⟩
    · obtain ⟨s', hj⟩ := hcases hj
      exact h.lock j l' s' w hj
    · obtain ⟨s', hj⟩ := hcases hj
      exact (h.bound j l' s' w hj).trans (congrArg UInt32.toNat hseq).ge
    · obtain ⟨t, hj⟩ := hcases hj
      obtain ⟨t', hk⟩ := hcases hk
      exact h.apart j k _ _ _ _ _ _ hj hk
    · obtain ⟨s', hj⟩ := hcases hj
      exact hw.mem_iff.1 (h.kept j l' s' w hj g hg ha)
    · refine (h.thread m hm hs).imp_left ?_
      rintro ⟨j, s, w, hj⟩
      obtain ⟨s', hj⟩ := hback hj
      exact ⟨j, s', w, hj⟩
    · obtain ⟨j, l', s, w, hj, ha⟩ := h.taken g (hw.mem_iff.2 hg)
      obtain ⟨s', hj⟩ := hback hj
      exact ⟨j, l', s', w, hj, ha⟩
    · exact (h.hands g hg).imp_left hw.mem_iff.1
  | @reply m hans hw =>
    have hm : m ∈ p.handle.waiting := hw.mem_iff.2 List.mem_cons_self
    have hmem : ∀ {g}, g ∈ p.handle.waiting ↔ g = m ∨ g ∈ h'.waiting := by
      intro g
      rw [hw.mem_iff, List.mem_cons]
    obtain ⟨hgrant, h0, -⟩ := h.old m (h.all m hm)
    obtain ⟨hheld, hid⟩ := h'.finish_grant (p.locks v).lock hgrant h0
    have hnodup : m.ownerTid ∉ h'.waiting.map (·.ownerTid) ∧ (h'.waiting.map (·.ownerTid)).Nodup := by
      have := ((hw.map (·.ownerTid)).nodup_iff).1 h.once
      exact List.nodup_cons.1 this
    -- the others wait as before
    have hcases : ∀ {j l' s w}, Function.update p.threads i .out j = .waiting l' s w →
        j ≠ i ∧ Function.update p.threads i (.waiting l r v) j = .waiting l' s w := by
      intro j l' s w hj
      by_cases hji : j = i
      · rw [hji, Function.update_self] at hj
        cases hj
      · rw [Function.update_of_ne hji] at hj ⊢
        exact ⟨hji, hj⟩
    have hback : ∀ {j l' s w}, j ≠ i →
        Function.update p.threads i (.waiting l r v) j = .waiting l' s w →
        Function.update p.threads i .out j = .waiting l' s w := by
      intro j l' s w hji hj
      rw [Function.update_of_ne hji] at hj ⊢
      exact hj
    refine ⟨fun j l' s w hj => h.lock j l' s w (hcases hj).2,
      fun j l' s w hj => (h.bound j l' s w (hcases hj).2).trans (congrArg UInt32.toNat hseq).ge,
      fun j k l' s w l'' s' w' hj hk => h.apart j k _ _ _ _ _ _ (hcases hj).2 (hcases hk).2,
      fun g hg => h.all g (hmem.2 (.inr hg)), hnodup.2, fun j l' s w hj g hg ha => ?_,
      fun q hq hs => ?_, fun g hg => ?_, fun g hg => ?_, h.old⟩
    · obtain ⟨hji, hj'⟩ := hcases hj
      refine (hmem.1 (h.kept j l' s w hj' g hg ha)).resolve_left ?_
      rintro rfl
      exact hji (h.apart j i _ _ _ _ _ _ hj' hself (ha.2.trans hans.2.symm))
    · rcases h.thread q hq hs with ⟨j, s, w, hj⟩ | hg
      · by_cases hji : j = i
        · rw [hji] at hj
          obtain ⟨rfl, -⟩ := InLock.waiting.inj (hj.symm.trans hself)
          exact .inr ⟨m, h.all m hm, hans⟩
        · exact .inl ⟨j, s, w, hback hji hj⟩
      · exact .inr hg
    · obtain ⟨j, l', s, w, hj, ha⟩ := h.taken g (hmem.2 (.inr hg))
      refine ⟨j, l', s, w, hback ?_ hj, ha⟩
      rintro rfl
      obtain ⟨rfl, -⟩ := InLock.waiting.inj (hj.symm.trans hself)
      refine hnodup.1 ?_
      rw [← hans.2, ha.2]
      exact List.mem_map_of_mem hg
    · have hlocks : ∀ {w}, w ≠ v → Function.update p.locks v
          { p.locks v with lock := (h'.finish (p.locks v).lock m).lock } w = p.locks w := fun hw =>
        Function.update_of_ne hw ..
      have hv' : Function.update p.locks v
          { p.locks v with lock := (h'.finish (p.locks v).lock m).lock } v =
            { p.locks v with lock := (h'.finish (p.locks v).lock m).lock } := Function.update_self ..
      rcases h.hands g hg with hg | ⟨w, hholds, hwid⟩ | hg
      · rcases hmem.1 hg with rfl | hg
        · refine .inr (.inl ⟨v, ?_, ?_⟩)
          · exact (congrArg (fun x : LockVar => x.lock.state) hv').trans hheld
          · exact (congrArg (fun x : LockVar => x.lock.localId) hv').trans hid
        · exact .inl hg
      · have hwv : w ≠ v := by
          rintro rfl
          exact hv hholds
        refine .inr (.inl ⟨w, ?_, ?_⟩)
        · exact (congrArg (fun x : LockVar => x.lock.state) (hlocks hwv)).trans hholds
        · exact (congrArg (fun x : LockVar => x.lock.localId) (hlocks hwv)).trans hwid
      · exact .inr (.inr hg)

theorem wake (h : p.Waits read got held) {tids : List UInt32} {G : UInt64 → Resource → Prop}
    (hok : p.Ok tids G) {i : ι} {rd : ReadRet} (hrd : rd.InTime) (hp : p.wake i rd = some p') :
    p'.Waits read got held := by
  unfold Process.wake at hp
  split at hp
  · cases hp
  · next l r v hi =>
    refine pass ?_ (hok.waits i l r v hi).2 hrd hp
    rwa [setThread, ← hi, Function.update_eq_self]

omit [DecidableEq ι] in
/-- The name in a variable is written. -/
theorem setName (h : p.Waits read got held) (v : κ) (resource : Resource) :
    (p.setLock v { p.locks v with resource }).Waits read got held := by
  have hlock : ∀ w, (Function.update p.locks v { p.locks v with resource } w).lock = (p.locks w).lock := by
    intro w
    by_cases hwv : w = v
    · rw [hwv, Function.update_self]
    · rw [Function.update_of_ne hwv]
  refine { h with hands := fun g hg => (h.hands g hg).imp_right fun hg => hg.imp_left ?_ }
  rintro ⟨w, hw, hid⟩
  exact ⟨w, (congrArg CpgLock.state (hlock w)).trans hw, (congrArg CpgLock.localId (hlock w)).trans hid⟩

theorem call (h : p.Waits read got held) {tids : List UInt32} {G : UInt64 → Resource → Prop}
    (hok : p.Ok tids G) (hread : ∀ m, read m → m.request = .lock → m.ownerTid ∈ tids) {i : ι}
    {getpid : UInt32} {resource : {b : List UInt8 // 0 ∉ b}} {flags : UInt32} {v : κ} {rd : ReadRet}
    (hfree : p.Free v) (h0 : p.handle.seq + 1 ≠ 0) (hrd : rd.InTime)
    (hp : p.call i getpid resource flags v none rd = some p') : p'.Waits read got held := by
  unfold Process.call at hp
  split at hp
  · next hi =>
    unfold Process.cpgLock at hp
    split at hp
    · obtain rfl := Option.some.inj hp
      exact h.leave hi _ _
    · split at hp
      · next hlen =>
        have hname := h.setName v (Resource.ofString resource hlen)
        have hsucc := Threads.Placed.toNat_succ h0
        have hlt : ∀ {t : UInt32}, t.toNat ≤ p.handle.seq.toNat → t ≠ p.handle.seq + 1 := by
          intro t ht he
          rw [he, hsucc] at ht
          omega
        have hcount : ({ p.setLock v { p.locks v with resource := Resource.ofString resource hlen } with
            handle := { p.handle with seq := p.handle.seq + 1 } } : Process ι κ).Waits read got held :=
          { hname with
            bound := fun j l r w hj => (h.bound j l r w hj).trans (by
              show _ ≤ (p.handle.seq + 1).toNat
              rw [hsucc]
              exact Nat.le_succ _) }
        refine pass (l := .lockMsg (Resource.ofString resource hlen) p.handle.pid
          (p.handle.seq + 1) flags) (hcount.enter hi rfl le_rfl ?_ ?_) ?_ hrd hp
        · exact fun j l r w hj => hlt (h.bound j l r w hj)
        · intro g hg
          obtain ⟨-, -, m, hm, hl, hans⟩ := h.old g hg
          rw [← hans.2]
          exact hlt (hok.bound _ (List.mem_append_left _ (hread m hm hl)))
        · show ¬(Function.update p.locks v _ v).lock.state = .held
          rw [Function.update_self]
          exact hfree.1
      · obtain rfl := Option.some.inj hp
        exact h.leave hi _ _
  · cases hp

omit [DecidableEq ι] in
/-- An UNLOCK with the id of a HELD variable is written. -/
theorem giveBack (h : p.Waits read got held) {v : κ} {x : LockVar} (hx : x.lock.state = .free)
    {l : CpgLockMsg} (hl : l.request = .unlock) (hid : l.lockid = p.idOf v) :
    ({ p.setLock v x with sent := p.sent ++ [l] } : Process ι κ).Waits read got held := by
  have hids : ({ p.setLock v x with sent := p.sent ++ [l] } : Process ι κ).unlockIds =
      p.unlockIds ++ [l.lockid] := by
    simp [unlockIds, hl]
  have hsent : ∀ m, m.request = .lock → (m ∈ p.sent ++ [l] ∨ read m) → m ∈ p.sent ∨ read m := by
    intro m hm hs
    refine hs.imp_left fun hs => (List.mem_append.1 hs).resolve_right fun hs => ?_
    rw [List.mem_singleton.1 hs, hl] at hm
    cases hm
  refine { h with lock := ?_, thread := ?_, hands := ?_ }
  · exact fun i l' r w hi => (h.lock i l' r w hi).imp_right fun hs => hs.imp_left
      (List.mem_append_left _)
  · exact fun m hm hs => h.thread m hm (hsent m hm hs)
  · intro g hg
    rw [hids]
    rcases h.hands g hg with hg | ⟨w, hw, hwid⟩ | hg
    · exact .inl hg
    · by_cases hwv : w = v
      · rw [hwv] at hwid
        refine .inr (.inr (List.mem_append_right _ (List.mem_singleton.2 ?_)))
        exact hwid.symm.trans hid.symm
      · refine .inr (.inl ⟨w, ?_, ?_⟩)
        · show (Function.update p.locks v x w).lock.state = .held
          rw [Function.update_of_ne hwv]
          exact hw
        · show (Function.update p.locks v x w).lock.localId = g.lockid
          rw [Function.update_of_ne hwv]
          exact hwid
    · exact .inr (.inr (List.mem_append_left _ hg))

theorem unlock (h : p.Waits read got held) {i : ι} {getpid : UInt32} {v : κ}
    (hp : p.unlock i getpid v none = some p') : p'.Waits read got held := by
  unfold Process.unlock at hp
  split at hp
  · next hi =>
    obtain rfl := Option.some.inj hp
    unfold Process.cpgUnlock
    dsimp only
    split
    · exact h.leave hi _ _
    · split
      · exact h.leave hi _ _
      · split
        · exact h.leave hi _ _
        · exact (h.giveBack (x := { p.locks v with lock := { (p.locks v).lock with state := .free } })
            rfl (l := .unlockMsg _ _ _ _) rfl rfl).leave hi _ _
  · cases hp

end Waits

end Process

end Cpglock
