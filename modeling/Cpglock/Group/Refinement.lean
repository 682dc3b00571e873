import Cpglock.Group.FifoMutex
import Cpglock.Group.MutualExclusion
import Cpglock.Lib.FifoLock

/-!
# The daemons refine a lock with a queue

`Sys.Shows`: the lock with a queue that the daemons show for a resource. What was asked for and granted
is what CPG has ordered, what was released are the grants whose UNLOCK was read. In a run without failures
and FL_TRY whose first daemon joins alone every step is a sequence of steps of that lock, the client that
holds the resource is its holder, and with no message in flight it is not free while somebody waits
(`refines_fifo_lock`).
-/

namespace Cpglock

open Classical in
/-- The lock with a queue for `r` that the daemons show. -/
structure Sys.Shows (s : Sys) (r : Resource) (l : FifoLock RequestKey) : Prop where
  asked : l.asked = lockOrder r s.log
  granted : l.granted = (grantOrder r s.log).length
  released : l.released = (grantOrder r s.log).countP fun k => Unlocked s.trace k

namespace Sys.Shows

variable {s s' : Sys} {r : Resource} {l l' : FifoLock RequestKey}

/-- A longer order and trace show a later state. -/
theorem le (h : s.Shows r l) (h' : s'.Shows r l') (hlog : s.log <+: s'.log)
    (htrace : s.trace <+: s'.trace) : l ≤ l' := by
  classical
  obtain ⟨es, hes⟩ := hlog
  obtain ⟨os, hos⟩ := htrace
  obtain ⟨gs, hgs⟩ := grantOrder_grows r s.log es
  refine ⟨?_, ?_, ?_⟩
  · rw [h.asked, h'.asked, ← hes]
    exact lockOrder_grows r s.log es
  · rw [h.granted, h'.granted, ← hes, ← hgs, List.length_append]
    exact Nat.le_add_right _ _
  · rw [h.released, h'.released, ← hes, ← hgs, List.countP_append, ← hos]
    refine Nat.le_add_right_of_le (List.countP_mono_left fun k _ hk => ?_)
    exact decide_eq_true ((of_decide_eq_true hk).append os)

/-- The holder is the request that was granted last, as long as it was not unlocked. -/
theorem holder_iff (h : s.Shows r l) (hpre : grantOrder r s.log <+: lockOrder r s.log)
    (hserved : ∀ q ∈ (grantOrder r s.log).dropLast, Unlocked s.trace q) {k : RequestKey} :
    l.holder = some k ↔ (grantOrder r s.log).getLast? = some k ∧ ¬Unlocked s.trace k := by
  classical
  have hgranted := h.granted
  have hreleased := h.released
  rcases List.eq_nil_or_concat' (grantOrder r s.log) with hnil | ⟨ks, q, hks⟩
  · rw [hnil] at hgranted hreleased
    rw [FifoLock.holder, if_pos (hgranted.trans hreleased.symm), hnil]
    simp
  · rw [hks, List.dropLast_concat] at hserved
    rw [hks, List.length_append, List.length_singleton] at hgranted
    rw [hks, List.countP_append, List.countP_eq_length.2 fun q hq => decide_eq_true (hserved q hq),
      List.countP_singleton] at hreleased
    have hq : (lockOrder r s.log)[ks.length]? = some q := getElem?_of_grows hpre (by simp [hks])
    rw [FifoLock.holder, hks, List.getLast?_concat]
    by_cases hu : Unlocked s.trace q
    · rw [if_pos (decide_eq_true hu)] at hreleased
      rw [if_pos (hgranted.trans hreleased.symm)]
      simp only [reduceCtorEq, Option.some.injEq, false_iff, not_and, not_not]
      rintro rfl
      exact hu
    · rw [if_neg (by simpa using hu), Nat.add_zero] at hreleased
      rw [if_neg (by omega), h.asked, hreleased, hq]
      refine ⟨fun hk => ⟨hk, ?_⟩, And.left⟩
      rwa [← Option.some.inj hk]

end Sys.Shows

/-- What has happened is not undone. -/
theorem Sys.grows_step {s s' : Sys} {a : Act} (h : s.step a = some s') :
    s.log <+: s'.log ∧ s.trace <+: s'.trace := by
  obtain ⟨members, left, join, boot, rfl, -, rfl⟩ | ⟨n, nd, m, out, rfl, -, -, rfl⟩ |
    ⟨n, nd, d, pos, cause, seen, -, -, -, rfl⟩ := Sys.step_cases h
  · exact ⟨List.prefix_append _ _, List.prefix_append _ _⟩
  · exact ⟨List.prefix_append _ _, List.prefix_rfl⟩
  · refine ⟨List.prefix_rfl, ?_⟩
    rw [Sys.run, List.append_assoc]
    exact List.prefix_append _ _

section

variable {P : Sys → Act → Prop} (hP : ∀ s a, P s a → s.Orderly a ∧ s.UnlocksHeld a)
include hP

/-- The daemons show a lock with a queue. -/
theorem Runs.shows {s : Sys} (h : Runs P .init s) (r : Resource) : ∃ l, s.Shows r l := by
  classical
  have hpre := (Runs.inLine hP h).1.grants_follow r
  have hnodup := Runs.lockOrder_nodup hP h r s.log.length
  rw [List.take_length] at hnodup
  refine ⟨⟨lockOrder r s.log, (grantOrder r s.log).length,
    (grantOrder r s.log).countP fun k => Unlocked s.trace k, hnodup, hpre.length_le,
    List.countP_le_length, ?_⟩, rfl, rfl, rfl⟩
  -- all but the last have been unlocked
  cases hlast : (grantOrder r s.log).getLast? with
  | none => simp [List.getLast?_eq_none_iff.1 hlast]
  | some k =>
    obtain ⟨ks, hks⟩ := List.getLast?_eq_some_iff.1 hlast
    have hserved := Runs.served hP h r
    rw [hks, List.dropLast_concat] at hserved
    rw [hks, List.countP_append, List.countP_eq_length.2 fun q hq => decide_eq_true (hserved q hq),
      List.length_append]
    simp

/-- A client's request is the last one that was granted, and not unlocked. -/
theorem Runs.holds_last {s : Sys} (h : Runs P .init s) {n : UInt32} {fd : Nat} {g : CpgLockMsg}
    (hg : s.Holds n fd g) : (grantOrder g.resource s.log).getLast? = some g.key ∧
      ¬Unlocked s.trace g.key := by
  have hFU := fun s a hp => (⟨(hP s a hp).1.1, (hP s a hp).2⟩ : s.FailureFree a ∧ s.UnlocksHeld a)
  obtain ⟨nd, l, hentry, hsince, hgranter, hstill⟩ := Runs.holder hFU h hg
  have hlog := (Runs.nothing_passes hFU h hentry.node hsince hgranter hstill).1
  refine ⟨?_, ?_⟩
  · rw [← grantOrder_take hlog, ← hentry.key]
    exact ((Runs.inLine hP h).2 n nd hentry.node).last _ l hentry.lock hentry.own
  · rintro ⟨fd', g', f, m, hg', hgr, hk, hm, hu, hid⟩
    have hn : g.key.nodeid = n := by rw [← hentry.key]; exact hentry.own
    rw [hn] at hg' hm
    have hhanded := (Runs.handed hFU h).2 n nd hentry.node
    have hids := (Runs.written hFU h n nd hentry.node).ids _ l hentry.lock hentry.own fd' g'
      ((hhanded.replies fd' g').1 hg') hgr (hk.trans hentry.key.symm)
    refine (hhanded.read f m hm hu).2 fd ?_
    rw [hid, hids, hentry.localId]
    exact hg.2.2

/-- With nothing in flight an own entry that is not unlocked is in a client's hands. -/
theorem Runs.owner_holds {s : Sys} (h : Runs P .init s) (hq : s.Quiescent) {r : Resource}
    {n : UInt32} {l : CpgLock} (hown : s.Owns r n l) (hnot : ¬Unlocked s.trace (l.key r)) :
    ∃ fd g, s.Holds (l.key r).nodeid fd g ∧ g.key = l.key r := by
  have hFU := fun s a hp => (⟨(hP s a hp).1.1, (hP s a hp).2⟩ : s.FailureFree a ∧ s.UnlocksHeld a)
  have hst := ((Runs.owner_state hP h hq hown).resolve_right fun hu => hnot hu.1).2
  obtain ⟨nd, hn, hl, rfl⟩ := hown
  have hhanded := (Runs.handed hFU h).2 _ nd hn
  have hnum := Runs.numbered_of hFU h hn
  have hstill := hq.still hn r
  rw [← hq.view hn] at hstill
  obtain ⟨fd, hid⟩ := hhanded.kept r l hl rfl hst hstill
  obtain ⟨-, -, -, g, hg, hgr, hkey, hgid⟩ :=
    hhanded.unique ⟨hnum.bound, hnum.distinct, hnum.given⟩ hid hl rfl
  refine ⟨fd, g, ⟨(hhanded.replies fd g).2 hg, hgr, ?_⟩, hkey⟩
  rw [hgid]
  exact hid

/-- A step of the daemons is a sequence of steps of the lock. -/
theorem Runs.shows_step {s s' : Sys} {a : Act} {r : Resource} {l : FifoLock RequestKey}
    (h' : Runs P .init s') (hs : s.step a = some s') (hl : s.Shows r l) :
    ∃ l', s'.Shows r l' ∧ Transition.Reaches FifoLock.step l l' := by
  obtain ⟨l', hl'⟩ := Runs.shows hP h' r
  obtain ⟨hlog, htrace⟩ := Sys.grows_step hs
  exact ⟨l', hl', FifoLock.reaches_iff.2 (hl.le hl' hlog htrace)⟩

/-- The lock that the daemons show is one that was reached. -/
theorem Runs.shows_reaches {s : Sys} (h : Runs P .init s) (r : Resource) :
    ∃ l, s.Shows r l ∧ Transition.Reaches FifoLock.step .empty l := by
  have h₀ : Sys.Shows .init r .empty := ⟨rfl, rfl, rfl⟩
  exact h.simulates h₀ fun hs hp hstep hl => Runs.shows_step hP (.next hs hp hstep) hstep hl

/-- A client that holds the resource is the holder of the lock. -/
theorem Runs.holder_of_holds {s : Sys} (h : Runs P .init s) {n : UInt32} {fd : Nat} {g : CpgLockMsg}
    {l : FifoLock RequestKey} (hl : s.Shows g.resource l) (hg : s.Holds n fd g) :
    l.holder = some g.key :=
  (hl.holder_iff ((Runs.inLine hP h).1.grants_follow _) (Runs.served hP h _)).2
    (Runs.holds_last hP h hg)

/-- With nothing in flight the holder of the lock is a client that holds the resource. -/
theorem Runs.holds_of_holder {s : Sys} (h : Runs P .init s) (hq : s.Quiescent) {r : Resource}
    {l : FifoLock RequestKey} (hl : s.Shows r l) {k : RequestKey} (hk : l.holder = some k) :
    ∃ fd g, s.Holds k.nodeid fd g ∧ g.key = k := by
  have hpre := (Runs.inLine hP h).1.grants_follow r
  obtain ⟨hlast, hnot⟩ := (hl.holder_iff hpre (Runs.served hP h r)).1 hk
  obtain ⟨n, l₀, hown⟩ := Runs.exists_owner hP h hq (r := r) fun hnil => by
    rw [hnil] at hpre
    rw [List.prefix_nil.1 hpre] at hlast
    cases hlast
  obtain rfl := Option.some.inj (hlast.symm.trans (Runs.owner_last hP h hq hown))
  exact Runs.owner_holds hP h hq hown hnot

/-- With nothing in flight a lock without a holder has granted all requests. -/
theorem Runs.granted_of_free {s : Sys} (h : Runs P .init s) (hq : s.Quiescent) {r : Resource}
    {l : FifoLock RequestKey} (hl : s.Shows r l) (hfree : l.holder = none) :
    l.granted = l.asked.length := by
  have hpre := (Runs.inLine hP h).1.grants_follow r
  by_contra hne
  have hgranted := hl.granted
  have hasked := congrArg List.length hl.asked
  have hle := l.granted_le
  obtain ⟨n, l₀, hown⟩ := Runs.exists_owner hP h hq (r := r) fun hnil => by
    rw [hnil, List.length_nil] at hasked
    omega
  rcases Runs.owner_state hP h hq hown with ⟨hnot, -⟩ | ⟨-, -, hall⟩
  · rw [(hl.holder_iff hpre (Runs.served hP h r)).2 ⟨Runs.owner_last hP h hq hown, hnot⟩] at hfree
    cases hfree
  · rw [hall] at hgranted
    omega

end

/-- The daemons refine a lock with a queue for each resource. -/
theorem refines_fifo_lock {s : Sys} (h : Runs (fun s a => s.Orderly a) .init s) (r : Resource) :
    ∃ l : FifoLock RequestKey, s.Shows r l ∧ Transition.Reaches FifoLock.step .empty l ∧
      (∀ n fd g, s.Holds n fd g → g.resource = r → l.holder = some g.key) ∧
      (s.Quiescent → (∀ k, l.holder = some k → ∃ fd g, s.Holds k.nodeid fd g ∧ g.key = k) ∧
        (l.holder = none → l.granted = l.asked.length)) ∧
      ∀ s' a, s.Orderly a → s.step a = some s' →
        ∃ l', s'.Shows r l' ∧ Transition.Reaches FifoLock.step l l' := by
  have hP : ∀ (s : Sys) a, s.Orderly a ∧ s.UnlocksHeld a → s.Orderly a ∧ s.UnlocksHeld a :=
    fun _ _ h => h
  have hr := Runs.disciplined (fun s a hp => hp.1) h
  obtain ⟨l, hl, hreach⟩ := Runs.shows_reaches hP hr r
  refine ⟨l, hl, hreach, fun n fd g hg hgr => ?_, fun hq => ⟨fun k hk => ?_, fun hfree => ?_⟩,
    fun s' a hp hs => ?_⟩
  · subst hgr
    exact Runs.holder_of_holds hP hr hl hg
  · exact Runs.holds_of_holder hP hr hq hl hk
  · exact Runs.granted_of_free hP hr hq hl hfree
  · have hr' := Runs.disciplined (fun s a hp => hp.1) (Transition.Run.next h hp hs)
    exact Runs.shows_step hP hr' hs hl

theorem refines_fifo_lock_late : ∃ (s : Sys) (l : FifoLock RequestKey), s.Shows .a l ∧
    Transition.Reaches FifoLock.step .empty l ∧ l.holder = some ⟨.a, 2, 200, 1⟩ := by
  have h : (Transition.exec Sys.step (fun (s : Sys) (a : Act) => decide (s.Orderly a)) .init
      lateDaemon).any (fun (s : Sys) => decide (.reply 2 6 (replyA .grant 2 200 1) ∈ s.trace) &&
        decide (1 ∈ s.ids 2 6)) = true := by decide +kernel
  obtain ⟨s, hs, h⟩ := Transition.Run.of_check (P := fun (s : Sys) (a : Act) => s.Orderly a)
    (fun _ _ h => of_decide_eq_true h) h
  simp only [Bool.and_eq_true, decide_eq_true_eq] at h
  obtain ⟨l, hl, hreach, hholder, -⟩ := refines_fifo_lock hs .a
  exact ⟨s, l, hl, hreach, hholder 2 6 _ ⟨h.1, rfl, h.2⟩ rfl⟩

end Cpglock
