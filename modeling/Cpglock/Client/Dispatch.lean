import Mathlib
import Cpglock.Client.Threads

/-!
# Every reply reaches its thread

Any thread may read any other's reply. `reply_dispatch`: in every reachable state each reply that has
arrived is unread, pending or taken by one thread, a thread takes no reply but its own and takes it
in its next pass once it is pending, and without other errors `cpg_lock` returns 0 exactly on a
GRANT. The invariant is `Threads.Placed`; the ids of the requests keep the replies apart.
-/

namespace Cpglock

theorem perm_cons_eraseP {α : Type} {p : α → Bool} {l : List α} {a : α} (h : l.find? p = some a) :
    l.Perm (a :: l.eraseP p) := by
  induction l with
  | nil => cases h
  | cons b l ih =>
    by_cases hb : p b = true
    · rw [List.find?_cons_of_pos hb] at h
      obtain rfl := Option.some.inj h
      rw [List.eraseP_cons_of_pos hb]
    · rw [List.find?_cons_of_neg hb] at h
      rw [List.eraseP_cons_of_neg hb]
      exact ((ih h).cons b).trans (.swap a b _)

namespace CpgLockHandle

/-- The replies that nobody has taken. -/
def waiting (h : CpgLockHandle) : List CpgLockMsg := h.unread ++ h.pending

/-- What a pass does to the replies nobody has taken: none gets lost, and the one that is taken
answers the request. -/
inductive Passed (h : CpgLockHandle) (l : CpgLockMsg) (read : ReadRet) (h' : CpgLockHandle) :
    Turn → Prop
  | reply {m : CpgLockMsg} : l.Answers m → h.waiting.Perm (m :: h'.waiting) →
      Passed h l read h' (.reply m)
  | sleep {r : CpgLockMsg} : h.waiting.Perm h'.waiting → Passed h l read h' (.sleep r)
  | failed {e : Errno} : read = .failed e → e ≠ .etimedout → h.waiting.Perm h'.waiting →
      Passed h l read h' (.failed e)

theorem pass_spec {h h' : CpgLockHandle} {l r : CpgLockMsg} {read : ReadRet} {t : Turn}
    (hp : h.pass l r read = some (h', t)) : h'.seq = h.seq ∧ Passed h l read h' t := by
  unfold pass checkPending at hp
  cases hf : h.pending.find? fun m => l.Answers m with
  | some m =>
    simp only [hf, Option.map_some, Option.some.injEq, Prod.mk.injEq] at hp
    obtain ⟨rfl, rfl⟩ := hp
    refine ⟨rfl, .reply (by simpa using List.find?_some hf) ?_⟩
    have := (perm_cons_eraseP hf).append_left h.unread
    exact this.trans List.perm_middle
  | none =>
    simp only [hf, Option.map_none] at hp
    cases read with
    | failed e =>
      obtain ⟨rfl, rfl⟩ := Prod.mk.inj (Option.some.inj hp)
      by_cases he : e = .etimedout
      · rw [if_pos he]
        exact ⟨rfl, .sleep (.refl _)⟩
      · rw [if_neg he]
        exact ⟨rfl, .failed rfl he (.refl _)⟩
    | message =>
      simp only at hp
      cases hu : h.unread with
      | nil => rw [hu] at hp; cases hp
      | cons m unread =>
        rw [hu] at hp
        have hw : h.waiting = m :: (unread ++ h.pending) := by rw [waiting, hu, List.cons_append]
        -- another thread's reply goes to the end of the pending ones
        have hlast : h.waiting.Perm (unread ++ (h.pending ++ [m])) := by
          rw [hw, ← List.append_assoc]
          exact (List.perm_append_singleton m _).symm
        simp only at hp
        split at hp
        · obtain ⟨rfl, rfl⟩ := Prod.mk.inj (Option.some.inj hp)
          exact ⟨rfl, .sleep hlast⟩
        · next hr =>
          split at hp
          · obtain ⟨rfl, rfl⟩ := Prod.mk.inj (Option.some.inj hp)
            exact ⟨rfl, .sleep hlast⟩
          · next ht =>
            obtain ⟨rfl, rfl⟩ := Prod.mk.inj (Option.some.inj hp)
            refine ⟨rfl, .reply ⟨(not_not.1 hr).symm, (not_not.1 ht).symm⟩ ?_⟩
            rw [hw]
            exact .refl _

theorem finish_ret (h : CpgLockHandle) (lock : CpgLock) (r : CpgLockMsg) :
    (h.finish lock r).ret = 0 ↔ r.request = .grant ∧ r.ownerNodeid ≠ 0 := by
  unfold finish
  split
  · next h0 => simp [h0]
  · split
    · next hn => simp [hn]
    · split
      · next hg => simp [hg]
      · next h0 _ hg => simp [not_not.1 hg, h0]

end CpgLockHandle

namespace Threads

variable {ι : Type} [DecidableEq ι]

/-- Requests have distinct numbers up to the counter, replies are where they should be, and calls
return what their replies say. -/
structure Placed (s : Threads ι) : Prop where
  bound : ∀ m ∈ s.asked ++ s.arrived, m.ownerTid.toNat ≤ s.handle.seq.toNat
  once : ((s.asked ++ s.arrived).map (·.ownerTid)).Nodup
  place : s.arrived.Perm (s.handle.waiting ++ s.taken)
  own : ∀ e ∈ s.returned, ∀ g, e.taken = some g → ∃ l, e.request = some l ∧ l.Answers g
  result : ∀ e ∈ s.returned, e.result.ret = 0 ↔
    ∃ g, e.taken = some g ∧ g.request = .grant ∧ g.ownerNodeid ≠ 0

/-- Every request that has come back took a reply, and replies name a node. -/
structure Settled (s : Threads ι) : Prop where
  taken : ∀ e ∈ s.returned, ∀ l, e.request = some l → e.taken ≠ none
  node : ∀ g ∈ s.arrived, g.ownerNodeid ≠ 0

omit [DecidableEq ι] in
theorem placed_init (pid : UInt32) : (init pid : Threads ι).Placed :=
  ⟨by simp [init], by simp [init], .refl _, by simp [init], by simp [init]⟩

omit [DecidableEq ι] in
theorem settled_init (pid : UInt32) : (init pid : Threads ι).Settled :=
  ⟨by simp [init], by simp [init]⟩

namespace Placed

variable {s s' : Threads ι}

/-- A call returns without a reply. -/
theorem leave_none (h : s.Placed) (i : ι) (request : Option CpgLockMsg) {result : LockRet}
    (hr : result.ret = -1) : (s.leave i request none result).Placed := by
  refine ⟨h.bound, h.once, ?_, fun e he g hg => ?_, fun e he => ?_⟩
  · have : (s.leave i request none result).taken = s.taken := by simp [taken, leave]
    rw [this]
    exact h.place
  · rcases List.mem_append.1 he with he | he
    · exact h.own e he g hg
    · rw [List.mem_singleton.1 he] at hg
      cases hg
  · rcases List.mem_append.1 he with he | he
    · exact h.result e he
    · rw [List.mem_singleton.1 he]
      simp [hr]

theorem pass (h : s.Placed) {i : ι} {l r : CpgLockMsg} {lock : CpgLock} {read : ReadRet}
    (hp : s.pass i l r lock read = some s') : s'.Placed := by
  obtain ⟨⟨hd, t⟩, hpass, rfl⟩ := Option.map_eq_some_iff.1 hp
  obtain ⟨hseq, ht⟩ := CpgLockHandle.pass_spec hpass
  have hb : ∀ m ∈ s.asked ++ s.arrived, m.ownerTid.toNat ≤ hd.seq.toNat := by
    rw [hseq]
    exact h.bound
  cases ht with
  | sleep hw => exact ⟨hb, h.once, h.place.trans (hw.append_right _), h.own, h.result⟩
  | failed _ _ hw =>
    have hs : Placed { s with handle := hd } :=
      ⟨hb, h.once, h.place.trans (hw.append_right _), h.own, h.result⟩
    exact hs.leave_none i (some l) rfl
  | @reply m hm hw =>
    refine ⟨hb, h.once, ?_, fun e he g hg => ?_, fun e he => ?_⟩
    · -- the reply goes from the waiting ones to the taken ones
      have htk : ({ s with handle := hd }.leave i (some l) (some m) (hd.finish lock m)).taken =
          s.taken ++ [m] := by simp [taken, leave]
      show s.arrived.Perm (hd.waiting ++ _)
      rw [htk, ← List.append_assoc]
      have hone := h.place.trans (hw.append_right s.taken)
      exact hone.trans (List.perm_append_singleton m _).symm
    · rcases List.mem_append.1 he with he | he
      · exact h.own e he g hg
      · rw [List.mem_singleton.1 he] at hg ⊢
        obtain rfl := Option.some.inj hg
        exact ⟨l, rfl, hm⟩
    · rcases List.mem_append.1 he with he | he
      · exact h.result e he
      · rw [List.mem_singleton.1 he]
        simp [CpgLockHandle.finish_ret]

theorem toNat_succ {c : UInt32} (h : c + 1 ≠ 0) : (c + 1).toNat = c.toNat + 1 := by
  have hlt := c.toNat_lt
  have hadd : (c + 1).toNat = (c.toNat + 1) % 2 ^ 32 := UInt32.toNat_add c 1
  have hne : (c + 1).toNat ≠ 0 := fun h0 => h (UInt32.toNat.inj h0)
  omega

omit [DecidableEq ι] in
/-- A new request has a new number. -/
theorem ask (h : s.Placed) {l : CpgLockMsg} (hl : l.ownerTid = s.handle.seq + 1)
    (h0 : s.handle.seq + 1 ≠ 0) :
    Placed { s with
      handle := { s.handle with seq := s.handle.seq + 1 }, asked := s.asked ++ [l] } := by
  have hsucc := toNat_succ h0
  have hperm : ((s.asked ++ [l]) ++ s.arrived).Perm (l :: (s.asked ++ s.arrived)) := by
    rw [List.append_assoc]
    exact List.perm_middle
  refine ⟨fun m hm => ?_, ?_, h.place, h.own, h.result⟩
  · rcases List.mem_cons.1 (hperm.mem_iff.1 hm) with rfl | hm
    · rw [hl]
    · have := h.bound m hm
      dsimp only
      omega
  · refine ((hperm.map _).nodup_iff).2 ?_
    rw [List.map_cons, List.nodup_cons]
    refine ⟨fun hm => ?_, h.once⟩
    obtain ⟨m, hm, he⟩ := List.mem_map.1 hm
    have := h.bound m hm
    rw [he, hl] at this
    omega

omit [DecidableEq ι] in
theorem count (h : s.Placed) (h0 : s.handle.seq + 1 ≠ 0) :
    Placed { s with handle := { s.handle with seq := s.handle.seq + 1 } } := by
  have hsucc := toNat_succ h0
  refine ⟨fun m hm => ?_, h.once, h.place, h.own, h.result⟩
  have := h.bound m hm
  dsimp only
  omega

omit [DecidableEq ι] in
theorem answer (h : s.Placed) {l r : CpgLockMsg} (hl : l ∈ s.asked) (hr : l.Answers r) :
    Placed { s with
      handle := { s.handle with unread := s.handle.unread ++ [r] }
      asked := s.asked.erase l
      arrived := s.arrived ++ [r] } := by
  -- the reply has the number of the request it takes off
  have hperm : ((s.asked.erase l ++ (s.arrived ++ [r])).map (·.ownerTid)).Perm
      ((s.asked ++ s.arrived).map (·.ownerTid)) := by
    have h1 : (s.asked.erase l ++ (s.arrived ++ [r])).Perm (r :: (s.asked.erase l ++ s.arrived)) := by
      rw [← List.append_assoc]
      exact List.perm_append_singleton r _
    have h2 : (s.asked ++ s.arrived).Perm (l :: (s.asked.erase l ++ s.arrived)) :=
      (List.perm_cons_erase hl).append_right _
    refine (h1.map _).trans ((h2.map _).trans ?_).symm
    rw [List.map_cons, List.map_cons, hr.2]
  refine ⟨fun m hm => ?_, hperm.nodup_iff.2 h.once, ?_, h.own, h.result⟩
  · obtain ⟨m', hm', he⟩ := List.mem_map.1 (hperm.mem_iff.1 (List.mem_map_of_mem hm))
    rw [← he]
    exact h.bound m' hm'
  · show (s.arrived ++ [r]).Perm ((s.handle.unread ++ [r] ++ s.handle.pending) ++ s.taken)
    refine (List.perm_append_singleton r _).trans ((h.place.cons r).trans ?_)
    have hw : (s.handle.unread ++ [r] ++ s.handle.pending).Perm (r :: s.handle.waiting) := by
      rw [List.append_assoc]
      exact List.perm_middle
    exact hw.symm.append_right s.taken

theorem call (h : s.Placed) {i : ι} {getpid : UInt32} {resource : {b : List UInt8 // 0 ∉ b}}
    {flags : UInt32} {lock : CpgLock} {write : Option Errno} {read : ReadRet}
    (h0 : s.handle.pid = getpid → resource.1.length < 96 → s.handle.seq + 1 ≠ 0)
    (hc : s.call i getpid resource flags lock write read = some s') : s'.Placed := by
  unfold Threads.call at hc
  split at hc
  · obtain rfl := Option.some.inj hc
    exact h.leave_none i none rfl
  · next hpid =>
    split at hc
    · next hlen =>
      have h0 := h0 (not_not.1 hpid) hlen
      dsimp only at hc
      split at hc
      · obtain rfl := Option.some.inj hc
        exact (h.count h0).leave_none i _ rfl
      · exact (h.ask rfl h0).pass hc
    · obtain rfl := Option.some.inj hc
      exact h.leave_none i none rfl

theorem step (h : s.Placed) {a : ThreadAct ι} (h0 : s.CountsOn a) (hs : s.step a = some s') :
    s'.Placed := by
  cases a with
  | call i getpid resource flags lock write read =>
    simp only [Threads.step] at hs
    split at hs
    · exact h.call h0 hs
    · cases hs
  | wake i read =>
    simp only [Threads.step] at hs
    split at hs
    · cases hs
    · exact h.pass hs
  | answer l r =>
    simp only [Threads.step] at hs
    split at hs
    · next ha =>
      obtain rfl := Option.some.inj hs
      exact h.answer ha.1 ha.2
    · cases hs

end Placed

namespace Settled

variable {s s' : Threads ι}

/-- A call returns with a reply, or without a request. -/
theorem leave (h : s.Settled) (i : ι) {request taken : Option CpgLockMsg} (result : LockRet)
    (ht : request ≠ none → taken ≠ none) : (s.leave i request taken result).Settled := by
  refine ⟨fun e he l hl => ?_, h.node⟩
  rcases List.mem_append.1 he with he | he
  · exact h.taken e he l hl
  · rw [List.mem_singleton.1 he] at hl ⊢
    exact ht (by simp [show request = some l from hl])

theorem pass (h : s.Settled) {i : ι} {l r : CpgLockMsg} {lock : CpgLock} {read : ReadRet}
    (hr : read.InTime) (hp : s.pass i l r lock read = some s') :
    s'.Settled := by
  obtain ⟨⟨hd, t⟩, hpass, rfl⟩ := Option.map_eq_some_iff.1 hp
  obtain ⟨-, ht⟩ := CpgLockHandle.pass_spec hpass
  have hs : Settled { s with handle := hd } := ⟨h.taken, h.node⟩
  cases ht with
  | sleep _ => exact ⟨h.taken, h.node⟩
  | failed he hne _ =>
    rw [he] at hr
    exact absurd hr hne
  | reply _ _ => exact hs.leave i _ (by simp)

theorem step (h : s.Settled) {a : ThreadAct ι} (ha : Clean a) (hs : s.step a = some s') :
    s'.Settled := by
  cases a with
  | call i getpid resource flags lock write read =>
    simp only [Threads.step] at hs
    split at hs
    · unfold Threads.call at hs
      split at hs
      · obtain rfl := Option.some.inj hs
        exact h.leave i _ (by simp)
      · split at hs
        · simp only [ha.1] at hs
          refine pass ?_ ha.2 hs
          exact ⟨h.taken, h.node⟩
        · obtain rfl := Option.some.inj hs
          exact h.leave i _ (by simp)
    · cases hs
  | wake i read =>
    simp only [Threads.step] at hs
    split at hs
    · cases hs
    · exact h.pass ha hs
  | answer l r =>
    simp only [Threads.step] at hs
    split at hs
    · obtain rfl := Option.some.inj hs
      refine ⟨h.taken, fun g hg => ?_⟩
      rcases List.mem_append.1 hg with hg | hg
      · exact h.node g hg
      · rw [List.mem_singleton.1 hg]
        exact ha
    · cases hs

end Settled

variable {P : Threads ι → ThreadAct ι → Prop} {pid : UInt32} {s : Threads ι}

theorem placed (hP : ∀ s a, P s a → s.CountsOn a) (h : Transition.Run step P (init pid) s) :
    s.Placed :=
  h.invariant (placed_init pid) fun hi hp hs => hi.step (hP _ _ hp) hs

theorem settled (hP : ∀ s a, P s a → Clean a) (h : Transition.Run step P (init pid) s) :
    s.Settled :=
  h.invariant (settled_init pid) fun hi hp hs => hi.step (hP _ _ hp) hs

namespace Placed

omit [DecidableEq ι] in
theorem nodup (h : s.Placed) : (s.arrived.map (·.ownerTid)).Nodup :=
  h.once.sublist ((List.sublist_append_right _ _).map _)

omit [DecidableEq ι] in
theorem mem_arrived (h : s.Placed) {g : CpgLockMsg} :
    g ∈ s.arrived ↔ g ∈ s.handle.unread ∨ g ∈ s.handle.pending ∨ g ∈ s.taken := by
  rw [h.place.mem_iff, CpgLockHandle.waiting, List.mem_append, List.mem_append, or_assoc]

omit [DecidableEq ι] in
/-- Replies with one number are one reply. -/
theorem same (h : s.Placed) {g g' : CpgLockMsg} (hg : g ∈ s.arrived) (hg' : g' ∈ s.arrived)
    (ht : g.ownerTid = g'.ownerTid) : g = g' :=
  List.inj_on_of_nodup_map h.nodup hg hg' ht

/-- A thread whose reply is pending takes it in its next pass. -/
theorem wake (h : s.Placed) {i : ι} {l r g : CpgLockMsg} {lock : CpgLock} (read : ReadRet)
    (hi : s.threads i = .waiting l r lock) (hg : g ∈ s.handle.pending) (ha : l.Answers g) :
    ∃ s', s.step (.wake i read) = some s' ∧ s'.threads i = .out ∧
      ∃ result, s'.returned = s.returned ++ [⟨i, some l, some g, result⟩] := by
  -- the first pending reply that answers the request is its reply
  obtain ⟨m, hf⟩ : ∃ m, s.handle.pending.find? (fun m => l.Answers m) = some m := by
    rw [← Option.isSome_iff_exists, List.find?_isSome]
    exact ⟨g, hg, by simpa using ha⟩
  have hm : l.Answers m := by simpa using List.find?_some hf
  have hmp := h.mem_arrived.2 (.inr (.inl (List.mem_of_find?_eq_some hf)))
  have hgp := h.mem_arrived.2 (.inr (.inl hg))
  obtain rfl : m = g := h.same hmp hgp (hm.2.symm.trans ha.2)
  have hstep : s.step (.wake i read) = s.pass i l r lock read := by simp only [Threads.step, hi]
  have hpass : s.handle.pass l r read = some ({ s.handle with
      pending := s.handle.pending.eraseP fun m => l.Answers m }, .reply m) := by
    simp only [CpgLockHandle.pass, CpgLockHandle.checkPending, hf, Option.map_some]
  rw [hstep, Threads.pass, hpass]
  exact ⟨_, rfl, by simp [leave, setThread], _, rfl⟩

end Placed

/-- Replies are neither lost nor taken twice, nor by another thread; a thread takes a pending reply in
its next pass; and where only the time limit makes reads and writes fail, `cpg_lock` returns 0
exactly when its reply is a GRANT. -/
theorem reply_dispatch (hP : ∀ s a, P s a → s.CountsOn a)
    (h : Transition.Run step P (init pid) s) :
    (s.arrived.Perm (s.handle.unread ++ s.handle.pending ++ s.taken) ∧ s.arrived.Nodup) ∧
    (∀ e ∈ s.returned, ∀ g, e.taken = some g → ∃ l, e.request = some l ∧ l.Answers g) ∧
    (∀ i l r lock g read, s.threads i = .waiting l r lock → g ∈ s.handle.pending → l.Answers g →
      ∃ s', s.step (.wake i read) = some s' ∧ s'.threads i = .out ∧
        ∃ result, s'.returned = s.returned ++ [⟨i, some l, some g, result⟩]) ∧
    ((∀ s a, P s a → Clean a) → ∀ e ∈ s.returned, e.result.ret = 0 ↔
      ∃ l g, e.request = some l ∧ g ∈ s.arrived ∧ l.Answers g ∧ g.request = .grant) := by
  have hp := placed hP h
  refine ⟨⟨hp.place, List.Nodup.of_map _ hp.nodup⟩, hp.own,
    fun i l r lock g read hi hg ha => hp.wake read hi hg ha, fun hclean e he => ?_⟩
  have hs := settled hclean h
  have harr : ∀ g, e.taken = some g → g ∈ s.arrived := fun g hg =>
    hp.mem_arrived.2 (.inr (.inr (List.mem_filterMap.2 ⟨e, he, hg⟩)))
  rw [hp.result e he]
  constructor
  · rintro ⟨g, hg, hr, -⟩
    obtain ⟨l, hl, ha⟩ := hp.own e he g hg
    exact ⟨l, g, hl, harr g hg, ha, hr⟩
  · rintro ⟨l, g, hl, hg, ha, hr⟩
    obtain ⟨g', hg'⟩ := Option.ne_none_iff_exists'.1 (hs.taken e he l hl)
    obtain ⟨l', hl', ha'⟩ := hp.own e he g' hg'
    obtain rfl : l = l' := Option.some.inj (hl.symm.trans hl')
    obtain rfl : g' = g := hp.same (harr g' hg') hg (ha'.2.symm.trans ha.2)
    exact ⟨g', hg', hr, hs.node g' hg⟩

/-- Two threads lock `a` and `b`; the second reads the first one's reply. -/
def crossed : List (ThreadAct Nat) :=
  let lock : CpgLock := .blank
  let a : Resource := .a
  let b : Resource := .b
  let reply (r : Resource) (tid : UInt32) : CpgLockMsg := { CpgLockMsg.blank .grant with
    resource := r, ownerNodeid := 1, ownerPid := 100, ownerTid := tid, lockid := 7 }
  [.call 0 100 ⟨a.bytes, a.noNul⟩ 0 lock none (.failed .etimedout),
    .call 1 100 ⟨b.bytes, b.noNul⟩ 0 lock none (.failed .etimedout),
    .answer (.lockMsg a 100 1 0) (reply a 1), .answer (.lockMsg b 100 2 0) (reply b 2),
    .wake 1 .message, .wake 0 (.failed .etimedout), .wake 1 .message]

theorem reply_dispatch_crossed : ∃ s : Threads Nat,
    s.returned.map (fun e => (e.thread, e.result.ret)) = [(0, 0), (1, 0)] ∧
    (s.arrived.Perm (s.handle.unread ++ s.handle.pending ++ s.taken) ∧ s.arrived.Nodup) ∧
    ∀ e ∈ s.returned, e.result.ret = 0 ↔
      ∃ l g, e.request = some l ∧ g ∈ s.arrived ∧ l.Answers g ∧ g.request = .grant := by
  have h : (Transition.exec step (fun (s : Threads Nat) (a : ThreadAct Nat) =>
      decide (s.CountsOn a) && decide (Clean a)) (init 100) crossed).any (fun (s : Threads Nat) =>
        decide (s.returned.map (fun e => (e.thread, e.result.ret)) = [(0, 0), (1, 0)])) = true := by
    decide +kernel
  obtain ⟨s, hs, h⟩ := Transition.Run.of_check
    (P := fun (s : Threads Nat) (a : ThreadAct Nat) => s.CountsOn a ∧ Clean a)
    (fun _ _ h => by simpa using h) h
  obtain ⟨hplace, -, -, hret⟩ := reply_dispatch (fun _ _ h => h.1) hs
  exact ⟨s, of_decide_eq_true h, hplace, hret fun _ _ h => h.2⟩

end Threads

end Cpglock
