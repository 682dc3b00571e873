import Cpglock.Daemon.Proof.Replies
import Cpglock.Group.Proof.Rule

/-!
# A lock id names one resource

A daemon numbers the locks it grants with a counter, and keeps a lock's last number in its entry
(`Daemon.Numbered`, `Runs.numbered`). As long as the counter does not come round to 0, an id that a
client was ever given finds the lock it was given for, or none (`lock_id_names_resource`).
-/

namespace Cpglock

/-- The daemon makes fewer than 2^64 grants: no lock gets the number 0. -/
def Sys.CountsOn (s : Sys) : Act → Prop
  | .deliver n => ∀ nd ∈ s.nodes n, ∀ e ∈ s.log[nd.pos]?,
    (nd.d.deliver nd.pos e).localLockid ≠ nd.d.localLockid →
      (nd.d.deliver nd.pos e).localLockid ≠ 0
  | _ => True

instance (s : Sys) (a : Act) : Decidable (s.CountsOn a) := by
  refine a.casesOn ?_ ?_ ?_ ?_ ?_ ?_ <;> intros <;> dsimp only [Sys.CountsOn] <;> infer_instance

/-- Lock ids are distinct numbers up to the counter, and no other lock has an id that was written to a
client. -/
structure Daemon.Numbered (d : Daemon) : Prop where
  bound : ∀ r, (d.lockId r).toNat ≤ d.localLockid.toNat
  distinct : ∀ r r', d.lockId r ≠ 0 → d.lockId r = d.lockId r' → r = r'
  given : ∀ fd g, (fd, g) ∈ d.replies → g.request = .grant →
    g.lockid ≠ 0 ∧ g.lockid.toNat ≤ d.localLockid.toNat ∧ ∀ r, d.lockId r = g.lockid → r = g.resource

namespace Daemon

theorem lockId_of_get {d : Daemon} {r : Resource} {l : CpgLock} (h : d.locks.get r = some l) :
    d.lockId r = l.localId := by
  simp [lockId, h]

theorem mem_written {d : Daemon} {pid : UInt32} {m g : CpgLockMsg} {fd : Nat}
    (h : (fd, g) ∈ d.written pid m) : g = m := by
  obtain ⟨c, -, hc⟩ := List.mem_map.1 h
  exact (congrArg Prod.snd hc).symm

namespace Numbered

variable {d d' : Daemon}

theorem silent (h : d.Numbered) (hs : Silent d d') : d'.Numbered := by
  refine ⟨fun r => ?_, fun r r' h0 he => ?_, fun fd g hg hr => ?_⟩
  · rw [hs.lockId, hs.counter]
    exact h.bound r
  · rw [hs.lockId] at h0 he
    rw [hs.lockId] at he
    exact h.distinct r r' h0 he
  · rw [hs.replies] at hg
    obtain ⟨hne, hle, hres⟩ := h.given fd g hg hr
    refine ⟨hne, by rwa [hs.counter], fun r he => hres r ?_⟩
    rwa [hs.lockId] at he

/-- The next number, unless the counter comes round. -/
theorem toNat_succ {c : UInt64} (hc : c + 1 ≠ 0) : (c + 1).toNat = c.toNat + 1 := by
  have hlt := c.toNat_lt
  have hadd : (c + 1).toNat = (c.toNat + 1) % 2 ^ 64 := UInt64.toNat_add c 1
  have hne : (c + 1).toNat ≠ 0 := fun h => hc (UInt64.toNat.inj h)
  omega

theorem deliver (h : d.Numbered) {m : CpgLockMsg} (hw : Writes d m d')
    (hc : d'.localLockid ≠ d.localLockid → d'.localLockid ≠ 0) : d'.Numbered := by
  cases hw with
  | silent hs => exact h.silent hs
  | nak _ _ _ _ hid hcount hrep =>
    refine ⟨fun r => ?_, fun r r' h0 he => ?_, fun fd g hg hr => ?_⟩
    · rw [hid, hcount]
      exact h.bound r
    · rw [hid] at h0 he
      rw [hid] at he
      exact h.distinct r r' h0 he
    · rw [hrep] at hg
      rcases List.mem_append.1 hg with hg | hg
      · obtain ⟨hne, hle, hres⟩ := h.given fd g hg hr
        refine ⟨hne, by rwa [hcount], fun r he => hres r ?_⟩
        rwa [hid] at he
      · rw [mem_written hg] at hr
        cases hr
  | grant _ _ _ _ hid hcount hrep =>
    have h1 : d.localLockid + 1 ≠ 0 := by
      rw [← hcount]
      exact hc (by rw [hcount]; simp)
    have hsucc := toNat_succ h1
    -- an older number is not the new one
    have hold : ∀ {i : UInt64}, i.toNat ≤ d.localLockid.toNat → i ≠ d.localLockid + 1 := by
      rintro i hi rfl
      omega
    refine ⟨fun r => ?_, fun r r' h0 he => ?_, fun fd g hg hr => ?_⟩
    · have := h.bound r
      rw [hid, hcount]
      split <;> omega
    · rw [hid] at h0 he
      rw [hid] at he
      split at he <;> split at he
      · next hr hr' => exact hr.trans hr'.symm
      · exact absurd he.symm (hold (h.bound r'))
      · exact absurd he (hold (h.bound r))
      · next hr _ => exact h.distinct r r' (by rwa [if_neg hr] at h0) he
    · rw [hrep] at hg
      rcases List.mem_append.1 hg with hg | hg
      · obtain ⟨hne, hle, hres⟩ := h.given fd g hg hr
        refine ⟨hne, by rw [hcount]; omega, fun r he => hres r ?_⟩
        rw [hid] at he
        split at he
        · exact absurd he.symm (hold hle)
        · exact he
      · rw [mem_written hg]
        refine ⟨h1, by rw [hcount]; exact Nat.le_refl _, fun r he => ?_⟩
        by_contra hr
        rw [hid, if_neg (show r ≠ m.resource from hr)] at he
        exact hold (h.bound r) he

theorem start (x : MemberItem) (b : Boot) : (Daemon.start x b).Numbered := by
  have h0 : ∀ r, (Daemon.start x b).lockId r = 0 := fun _ => rfl
  refine ⟨fun r => ?_, fun r r' h => absurd (h0 r) h, fun fd g hg => ?_⟩
  · rw [h0]
    exact Nat.zero_le _
  · cases hg

end Numbered

end Daemon

theorem Runs.numbered {P : Sys → Act → Prop} (hP : ∀ s a, P s a → s.CountsOn a) {s : Sys}
    (h : Runs P .init s) : ∀ n nd, s.nodes n = some nd → nd.d.Numbered := by
  refine Transition.Run.invariant (I := fun s => ∀ n nd, s.nodes n = some nd → nd.d.Numbered) h
    (by intro n nd hn; cases hn) fun {s s' a} hi hp hs => ?_
  obtain ⟨members, left, join, boot, rfl, -, rfl⟩ | ⟨n, nd, m, out, rfl, hn, -, rfl⟩ |
    ⟨n, nd, d, pos, cause, seen, hn, -, hl, rfl⟩ := Sys.step_cases hs
  · intro k nd' hk
    obtain ⟨-, ⟨x, -, -, -, rfl⟩ | ⟨-, hk⟩⟩ := Sys.nodesAfter_cases hk
    · exact .start _ _
    · exact hi k nd' hk
  · intro k nd' hk
    rcases Sys.setNode_cases hk with ⟨rfl, rfl⟩ | ⟨-, hk⟩
    · have := hi _ nd hn
      exact ⟨this.bound, this.distinct, this.given⟩
    · exact hi k nd' hk
  · intro k nd' hk
    rcases Sys.setNode_cases hk with ⟨rfl, rfl⟩ | ⟨-, hk⟩
    · have hd := hi _ nd hn
      show d.Numbered
      cases hl with
      | @deliver e he =>
        cases e with
        | confchg members left join => exact hd.silent (Daemon.silent_cpgConfigChange ..)
        | msg x m => exact hd.deliver (Daemon.writes_deliver _ _ x m) (hP s _ hp nd hn _ he)
      | connect _ => exact hd.silent ⟨fun _ => rfl, rfl, rfl⟩
      | recv _ => exact hd.silent (Daemon.silent_clientActivityCb ..)
      | close _ => exact hd.silent (Daemon.silent_delClient ..)
    · exact hi k nd' hk

/-- In every reachable state nonzero lock ids are distinct and at most the counter, and for an id that
was written to a client `find_lock_by_id` fails or fills in the lock it was written for. -/
theorem lock_id_names_resource {P : Sys → Act → Prop} (hP : ∀ s a, P s a → s.CountsOn a) {s : Sys}
    (h : Runs P .init s) {n : UInt32} {nd : Node} (hn : s.nodes n = some nd) :
    (∀ r r' l l', nd.d.locks.get r = some l → nd.d.locks.get r' = some l' → l.localId ≠ 0 →
      l.localId = l'.localId → r = r') ∧
    (∀ r l, nd.d.locks.get r = some l → l.localId ≤ nd.d.localLockid) ∧
    ∀ fd g, (fd, g) ∈ nd.d.replies → g.request = .grant → ∀ m : CpgLockMsg, m.lockid = g.lockid →
      nd.d.findLockById m = none ∨ ∃ l, nd.d.locks.get g.resource = some l ∧
        nd.d.findLockById m = some { m with
          resource := g.resource, ownerNodeid := l.ownerNodeid, ownerPid := l.ownerPid,
          ownerTid := l.ownerTid, lockid := 0 } := by
  have hd := Runs.numbered hP h n nd hn
  refine ⟨fun r r' l l' hl hl' h0 he => ?_, fun r l hl => ?_, fun fd g hg hr m hm => ?_⟩
  · refine hd.distinct r r' ?_ ?_
    · rwa [Daemon.lockId_of_get hl]
    · rwa [Daemon.lockId_of_get hl, Daemon.lockId_of_get hl']
  · have := hd.bound r
    rwa [Daemon.lockId_of_get hl, ← UInt64.le_iff_toNat_le] at this
  · unfold Daemon.findLockById
    cases hf : nd.d.locks.entries.find? fun e => m.lockid = e.2.localId with
    | none => exact .inl rfl
    | some e =>
      obtain ⟨r, l⟩ := e
      have hl : nd.d.locks.get r = some l :=
        SortedMap.mem_entries.1 (List.mem_of_find?_eq_some hf)
      have hid : m.lockid = l.localId := by simpa using List.find?_some hf
      -- the entry that is found has the id, so it is the one it was given for
      obtain rfl := (hd.given fd g hg hr).2.2 r
        ((Daemon.lockId_of_get hl).trans (hid.symm.trans hm))
      exact .inr ⟨l, hl, rfl⟩

/-- A single daemon grants the lock `a` to process 100. -/
def oneGrant : List Act :=
  [.confchg (fun _ => [⟨1, 10⟩]) [] [⟨1, 10⟩] fun _ => ⟨⟨0, 0⟩, 0⟩, .order 1, .deliver 1, .deliver 1,
    .connect 1 5, .recv 1 5 (.lockMsg .a 100 1 0), .order 1, .deliver 1,
    .order 1, .deliver 1]

theorem lock_id_names_resource_one : ∃ (s : Sys) (nd : Node), s.nodes 1 = some nd ∧
    nd.d.replies.map (fun p => (p.1, p.2.request, p.2.lockid)) = [(5, .grant, 1)] ∧
    ∀ fd g, (fd, g) ∈ nd.d.replies → g.request = .grant → ∀ m : CpgLockMsg, m.lockid = g.lockid →
      nd.d.findLockById m = none ∨ ∃ l, nd.d.locks.get g.resource = some l ∧
        nd.d.findLockById m = some { m with
          resource := g.resource, ownerNodeid := l.ownerNodeid, ownerPid := l.ownerPid,
          ownerTid := l.ownerTid, lockid := 0 } := by
  have h : (Transition.exec Sys.step (fun (s : Sys) (a : Act) => decide (s.CountsOn a)) .init
      oneGrant).any (fun (s : Sys) => (s.nodes 1).any fun nd =>
        nd.d.replies.map (fun p => (p.1, p.2.request, p.2.lockid)) == [(5, .grant, 1)]) = true := by
    decide +kernel
  obtain ⟨s, hs, h⟩ := Transition.Run.of_check (P := fun (s : Sys) (a : Act) => s.CountsOn a)
    (fun _ _ h => of_decide_eq_true h) h
  simp only [Option.any_eq_true, beq_iff_eq] at h
  obtain ⟨nd, hn, hg⟩ := h
  exact ⟨s, nd, hn, hg, (lock_id_names_resource (fun _ _ h => h) hs hn).2.2⟩

end Cpglock
