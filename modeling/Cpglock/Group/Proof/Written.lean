import Cpglock.Group.Proof.Once

/-!
# A daemon counts its GRANTs

A daemon writes a GRANT to a client only when it is delivered that GRANT (`Written`), so its counter of
lock ids is at most the number of GRANTs to its node. As these are fewer than 2^64, the counter does not
come round (`Runs.countsOn`).
-/

namespace Cpglock

/-- What a daemon has written to clients after the order `done`. -/
structure Written (done : List Event) (n : UInt32) (v : Daemon) : Prop where
  replies : ∀ fd g, (fd, g) ∈ v.replies → g.request = .grant → g.key ∈ keysOf .grant done
  counter : v.localLockid.toNat ≤ (keysOf .grant done).countP (·.nodeid = n)
  ids : ∀ r l, (v.cell r).lock = some l → l.ownerNodeid = n → ∀ fd g, (fd, g) ∈ v.replies →
    g.request = .grant → g.key = l.key r → g.lockid = l.localId

/-- Where an own entry comes from: it was there before, or its GRANT is delivered. -/
theorem Daemon.CellMove.own_entry {d : Daemon} {r : Resource} {now : Nat} {m : CpgLockMsg} {c : Cell}
    {l' : CpgLock} (h : d.CellMove r now m c) (h0 : d.myNodeId ≠ 0) (hl : c.lock = some l')
    (hown : l'.ownerNodeid = d.myNodeId) :
    (∃ l, (d.cell r).lock = some l ∧ l.ownerNodeid = d.myNodeId ∧ l'.key r = l.key r ∧
      l'.localId = l.localId ∧ ¬(d.joined = true ∧ m.request = .grant ∧ m.resource = r)) ∨
    m.request = .grant ∧ m.resource = r ∧ m.ownerNodeid = d.myNodeId ∧
      l' = { Daemon.granted m ((d.cell r).lock.getD .blank) with localId := d.localLockid + 1 } ∧
      c.sent = (d.cell r).sent := by
  cases h with
  | same hs => exact .inl ⟨l', hl, hown, rfl, rfl, fun hg => (hs hg.1 hg.2.2).2.1 hg.2.1⟩
  | asks _ hm _ _ _ =>
    cases hl' : (d.cell r).lock with
    | some l =>
      rw [hl'] at hl
      obtain rfl := Option.some.inj hl
      exact .inl ⟨_, rfl, hown, rfl, rfl, by simp [hm]⟩
    | none =>
      rw [hl'] at hl
      obtain rfl := Option.some.inj hl
      exact absurd hown.symm h0
  | refused _ hm _ hl' _ _ _ =>
    obtain rfl := Option.some.inj hl
    exact .inl ⟨_, hl', hown, rfl, rfl, by simp [hm]⟩
  | granted _ hm _ hfree _ =>
    obtain rfl := Option.some.inj hl
    rcases hfree with ⟨hl', -⟩ | ⟨-, -, rfl⟩
    · exact .inl ⟨_, hl', hown, rfl, rfl, by simp [hm]⟩
    · exact absurd hown.symm h0
  | taken _ hm hr hl' =>
    obtain rfl := Option.some.inj hl
    have hown : m.ownerNodeid = d.myNodeId := hown
    exact .inr ⟨hm, hr, hown, by simp [hl', hown], rfl⟩
  | learnt _ _ _ _ hn =>
    obtain rfl := Option.some.inj hl
    exact absurd hown hn
  | dropped _ hm _ => exact .inl ⟨l', hl, hown, rfl, rfl, by simp [hm]⟩
  | stale _ hm _ _ => exact .inl ⟨l', hl, hown, rfl, rfl, by simp [hm]⟩
  | freed _ hm _ hl' _ _ _ _ =>
    obtain rfl := Option.some.inj hl
    exact .inl ⟨_, hl', hown, rfl, rfl, by simp [hm]⟩
  | passed _ hm _ hl' _ _ _ _ _ =>
    obtain rfl := Option.some.inj hl
    exact .inl ⟨_, hl', hown, rfl, rfl, by simp [hm]⟩

/-- The GRANT that is written names the request whose GRANT is delivered. -/
theorem Daemon.grantReply_key {d : Daemon} {m : CpgLockMsg} (h : m.ownerNodeid = d.myNodeId) :
    (d.grantReply m).key = m.key := by
  simp [Daemon.grantReply, CpgLockMsg.key, h]

namespace Written

variable {done : List Event} {n : UInt32} {v v' : Daemon}

theorem start (x : MemberItem) (b : Boot) (done : List Event) :
    Written done x.nodeid (.start x b) where
  replies fd g hg := by cases hg
  counter := Nat.zero_le _
  ids r l hl := by cases hl

/-- Nothing is written, and no entry changes. -/
theorem same (h : Written done n v) (hrep : v'.replies = v.replies)
    (hcount : v'.localLockid = v.localLockid) (hlock : ∀ r, (v'.cell r).lock = (v.cell r).lock) :
    Written done n v' := by
  refine ⟨fun fd g hg => h.replies fd g (hrep ▸ hg), by rw [hcount]; exact h.counter, ?_⟩
  intro r l hl hn fd g hg
  exact h.ids r l (hlock r ▸ hl) hn fd g (hrep ▸ hg)

theorem mem_append {k : RequestKey} {q : CpgLockReq} (h : k ∈ keysOf q done) (e : Event) :
    k ∈ keysOf q (done ++ [e]) := by
  rw [keysOf_append]
  exact List.mem_append_left _ h

theorem counter_append (h : Written done n v) (e : Event) :
    v.localLockid.toNat ≤ (keysOf .grant (done ++ [e])).countP (·.nodeid = n) := by
  have := h.counter
  rw [keysOf_append, List.countP_append]
  omega

/-- The GRANTs written after a delivery are older or the delivered one. -/
theorem reply_cases {m g : CpgLockMsg} {fd : Nat} (hw : Daemon.Writes v m v')
    (hg : (fd, g) ∈ v'.replies) (hgr : g.request = .grant) : (fd, g) ∈ v.replies ∨
      v.joined = true ∧ m.request = .grant ∧ m.ownerNodeid = v.myNodeId ∧ g = v.grantReply m := by
  cases hw with
  | silent hs => exact .inl (hs.replies ▸ hg)
  | grant hj hm hme _ _ _ hrep =>
    rw [hrep] at hg
    exact (List.mem_append.1 hg).imp_right fun hg => ⟨hj, hm, hme, Daemon.mem_written hg⟩
  | nak _ _ _ _ _ _ hrep =>
    rw [hrep] at hg
    refine (List.mem_append.1 hg).imp_right fun hg => ?_
    rw [Daemon.mem_written hg] at hgr
    cases hgr

theorem toNat_succ_le (c : UInt64) : (c + 1).toNat ≤ c.toNat + 1 := by
  rw [UInt64.toNat_add]
  exact Nat.mod_le _ _

/-- The delivery of a message. -/
theorem message {out : List CpgLockMsg} {now : Nat} {x : MemberItem} {m : CpgLockMsg}
    (h : Written done n v) (hme : v.myNodeId = n) (h0 : n ≠ 0)
    (hmove : ∀ r, ({ v with out } : Daemon).CellMove r now m
      ((({ v with out } : Daemon).deliver now (.msg x m)).cell r))
    (hfirst : FirstGrant done x.nodeid m) :
    Written (done ++ [.msg x m]) n (({ v with out } : Daemon).deliver now (.msg x m)) := by
  have hw := Daemon.writes_deliver ({ v with out } : Daemon) now x m
  refine ⟨fun fd g hg hgr => ?_, ?_, fun r l hl hn fd g hg hgr hk => ?_⟩
  · rcases reply_cases hw hg hgr with hg | ⟨-, hm, hown, rfl⟩
    · exact mem_append (h.replies fd g hg hgr) _
    · rw [keysOf_msg hm, Daemon.grantReply_key hown]
      simp
  · cases hw with
    | silent hs =>
      rw [hs.counter]
      exact h.counter_append _
    | grant _ hm hown _ _ hcount _ =>
      have hnode : m.key.nodeid = n := hown.trans hme
      rw [hcount, keysOf_msg hm, List.countP_append, List.countP_singleton, if_pos (by simpa using hnode)]
      exact (toNat_succ_le _).trans (Nat.add_le_add_right h.counter 1)
    | nak _ _ _ _ _ hcount _ =>
      rw [hcount]
      exact h.counter_append _
  · rcases (hmove r).own_entry (hme ▸ h0) hl (hn.trans hme.symm) with
      ⟨l₀, hl₀, hn₀, hkey, hid, hno⟩ | ⟨hm, hr, hown, rfl, -⟩
    · rcases reply_cases hw hg hgr with hg | ⟨hj, hm, hown, rfl⟩
      · rw [hid]
        exact h.ids r l₀ hl₀ (hn₀.trans hme) fd g hg hgr (hk.trans hkey)
      · exact absurd ⟨hj, hm, congrArg RequestKey.resource hk⟩ hno
    · rcases reply_cases hw hg hgr with hg | ⟨-, -, -, rfl⟩
      · -- its request was granted before
        refine absurd (h.replies fd g hg hgr) ?_
        rw [hk, show CpgLock.key _ r = m.key by simp [CpgLock.key, CpgLockMsg.key, Daemon.granted, hr]]
        exact hfirst hm
      · rfl

end Written

/-! ## The numbers of a node's requests -/

/-- Distinct numbers of processes are fewer than 2^64. -/
theorem length_numbers_le {l : List (UInt32 × UInt32)} (h : l.Nodup) (h0 : ∀ p ∈ l, p.1 ≠ 0) :
    l.length ≤ 2 ^ 64 - 2 ^ 32 := by
  let f : UInt32 × UInt32 → Nat := fun p => p.1.toNat * 2 ^ 32 + p.2.toNat
  have hf : Function.Injective f := by
    intro p q hpq
    have h1 := p.2.toNat_lt
    have h2 := q.2.toNat_lt
    have hpq : p.1.toNat * 2 ^ 32 + p.2.toNat = q.1.toNat * 2 ^ 32 + q.2.toNat := hpq
    exact Prod.ext (UInt32.toNat.inj (by omega)) (UInt32.toNat.inj (by omega))
  have hsub : (l.map f).toFinset ⊆ Finset.Ico (2 ^ 32) (2 ^ 64) := by
    intro i hi
    obtain ⟨p, hp, rfl⟩ := List.mem_map.1 (List.mem_toFinset.1 hi)
    have h1 := p.1.toNat_lt
    have h2 := p.2.toNat_lt
    have h3 : p.1.toNat ≠ 0 := fun h => h0 p hp (UInt32.toNat.inj h)
    refine Finset.mem_Ico.2 ⟨?_, ?_⟩
    · show 2 ^ 32 ≤ p.1.toNat * 2 ^ 32 + p.2.toNat
      omega
    · show p.1.toNat * 2 ^ 32 + p.2.toNat < 2 ^ 64
      omega
  have hcard := Finset.card_le_card hsub
  rw [List.toFinset_card_of_nodup (h.map hf), List.length_map, Nat.card_Ico] at hcard
  exact hcard

section

variable {P : Sys → Act → Prop} (hP : ∀ s a, P s a → s.FailureFree a ∧ s.UnlocksHeld a)
include hP

theorem Runs.written {s : Sys} (h : Runs P .init s) : s.Views Written := by
  have hF := fun s a hp => (hP s a hp).1
  refine (h.rule (L := fun _ _ _ => True) Sys.sound_init (fun _ _ _ _ => trivial)
    (by intro n nd h; cases h) ?_ (fun _ _ _ _ _ _ _ _ _ _ _ _ => trivial) ?_).2.2
  · exact fun s members left join boot _ _ _ _ x b _ _ => .start x b _
  · intro s a n nd v pos hs hr hp _ hv hn _ hstep
    have hrep := hv n nd hn
    have hplain := (hr.plain_of hF).2 n nd hn
    cases hstep with
    | @msg x m out he hout =>
      rw [List.take_add_one, he]
      exact hrep.message hplain.me hplain.pos (hr.cellMove hF hn he out)
        ((Runs.once hP hr).1 nd.pos x m he)
    | @change members left join he =>
      obtain rfl := hr.nobody_left (fun s a hp => (hF s a hp).1) _ _ _ (List.mem_of_getElem? he)
      have hsame : Written (s.log.take nd.pos) n
          ((nd.view s.log n).deliver nd.pos (.confchg members [] join)) :=
        hrep.same rfl rfl fun r => rfl
      rw [List.take_add_one, he]
      refine ⟨fun fd g hg hgr => ?_, hsame.counter_append _, hsame.ids⟩
      exact Written.mem_append (hsame.replies fd g hg hgr) _
    | connect => exact hrep.same rfl rfl fun r => rfl
    | @recv fd m =>
      have hs := Daemon.silent_clientActivityCb (nd.view s.log n) fd m
      exact hrep.same hs.replies hs.counter fun r =>
        (Daemon.cellWrite_clientActivityCb (nd.view s.log n) r fd m).lock
    | close => exact ((hF _ _ hp).2.1 : False).elim

/-- The GRANTs to a node are fewer than 2^64. -/
theorem Runs.countP_grants_le {s : Sys} (h : Runs P .init s) (n : UInt32) :
    (keysOf .grant s.log).countP (·.nodeid = n) ≤ 2 ^ 64 - 2 ^ 32 := by
  have hF := fun s a hp => (hP s a hp).1
  have hreal := (h.plain_of hF).1
  have hheard := (Runs.heard hF h).1
  have hsub : ((keysOf .grant s.log).filter (·.nodeid = n)).Subset
      ((keysOf .lock s.log).filter (·.nodeid = n)) := by
    intro k hk
    obtain ⟨hk, hn⟩ := List.mem_filter.1 hk
    obtain ⟨x, m, hm, hgr, rfl⟩ := mem_keysOf.1 hk
    obtain ⟨j, hj⟩ := List.mem_iff_getElem?.1 hm
    have hlock := locked_iff.1 ((hheard j x m hj).answer (.inl hgr))
    exact List.mem_filter.2 ⟨(keysOf_take_sublist .lock s.log j).subset hlock, hn⟩
  have hlen := (((Runs.grants_nodup hP h).filter _).subperm hsub).length_le
  rw [List.countP_eq_length_filter]
  refine hlen.trans ?_
  rw [← List.length_map (f := RequestKey.number)]
  refine length_numbers_le (h.numbers_nodup hF n) ?_
  intro p hp
  obtain ⟨k, hk, rfl⟩ := List.mem_map.1 hp
  obtain ⟨x, m, hm, hl, rfl⟩ := mem_keysOf.1 (List.mem_filter.1 hk).1
  obtain ⟨j, hj⟩ := List.mem_iff_getElem?.1 hm
  exact (hreal j x m hj (.inl hl)).1

theorem Runs.counter_lt {s : Sys} (h : Runs P .init s) {n : UInt32} {nd : Node}
    (hn : s.nodes n = some nd) : nd.d.localLockid.toNat < 2 ^ 64 - 1 := by
  have h1 := (Runs.written hP h n nd hn).counter
  have h2 := ((keysOf_take_sublist .grant s.log nd.pos).countP_le (p := (·.nodeid = n)))
  have h3 := Runs.countP_grants_le hP h n
  have h4 : (nd.view s.log n).localLockid = nd.d.localLockid := rfl
  rw [h4] at h1
  omega

/-- The counter of lock ids does not come round. -/
theorem Runs.countsOn {s : Sys} (h : Runs P .init s) (a : Act) : s.CountsOn a := by
  cases a with
  | deliver n =>
    intro nd hn e he hne
    have hlt := Runs.counter_lt hP h hn
    cases e with
    | confchg members left join =>
      exact absurd (Daemon.silent_cpgConfigChange nd.d (members nd.d.myNodeId) left join).counter hne
    | msg x m =>
      cases Daemon.writes_deliver nd.d nd.pos x m with
      | silent hs => exact absurd hs.counter hne
      | grant _ _ _ _ _ hcount _ =>
        rw [hcount]
        intro h0
        have h0 : (nd.d.localLockid.toNat + 1) % 2 ^ 64 = 0 := by
          rw [← UInt64.toNat_one, ← UInt64.toNat_add, h0]
          rfl
        omega
      | nak _ _ _ _ _ hcount _ => exact absurd hcount hne
  | _ => trivial

end

end Cpglock
