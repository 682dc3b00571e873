import Cpglock.Group.Proof.Handed

/-!
# The GRANTs that clients read

In a run without failures each request is granted at most once, after its LOCK, and a daemon writes to its
clients one GRANT for each GRANT for its node that it was delivered, in the same order and numbered from
1, on a connection of the process that asked (`grants_written`). FL_TRY is allowed, and the daemons may
enter in any order.
-/

namespace Cpglock

/-- The GRANTs written to clients, with their connections. -/
def Daemon.grants (d : Daemon) : List (Nat × CpgLockMsg) :=
  d.replies.filter fun p => p.2.request = .grant

/-- The GRANTs for node `n` in the order. -/
def grantsFor (n : UInt32) (log : List Event) : List RequestKey :=
  (keysOf .grant log).filter fun k => k.nodeid = n

/-- What daemon `n` has written to clients after the order `done`. -/
structure Serial (done : List Event) (n : UInt32) (v : Daemon) : Prop where
  numbered : v.grants.map (fun p => (p.2.key, p.2.lockid.toNat)) = (grantsFor n done).zipIdx 1
  counter : v.localLockid.toNat = (grantsFor n done).length
  clients : ∀ p ∈ v.grants, p.2.ownerPid ≠ 0 ∧ ⟨p.1, p.2.ownerPid⟩ ∈ v.clients

/-! ## One delivery -/

theorem grantsFor_grant {n : UInt32} {log : List Event} {x : MemberItem} {m : CpgLockMsg}
    (hm : m.request = .grant) (hn : m.ownerNodeid = n) :
    grantsFor n (log ++ [.msg x m]) = grantsFor n log ++ [m.key] := by
  rw [grantsFor, keysOf_msg hm, List.filter_append]
  simp [grantsFor, CpgLockMsg.key, hn]

theorem grantsFor_other {n : UInt32} {log : List Event} {x : MemberItem} {m : CpgLockMsg}
    (h : ¬(m.request = .grant ∧ m.ownerNodeid = n)) :
    grantsFor n (log ++ [.msg x m]) = grantsFor n log := by
  by_cases hm : m.request = .grant
  · have hn : m.ownerNodeid ≠ n := fun hn => h ⟨hm, hn⟩
    rw [grantsFor, keysOf_msg hm, List.filter_append]
    simp [grantsFor, CpgLockMsg.key, hn]
  · rw [grantsFor, keysOf_of_ne hm]
    rfl

@[simp] theorem grantsFor_change (n : UInt32) (log : List Event)
    (members : UInt32 → List MemberItem) (left join : List MemberItem) :
    grantsFor n (log ++ [.confchg members left join]) = grantsFor n log := by
  rw [grantsFor, keysOf_change]
  rfl

namespace Daemon

variable {d d' : Daemon} {m : CpgLockMsg}

/-- The own GRANT of a connected process is written, with the next number. -/
theorem Writes.own_grant (h : Writes d m d') (hm : m.request = .grant) (hnum : d.Numbered)
    (hlt : d.localLockid.toNat < 2 ^ 64 - 1) (hid : d'.lockId m.resource = d.localLockid + 1)
    (hc : d.connected m.ownerPid = true) : d'.localLockid = d.localLockid + 1 ∧
      ∃ c ∈ d.clients, c.pid = m.ownerPid ∧ d'.grants = d.grants ++ [(c.fd, d.grantReply m)] := by
  cases h with
  | silent hs =>
    have hb := hnum.bound m.resource
    rw [← hs.lockId, hid, Numbered.toNat_succ fun h0 => ?_] at hb
    · omega
    · have := congrArg UInt64.toNat h0
      rw [UInt64.toNat_add, UInt64.toNat_one, UInt64.toNat_zero] at this
      omega
  | grant _ _ _ _ _ hcount hrep =>
    obtain ⟨c, hcf⟩ := Option.isSome_iff_exists.1 hc
    refine ⟨hcount, c, List.mem_of_find?_eq_some hcf, by simpa using List.find?_some hcf, ?_⟩
    rw [grants, hrep, List.filter_append]
    simp [grants, written, hcf, grantReply, CpgLockMsg.blank]
  | nak _ hn _ _ _ _ _ => exact absurd (hm.symm.trans hn) (by decide)

/-- Any other message writes no GRANT. -/
theorem Writes.no_grant (h : Writes d m d')
    (hm : ¬(m.request = .grant ∧ m.ownerNodeid = d.myNodeId)) :
    d'.localLockid = d.localLockid ∧ d'.grants = d.grants := by
  cases h with
  | silent hs => exact ⟨hs.counter, by rw [grants, hs.replies]; rfl⟩
  | grant _ hg hme _ _ _ _ => exact absurd ⟨hg, hme⟩ hm
  | nak _ _ _ _ _ hcount hrep =>
    refine ⟨hcount, ?_⟩
    rw [grants, hrep, List.filter_append]
    have : (d.written m.ownerPid (d.nakReply m)).filter (fun p => p.2.request = .grant) = [] :=
      List.filter_eq_nil_iff.2 fun p hp => by simp [mem_written hp, nakReply, CpgLockMsg.blank]
    rw [this, List.append_nil]
    rfl

end Daemon

namespace Serial

variable {done : List Event} {n : UInt32} {v v' : Daemon}

theorem start (x : MemberItem) (b : Boot) (h : grantsFor x.nodeid done = []) :
    Serial done x.nodeid (.start x b) where
  numbered := by rw [h]; rfl
  counter := by rw [h]; rfl
  clients p hp := by cases hp

/-- Nothing is written, and no connection of a process that asked is lost. -/
theorem same {done' : List Event} (h : Serial done n v) (hg : grantsFor n done' = grantsFor n done)
    (hrep : v'.replies = v.replies) (hcount : v'.localLockid = v.localLockid)
    (hclients : ∀ c ∈ v.clients, c.pid ≠ 0 → c ∈ v'.clients) : Serial done' n v' := by
  have hgrants : v'.grants = v.grants := by rw [Daemon.grants, hrep]; rfl
  refine ⟨by rw [hgrants, hg]; exact h.numbered, by rw [hcount, hg]; exact h.counter, ?_⟩
  intro p hp
  rw [hgrants] at hp
  obtain ⟨h0, hc⟩ := h.clients p hp
  exact ⟨h0, hclients _ hc h0⟩

/-- The delivery of a message. -/
theorem message {out : List CpgLockMsg} {now : Nat} {x : MemberItem} {m : CpgLockMsg}
    (h : Serial done n v) (hme : v.myNodeId = n) (hnum : v.Numbered)
    (hlt : v.localLockid.toNat < 2 ^ 64 - 1)
    (hmove : ∀ r, ({ v with out } : Daemon).CellMove r now m
      ((({ v with out } : Daemon).deliver now (.msg x m)).cell r))
    (hown : m.request = .grant → m.ownerNodeid = n → v.joined = true ∧
      (v.cell m.resource).lock ≠ none ∧ m.ownerPid ≠ 0 ∧ v.connected m.ownerPid = true) :
    Serial (done ++ [.msg x m]) n (({ v with out } : Daemon).deliver now (.msg x m)) := by
  have hw := Daemon.writes_deliver ({ v with out } : Daemon) now x m
  have hclients := (Daemon.grows_deliver ({ v with out } : Daemon) now (.msg x m)).clients
  by_cases hg : m.request = .grant ∧ m.ownerNodeid = n
  · obtain ⟨hm, hn⟩ := hg
    obtain ⟨hj, hl, h0, hc⟩ := hown hm hn
    obtain ⟨l, hl⟩ := Option.ne_none_iff_exists'.1 hl
    -- the entry that is taken has the next number
    have htaken := ((hmove m.resource).eq_taken hj hm rfl hl).1
    rw [if_pos (hn.trans hme.symm)] at htaken
    obtain ⟨hcount, c, hcm, hcp, hgrants⟩ := hw.own_grant hm
      ⟨hnum.bound, hnum.distinct, hnum.given⟩ hlt (Daemon.lockId_of_get htaken) hc
    have hsucc : (v.localLockid + 1).toNat = v.localLockid.toNat + 1 := by
      rw [UInt64.toNat_add, UInt64.toNat_one]
      omega
    have hreply : (({ v with out } : Daemon).grantReply m).key = m.key :=
      Daemon.grantReply_key (hn.trans hme.symm)
    refine ⟨?_, ?_, fun p hp => ?_⟩
    · rw [hgrants, grantsFor_grant hm hn, List.map_append, List.zipIdx_append]
      congr 1
      · exact h.numbered
      · simp only [List.map_cons, List.map_nil, hreply, List.zipIdx_cons, List.zipIdx_nil]
        rw [show (({ v with out } : Daemon).grantReply m).lockid = v.localLockid + 1 from rfl, hsucc,
          h.counter, Nat.add_comm]
    · rw [hcount, grantsFor_grant hm hn, List.length_append, List.length_singleton, ← h.counter]
      exact hsucc
    · rw [hclients]
      rw [hgrants] at hp
      rcases List.mem_append.1 hp with hp | hp
      · exact h.clients p hp
      · rw [List.mem_singleton.1 hp]
        refine ⟨h0, ?_⟩
        show (⟨c.fd, m.ownerPid⟩ : ClientItem) ∈ v.clients
        rw [← hcp]
        exact hcm
  · obtain ⟨hcount, hgrants⟩ := hw.no_grant fun hm => hg ⟨hm.1, hm.2.trans hme⟩
    refine ⟨?_, ?_, fun p hp => ?_⟩
    · rw [hgrants, grantsFor_other hg]
      exact h.numbered
    · rw [hcount, grantsFor_other hg]
      exact h.counter
    · rw [hgrants] at hp
      rw [hclients]
      exact h.clients p hp

end Serial

/-! ## Runs -/

section

variable {P : Sys → Act → Prop} (hP : ∀ s a, P s a → s.FailureFree a ∧ s.UnlocksHeld a)
include hP

theorem Runs.serial {s : Sys} (h : Runs P .init s) : s.Views Serial := by
  have hF := fun s a hp => (hP s a hp).1
  refine (h.rule (L := fun _ _ _ => True) Sys.sound_init (fun _ _ _ _ => trivial)
    (by intro n nd h; cases h) ?_ (fun _ _ _ _ _ _ _ _ _ _ _ _ => trivial) ?_).2.2
  · intro s members left join boot hs hr _ hok x b hx _
    refine .start x b (List.filter_eq_nil_iff.2 fun k hk hkx => ?_)
    -- a GRANT's node has a daemon already
    obtain ⟨y, m, hm, hg, rfl⟩ := mem_keysOf.1 hk
    obtain ⟨-, nd, hnd, -⟩ := hr.asker_connected hF
      ((Runs.fromClients hr).log y m hm (.inr (.inl hg)))
    rw [of_decide_eq_true hkx, hs.nodes_join hok hx] at hnd
    cases hnd
  · intro s a n nd v pos hs hr hp _ hv hn _ hstep
    have hser := hv n nd hn
    have hplain := (hr.plain_of hF).2 n nd hn
    cases hstep with
    | @msg x m out he hout =>
      obtain ⟨hlog, hheard⟩ := Runs.heard hF hr
      have hsmooth := hr.smooth_of hF hlog (hheard n nd hn) hn he
      have hnum := Runs.numbered_of hP hr hn
      rw [List.take_add_one, he]
      refine hser.message hplain.me ⟨hnum.bound, hnum.distinct, hnum.given⟩
        (Runs.counter_lt hP hr hn) (hr.cellMove hF hn he out) fun hm hown => ?_
      obtain ⟨hj, hl⟩ := (hheard n nd hn).mine m.key ((hlog nd.pos x m he).answer (.inl hm)) hown
      exact ⟨hj, hl, (hsmooth.real hm).1, hsmooth.connected (.inl hm) (hown.trans hplain.me.symm)⟩
    | @change members left join he =>
      obtain rfl := hr.nobody_left (fun s a hp => (hF s a hp).1) _ _ _ (List.mem_of_getElem? he)
      rw [List.take_add_one, he]
      exact hser.same (grantsFor_change ..) rfl rfl fun c hc _ => hc
    | connect => exact hser.same rfl rfl rfl fun c hc _ => List.mem_append_left _ hc
    | @recv fd m hfd =>
      have hs := Daemon.silent_clientActivityCb (nd.view s.log n) fd m
      refine hser.same rfl hs.replies hs.counter fun c hc h0 => ?_
      have hlib := (hF _ _ hp).2.2.1.2 nd hn c hc
      rw [Daemon.clients_clientActivityCb]
      split
      · next hm =>
        refine List.mem_map.2 ⟨c, hc, ?_⟩
        split
        · next hf => rw [← ((hlib hf).1 hm).resolve_left h0]
        · rfl
      · split
        · next hd =>
          refine (List.mem_eraseP_of_neg ?_).2 hc
          simpa using fun hf => h0 ((hlib hf).2 hd)
        · exact hc
    | close => exact ((hF _ _ hp).2.1 : False).elim

end

/-- Process 100 of a single daemon, which holds `a`, asks for `b` with FL_TRY. -/
def secondGrant : List Act :=
  oneGrant ++ [.recv 1 5 (.lockMsg .b 100 2 flTry), .order 1, .deliver 1, .order 1, .deliver 1]

end Cpglock
