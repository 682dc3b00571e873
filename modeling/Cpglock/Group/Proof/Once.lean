import Cpglock.Group.Proof.Sequence
import Cpglock.Group.Proof.Turn

/-!
# No request is granted twice

In a run without failures in which UNLOCKs come from holders, a request that is picked has not been
granted (`Once`): its GRANT would have taken it off the queue. So no identity is in two GRANTs
(`Runs.grants_nodup`).
-/

namespace Cpglock

/-- A daemon's queue and GRANTs after the order `done`. -/
structure Once (done : List Event) (v : Daemon) : Prop where
  nodup : ∀ r, (v.cell r).keys.Nodup
  waiting : ∀ r, ∀ k ∈ (v.cell r).keys, k ∉ keysOf .grant done
  sent : ∀ m ∈ v.out, m.request = .grant → m.key ∉ keysOf .grant done
  empty : ∀ r, (v.cell r).lock = none → (v.cell r).waiting = []

/-- A GRANT is its request's first. -/
def FirstGrant (done : List Event) (_ : UInt32) (m : CpgLockMsg) : Prop :=
  m.request = .grant → m.key ∉ keysOf .grant done

theorem Ordered.init {L : List Event → UInt32 → CpgLockMsg → Prop} {log : List Event} {e : Event}
    (h : Ordered L (log ++ [e])) : Ordered L log := by
  intro k x m hk
  have hlt := (List.getElem?_eq_some_iff.1 hk).1
  have := h k x m (by rwa [List.getElem?_append_left hlt])
  rwa [List.take_append_of_le_length hlt.le] at this

theorem Ordered.last {L : List Event → UInt32 → CpgLockMsg → Prop} {log : List Event}
    {x : MemberItem} {m : CpgLockMsg} (h : Ordered L (log ++ [.msg x m])) : L log x.nodeid m := by
  have := h log.length x m (by simp)
  rwa [List.take_left] at this

theorem Ordered.grants_nodup {log : List Event} (h : Ordered FirstGrant log) :
    (keysOf .grant log).Nodup := by
  induction log using List.reverseRecOn with
  | nil => exact List.nodup_nil
  | append_singleton log e ih =>
    have ih := ih h.init
    cases e with
    | confchg members left join => rwa [keysOf_change]
    | msg x m =>
      by_cases hm : m.request = .grant
      · rw [keysOf_msg hm]
        refine List.nodup_append.2 ⟨ih, List.nodup_singleton _, ?_⟩
        rintro k hk _ hk' rfl
        rw [List.mem_singleton.1 hk'] at hk
        exact h.last hm hk
      · rwa [keysOf_of_ne hm]

/-- What is ordered behind a position without a GRANT for the lock adds no grant of it. -/
theorem mem_keysOf_take {log : List Event} {j : Nat} {k : RequestKey}
    (hnone : ∀ i x m, j ≤ i → log[i]? = some (.msg x m) → ¬m.Passes k.resource)
    (hk : k ∈ keysOf .grant log) : k ∈ keysOf .grant (log.take j) := by
  obtain ⟨x, m, hmem, hm, rfl⟩ := mem_keysOf.1 hk
  obtain ⟨i, hi⟩ := List.mem_iff_getElem?.1 hmem
  have hij : i < j := by
    by_contra hij
    exact hnone i x m (by omega) hi ⟨.inl hm, rfl⟩
  refine mem_keysOf.2 ⟨x, m, List.mem_of_getElem? (i := i) ?_, hm, rfl⟩
  rw [List.getElem?_take_of_lt hij]
  exact hi

/-! ## Cells -/

namespace Daemon

variable {d : Daemon} {r : Resource} {now : Nat} {m : CpgLockMsg} {c : Cell} {k : RequestKey}

/-- A cell's requests are for its resource. -/
theorem resource_of_mem_keys (hk : k ∈ (d.cell r).keys) : k.resource = r := by
  obtain ⟨q, hq, rfl⟩ := List.mem_map.1 hk
  exact CellStep.mem_waiting hq

/-- A GRANT takes its request off the queue. -/
theorem CellMove.unlinked (h : d.CellMove r now m c) (hm : m.request = .grant) (hr : m.resource = r)
    (hnodup : (d.cell r).keys.Nodup)
    (hempty : (d.cell r).lock = none → (d.cell r).waiting = [])
    (hj : d.joined = false → (d.cell r).lock = none) : m.key ∉ c.keys := by
  have hnil : (d.cell r).lock = none → m.key ∉ (d.cell r).keys := by
    intro hl hk
    rw [Cell.keys, hempty hl] at hk
    cases hk
  cases h with
  | same hs =>
    cases hjoin : d.joined with
    | false => exact hnil (hj hjoin)
    | true => exact absurd hm (hs hjoin hr).2.1
  | taken =>
    rw [Cell.keys, map_key_eraseP]
    exact hnodup.not_mem_erase
  | learnt _ _ _ hl _ => exact hnil hl
  | _ => simp_all

/-- Nobody waits for a lock that a daemon does not know. -/
theorem CellMove.waiting_nil (h : d.CellMove r now m c)
    (hempty : (d.cell r).lock = none → (d.cell r).waiting = []) (hl : c.lock = none) :
    c.waiting = [] := by
  cases h with
  | same => exact hempty hl
  | dropped => rw [show (d.cell r).waiting = [] from hempty hl]; rfl
  | stale => exact hempty hl
  | _ => cases hl

end Daemon

namespace Once

variable {done : List Event} {v : Daemon}

theorem start (x : MemberItem) (b : Boot) : Once done (.start x b) where
  nodup r := List.nodup_nil
  waiting r k hk := by cases hk
  sent m hm := by
    rw [List.mem_singleton.1 (show m ∈ [_] from hm)]
    simp [CpgLockMsg.blank]
  empty r _ := rfl

/-- The delivery of a message. -/
theorem message {out : List CpgLockMsg} {now : Nat} {n : UInt32} {x : MemberItem} {m : CpgLockMsg}
    (h : Once done v) (hout : v.out = if x.nodeid = n then m :: out else out)
    (hmove : ∀ r, ({ v with out } : Daemon).CellMove r now m
      ((({ v with out } : Daemon).deliver now (.msg x m)).cell r))
    (hstill : ∀ r, m.Passes r → (({ v with out } : Daemon).cell r).Still r)
    (hj : v.joined = false → ∀ r, (v.cell r).lock = none)
    (hlock : m.request = .lock → m.key ∉ keysOf .grant done ∧ ∀ r, m.key ∉ (v.cell r).keys) :
    Once (done ++ [.msg x m]) (({ v with out } : Daemon).deliver now (.msg x m)) := by
  have hwaiting : ∀ r, ∀ k ∈ ((({ v with out } : Daemon).deliver now (.msg x m)).cell r).keys,
      k ∉ keysOf .grant (done ++ [.msg x m]) := by
    intro r k hk
    have hold : k ∉ keysOf .grant done := by
      rcases (hmove r).mem_keys hk with hk | ⟨hm, rfl⟩
      · exact h.waiting r k hk
      · exact (hlock hm).1
    by_cases hm : m.request = .grant
    · rw [keysOf_msg hm, List.mem_append, List.mem_singleton, not_or]
      refine ⟨hold, ?_⟩
      rintro rfl
      exact (hmove r).unlinked hm (Daemon.resource_of_mem_keys hk) (h.nodup r) (h.empty r)
        (fun hjoin => hj hjoin r) hk
    · rwa [keysOf_of_ne hm]
  refine ⟨fun r => ?_, hwaiting, fun g hg hgr => ?_, fun r => (hmove r).waiting_nil (h.empty r)⟩
  · refine (Daemon.cellStep_deliver _ now x m).keys_sublist.nodup ?_
    split
    · next hm =>
      refine List.nodup_append.2 ⟨h.nodup r, List.nodup_singleton _, ?_⟩
      rintro k hk _ hk' rfl
      rw [List.mem_singleton.1 hk'] at hk
      exact (hlock hm.1).2 r hk
    · rw [List.append_nil]
      exact h.nodup r
  · have hold : g ∈ (({ v with out } : Daemon).cell g.resource).sent →
        g.key ∉ keysOf .grant (done ++ [.msg x m]) := by
      intro hg'
      have hgk := h.sent g (mem_of_popped hout g (List.mem_filter.1 hg').1) hgr
      by_cases hm : m.request = .grant
      · rw [keysOf_msg hm, List.mem_append, List.mem_singleton, not_or]
        refine ⟨hgk, fun he => ?_⟩
        -- it would be on its way beside the one that is delivered
        have hr : m.resource = g.resource := (congrArg RequestKey.resource he).symm
        exact hstill g.resource ⟨.inl hm, hr⟩ g hg' ⟨.inl hgr, rfl⟩
      · rwa [keysOf_of_ne hm]
    have hgc := Daemon.mem_cell hg
    rcases (hmove g.resource).sent_cases with heq | ⟨q, heq, -, hk, -⟩ | ⟨-, -, -, -, heq⟩
    · exact hold (heq ▸ hgc)
    · rw [heq] at hgc
      rcases List.mem_append.1 hgc with hgc | hgc
      · exact hold hgc
      · rw [List.mem_singleton.1 hgc]
        exact hwaiting _ _ hk
    · rw [heq] at hgc
      rcases List.mem_append.1 hgc with hgc | hgc
      · exact hold hgc
      · rw [List.mem_singleton.1 hgc] at hgr
        cases hgr

/-- A client's message. -/
theorem client (h : Once done v) (fd : Nat) (m : CpgLockMsg) : Once done (v.clientActivityCb fd m) := by
  have hw := fun r => Daemon.cellWrite_clientActivityCb v r fd m
  refine ⟨fun r => ?_, fun r k hk => ?_, fun g hg hgr => ?_, fun r hl => ?_⟩
  · rw [(hw r).keys]
    exact h.nodup r
  · rw [(hw r).keys] at hk
    exact h.waiting r k hk
  · have hold : g ∈ (v.cell g.resource).sent → g.key ∉ keysOf .grant done := fun hg =>
      h.sent g (List.mem_filter.1 hg).1 hgr
    have hgc := Daemon.mem_cell hg
    rcases (hw g.resource).sent_cases with heq | ⟨hm, -, heq⟩ | ⟨q, heq, -, hk, -⟩ |
      ⟨u, hu, -, heq⟩
    · exact hold (heq ▸ hgc)
    all_goals
      rw [heq] at hgc
      rcases List.mem_append.1 hgc with hgc | hgc
      · exact hold hgc
      have hgq := List.mem_singleton.1 hgc
    · rw [hgq] at hgr
      exact absurd (hgr.symm.trans hm) (by decide)
    · rw [hgq]
      exact h.waiting _ _ hk
    · rw [hgq, hu] at hgr
      cases hgr
  · have hkeys := (hw r).keys
    rw [(hw r).lock] at hl
    rw [Cell.keys, Cell.keys, h.empty r hl] at hkeys
    exact List.map_eq_nil_iff.1 hkeys

end Once

section

variable {P : Sys → Act → Prop} (hP : ∀ s a, P s a → s.FailureFree a ∧ s.UnlocksHeld a)
include hP

theorem Runs.once {s : Sys} (h : Runs P .init s) :
    Ordered FirstGrant s.log ∧ s.Views fun done _ v => Once done v := by
  have hF := fun s a hp => (hP s a hp).1
  refine (h.rule Sys.sound_init (by intro k x m h; simp [Sys.init] at h)
    (by intro n nd h; cases h) ?_ ?_ ?_).2
  · exact fun s members left join boot _ _ _ _ x b _ _ => .start x b
  · intro s n nd m out hs hr _ _ hv hn hout hm hk
    obtain ⟨hlead, hleads⟩ := Runs.leads hP hr
    have hlog := (hs.waiting hlead (hleads n nd hn) ((hr.plain_of hF).2 n nd hn) hn
      (m := m) (by simp [hout]) ⟨.inl hm, rfl⟩).2
    exact (hv n nd hn).sent m (Node.mem_view hout) hm (mem_keysOf_take hlog hk)
  · intro s a n nd v pos hs hr hp _ hv hn _ hstep
    have honce := hv n nd hn
    obtain ⟨hlog, hheard⟩ := Runs.heard hF hr
    cases hstep with
    | @msg x m out he hout =>
      rw [List.take_add_one, he]
      refine honce.message hout (hr.cellMove hF hn he out)
        (fun r => (Runs.popped hP hr hn he hout r).1) ((hr.plain_of hF).2 n nd hn).empty fun hm => ?_
      have hfresh := hr.lock_fresh hF nd.pos x m he hm
      refine ⟨fun hk => hfresh ?_, fun r hk => hfresh ((hheard n nd hn).queued r _ hk)⟩
      -- what is granted was ordered before
      obtain ⟨y, g, hg, hgr, hkey⟩ := mem_keysOf.1 hk
      obtain ⟨j, hj⟩ := List.mem_iff_getElem?.1 hg
      have hlt := (List.getElem?_eq_some_iff.1 hj).1
      rw [List.length_take] at hlt
      rw [List.getElem?_take_of_lt (by omega)] at hj
      obtain ⟨z, l, hl, hlr, hlk⟩ := (hlog j y g hj).answer (.inl hgr)
      exact ⟨z, l, (List.take_subset_take_left _ (by omega)) hl, hlr, hlk.trans hkey⟩
    | @change members left join he =>
      obtain rfl := hr.nobody_left (fun s a hp => (hF s a hp).1) _ _ _ (List.mem_of_getElem? he)
      rw [List.take_add_one, he]
      refine ⟨honce.nodup, fun r k hk => ?_, fun g hg hgr => ?_, honce.empty⟩
      · rw [Option.toList_some, keysOf_change]
        exact honce.waiting r k hk
      · rw [Option.toList_some, keysOf_change]
        exact honce.sent g hg hgr
    | connect => exact ⟨honce.nodup, honce.waiting, honce.sent, honce.empty⟩
    | @recv fd m => exact honce.client fd m
    | close => exact ((hF _ _ hp).2.1 : False).elim

/-- No identity is granted twice. -/
theorem Runs.grants_nodup {s : Sys} (h : Runs P .init s) : (keysOf .grant s.log).Nodup :=
  (Runs.once hP h).1.grants_nodup

end

end Cpglock
