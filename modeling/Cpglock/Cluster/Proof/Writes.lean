import Cpglock.Cluster.World
import Cpglock.Group.MutualExclusion

/-!
# What one step gives to a connection, and takes back

In a run without failures the ids that a step writes to a connection in GRANTs are new
(`Runs.writes`), and an id that a connection holds is taken back by an UNLOCK with that id only
(`Runs.holds_step`).
-/

namespace Cpglock

/-- What the step from `s` to `s'` writes to connection `fd` of daemon `n`. -/
def Sys.writes (s s' : Sys) (n : UInt32) (fd : Nat) : List CpgLockMsg :=
  (s'.trace.drop s.trace.length).filterMap (Obs.replyOn n fd)

/-- Daemon `n` reads an UNLOCK with the id `i`. -/
def Act.TakesBack (n : UInt32) (i : UInt64) : Act → Prop
  | .recv k _ m => k = n ∧ m.request = .unlock ∧ m.lockid = i
  | _ => False

/-- Connection `fd` of daemon `n` ends, as that of a DUMP. -/
def Act.Dumps (n : UInt32) (fd : Nat) : Act → Prop
  | .recv k f m => k = n ∧ f = fd ∧ m.request = .dump
  | _ => False

/-! ## What is written -/

theorem filterMap_replyOn_effects {n k : UInt32} {fd : Nat} {cause : Option Nat} {d d' : Daemon}
    {rs : List (Nat × CpgLockMsg)} (h : d'.replies = d.replies ++ rs) :
    (Sys.effects k cause d d').filterMap (Obs.replyOn n fd) =
      if k = n then (rs.filter fun p => p.1 = fd).map (·.2) else [] := by
  have hmcast : ((d'.out.drop d.out.length).map (Obs.mcast k cause)).filterMap (Obs.replyOn n fd) =
      [] := by
    refine List.filterMap_eq_nil_iff.2 fun o ho => ?_
    obtain ⟨m, -, rfl⟩ := List.mem_map.1 ho
    rfl
  rw [Sys.effects, List.filterMap_append, hmcast, List.nil_append, h, List.drop_left,
    List.filterMap_map]
  by_cases hk : k = n
  · rw [if_pos hk, ← List.filterMap_eq_map, ← List.filterMap_eq_filter, List.filterMap_filterMap]
    refine List.filterMap_congr fun p _ => ?_
    by_cases hf : p.1 = fd <;> simp [Obs.replyOn, Option.guard, hk, hf]
  · rw [if_neg hk]
    refine List.filterMap_eq_nil_iff.2 fun p _ => ?_
    simp [Obs.replyOn, hk]

theorem Act.seen_writes (a : Act) (n : UInt32) (fd : Nat) :
    a.seen.filterMap (Obs.replyOn n fd) = [] := by
  cases a <;> rfl

/-- The step of daemon `k` writes what its replies say. -/
theorem Sys.writes_run {s : Sys} {k n : UInt32} {nd : Node} {a : Act} {d : Daemon} {pos : Nat}
    {cause : Option Nat} {fd : Nat} {rs : List (Nat × CpgLockMsg)}
    (h : d.replies = nd.d.replies ++ rs) :
    s.writes (s.run k nd d pos cause a.seen) n fd =
      if k = n then (rs.filter fun p => p.1 = fd).map (·.2) else [] := by
  have htrace : (s.run k nd d pos cause a.seen).trace.drop s.trace.length =
      a.seen ++ Sys.effects k cause nd.d d := by
    rw [Sys.run, List.append_assoc, List.drop_left]
  rw [Sys.writes, htrace, List.filterMap_append, Act.seen_writes, List.nil_append,
    filterMap_replyOn_effects h]

/-! ## The ids that a connection holds -/

/-- An id stays in a connection's hands. -/
theorem given_stays {t l : List Obs} {n : UInt32} {fd : Nat} {i : UInt64} (h : i ∈ given t n fd)
    (hl : ∀ o ∈ l, ∀ ids, i ∈ ids → i ∈ o.idsAfter n fd ids) : i ∈ given (t ++ l) n fd := by
  rw [given_append]
  generalize given t n fd = ids at h
  induction l generalizing ids with
  | nil => exact h
  | cons o l ih =>
    exact ih (fun o ho => hl o (List.mem_cons_of_mem _ ho)) _ (hl o List.mem_cons_self ids h)

/-- What a client's act takes from a connection. -/
theorem Act.mem_idsAfter {a : Act} {n : UInt32} {fd : Nat} {i : UInt64} {s : Sys}
    (hstay : s.ClientsStay a) (hback : ¬a.TakesBack n i) (hdump : ¬a.Dumps n fd) :
    ∀ o ∈ a.seen, ∀ ids, i ∈ ids → i ∈ o.idsAfter n fd ids := by
  intro o ho ids hi
  cases a with
  | recv k f m =>
    rw [List.mem_singleton.1 ho, Obs.idsAfter]
    split
    · next h => exact List.mem_filter.2 ⟨hi, by simpa using fun he => hback ⟨h.1, h.2, he.symm⟩⟩
    · split
      · next h => exact absurd h hdump
      · exact hi
  | close => exact hstay.elim
  | _ => cases ho

theorem effects_idsAfter {k n : UInt32} {fd : Nat} {i : UInt64} {cause : Option Nat} {d d' : Daemon} :
    ∀ o ∈ Sys.effects k cause d d', ∀ ids, i ∈ ids → i ∈ o.idsAfter n fd ids := by
  intro o ho ids hi
  rcases List.mem_append.1 ho with ho | ho
  · obtain ⟨m, -, rfl⟩ := List.mem_map.1 ho
    exact hi
  · obtain ⟨p, -, rfl⟩ := List.mem_map.1 ho
    rw [Obs.idsAfter]
    split
    · exact List.mem_append_left _ hi
    · exact hi

/-- A connection that holds a lock holds it until the daemon reads its UNLOCK. -/
theorem Sys.Holds.step {s s' : Sys} {a : Act} {n : UInt32} {fd : Nat} {g : CpgLockMsg}
    (h : s.Holds n fd g) (hs : s.step a = some s') (hleave : s.NobodyLeaves a)
    (hstay : s.ClientsStay a) (hback : ¬a.TakesBack n g.lockid) (hdump : ¬a.Dumps n fd) :
    s'.Holds n fd g := by
  obtain ⟨hr, hg, hi⟩ := h
  obtain ⟨members, left, join, boot, rfl, -, rfl⟩ | ⟨k, nd, m, out, rfl, -, -, rfl⟩ |
    ⟨k, nd, d, pos, cause, seen, -, -, hl, rfl⟩ := Sys.step_cases hs
  · obtain rfl : left = [] := hleave
    have htrace : (s.change members [] join boot).trace = s.trace := List.append_nil _
    rw [Sys.Holds, Sys.ids, htrace]
    exact ⟨hr, hg, hi⟩
  · exact ⟨hr, hg, hi⟩
  · refine ⟨Sys.mem_trace_run (.inl hr), hg, ?_⟩
    obtain rfl := hl.seen_eq
    exact given_stays (given_stays hi (Act.mem_idsAfter hstay hback hdump)) effects_idsAfter

section

variable {P : Sys → Act → Prop} (hP : ∀ s a, P s a → s.FailureFree a ∧ s.UnlocksHeld a)
include hP

/-- The ids of a daemon's GRANTs are distinct. -/
theorem Runs.grant_ids_nodup {s : Sys} (h : Runs P .init s) {n : UInt32} {nd : Node}
    (hn : s.nodes n = some nd) : (nd.d.grants.map fun p => p.2.lockid).Nodup := by
  have hmap := congrArg (List.map Prod.snd) (Runs.serial hP h n nd hn).numbered
  rw [List.map_map, List.zipIdx_map_snd] at hmap
  refine List.Nodup.of_map UInt64.toNat ?_
  rw [List.map_map]
  refine (congrArg List.Nodup hmap).mpr ?_
  exact List.nodup_range'

/-- A lock id is held by one connection of a daemon. -/
theorem Runs.holds_inj {s : Sys} (h : Runs P .init s) {n : UInt32} {fd fd' : Nat}
    {g g' : CpgLockMsg} (hg : s.Holds n fd g) (hg' : s.Holds n fd' g')
    (hid : g.lockid = g'.lockid) : fd = fd' ∧ g = g' := by
  obtain ⟨nd, hn, hm⟩ := Runs.holds_node hP h hg
  obtain ⟨nd', hn', hm'⟩ := Runs.holds_node hP h hg'
  obtain rfl := Option.some.inj (hn'.symm.trans hn)
  exact Prod.mk.inj ((Runs.serial hP h n nd' hn).inj hm hm' hid)

/-- The ids in a connection's hands are those of the GRANTs that it holds. -/
theorem Runs.holds_of_ids {s : Sys} (h : Runs P .init s) {n : UInt32} {fd : Nat} {i : UInt64}
    (hi : i ∈ s.ids n fd) : ∃ g, s.Holds n fd g ∧ g.lockid = i := by
  obtain ⟨hnone, hhanded⟩ := Runs.handed hP h
  cases hn : s.nodes n with
  | none =>
    rw [Sys.ids, foldl_eq_self fun o ho => Obs.idsAfter_of_ne (hnone n hn o ho) _] at hi
    cases hi
  | some nd =>
    obtain ⟨-, -, g, -, -, -, -, -, hg, hgr, -, rfl⟩ := (hhanded n nd hn).held fd i hi
    exact ⟨g, ⟨((hhanded n nd hn).replies fd g).2 hg, hgr, hi⟩, rfl⟩

/-- The GRANTs that a step writes to a connection are held there, and their ids are new. -/
theorem Runs.writes {s s' : Sys} {a : Act} (h : Runs P .init s) (hp : P s a)
    (hs : s.step a = some s') (n : UInt32) (fd : Nat) :
    (∀ m ∈ s.writes s' n fd, m.request = .grant → s'.Holds n fd m ∧
      ∀ f g, s.Holds n f g → g.lockid ≠ m.lockid) ∧
    (((s.writes s' n fd).filter fun m => m.request = .grant).map (·.lockid)).Nodup := by
  have hF := fun s a hp => (hP s a hp).1
  have hs' : Runs P .init s' := .next h hp hs
  obtain ⟨members, left, join, boot, rfl, -, rfl⟩ | ⟨k, nd, m, out, rfl, -, -, rfl⟩ |
    ⟨k, nd, d, pos, cause, seen, hk, -, hl, rfl⟩ := Sys.step_cases hs
  · obtain rfl : left = [] := (hF _ _ hp).1
    have hnil : s.writes (s.change members [] join boot) n fd = [] := by
      rw [Sys.writes, show (s.change members [] join boot).trace = s.trace from List.append_nil _,
        List.drop_length]
      rfl
    rw [hnil]
    exact ⟨fun m hm => (by cases hm), List.nodup_nil⟩
  · have hnil : s.writes (s.orderNext k nd m out) n fd = [] := by
      rw [Sys.writes, show (s.orderNext k nd m out).trace = s.trace from rfl, List.drop_length]
      rfl
    rw [hnil]
    exact ⟨fun m hm => (by cases hm), List.nodup_nil⟩
  · obtain ⟨rs, hrs⟩ := hl.replies
    obtain rfl := hl.seen_eq
    rw [Sys.writes_run hrs]
    split
    · next hkn =>
      subst hkn
      have hk' : (s.run k nd d pos cause a.seen).nodes k = some { nd with d, pos } :=
        Sys.setNode_self ..
      have hnodup := Runs.grant_ids_nodup hP hs' hk'
      have hgrants : d.grants = nd.d.grants ++ rs.filter fun p => p.2.request = .grant := by
        rw [Daemon.grants, hrs, List.filter_append]
        rfl
      have hnodup : (nd.d.grants.map (fun p => p.2.lockid) ++
          (rs.filter fun p => p.2.request = .grant).map fun p => p.2.lockid).Nodup := by
        rw [← List.map_append, ← hgrants]
        exact hnodup
      obtain ⟨-, hnew, hdisj⟩ := List.nodup_append.1 hnodup
      refine ⟨fun m hm hg => ?_, ?_⟩
      · obtain ⟨p, hp', rfl⟩ := List.mem_map.1 hm
        obtain ⟨hmem, hfd⟩ := List.mem_filter.1 hp'
        obtain rfl := of_decide_eq_true hfd
        refine ⟨⟨?_, hg, ?_⟩, fun f g hold => ?_⟩
        · exact List.mem_append_right _ ((reply_mem_effects hrs).2 hmem)
        · exact (mem_given_effects hrs).2 (.inr ⟨p.2, hmem, hg, rfl⟩)
        · obtain ⟨nd', hn', hgm⟩ := Runs.holds_node hP h hold
          obtain rfl := Option.some.inj (hn'.symm.trans hk)
          exact hdisj _ (List.mem_map.2 ⟨_, hgm, rfl⟩) _
            (List.mem_map.2 ⟨p, List.mem_filter.2 ⟨hmem, decide_eq_true hg⟩, rfl⟩)
      · refine hnew.sublist ?_
        rw [List.filter_map, List.map_map, List.filter_filter]
        refine List.Sublist.map _ (List.monotone_filter_right _ fun p hp' => ?_)
        simp only [Function.comp_apply, Bool.and_eq_true, decide_eq_true_eq] at hp' ⊢
        exact hp'.1
    · exact ⟨fun m hm => (by cases hm), List.nodup_nil⟩

end

end Cpglock
