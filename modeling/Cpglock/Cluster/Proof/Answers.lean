import Cpglock.Cluster.Proof.Conversation
import Cpglock.Group.Proof.Fifo

/-!
# What daemons answer when nobody uses FL_TRY

Daemons write GRANTs only, one for a request, to a connection of the process that asked
(`Runs.replies_granted`, `Runs.reply_asked`, `Runs.writes_numbers`), and take back from a connection only
what it unlocks (`Runs.holds_back`).
-/

namespace Cpglock

/-! ## One step -/

section

variable {s s' : Sys} {a : Act} {n : UInt32} {fd : Nat}

/-- What is on a connection is there for its step, or was there before. -/
theorem Sys.reply_step (hs : s.step a = some s') (hleave : s.NobodyLeaves a) {g : CpgLockMsg} :
    .reply n fd g ∈ s'.trace ↔ .reply n fd g ∈ s.trace ∨ g ∈ s.writes s' n fd := by
  have hcase : ∀ l, s'.trace = s.trace ++ l →
      (.reply n fd g ∈ s'.trace ↔ .reply n fd g ∈ s.trace ∨ g ∈ s.writes s' n fd) := by
    intro l hl
    rw [Sys.writes, hl, List.drop_left, List.mem_append, List.mem_filterMap]
    refine or_congr_right ⟨fun h => ⟨_, h, by simp [Obs.replyOn]⟩, ?_⟩
    rintro ⟨o, ho, hog⟩
    cases o with
    | reply k f g' =>
      rw [Obs.replyOn] at hog
      split at hog
      · next h =>
        obtain ⟨rfl, rfl⟩ := h
        rwa [← Option.some.inj hog]
      · cases hog
    | _ => cases hog
  obtain ⟨members, left, join, boot, rfl, -, rfl⟩ | ⟨k, nd, m, out, rfl, -, -, rfl⟩ |
    ⟨k, nd, d, pos, cause, seen, -, -, -, rfl⟩ := Sys.step_cases hs
  · obtain rfl : left = [] := hleave
    exact hcase [] rfl
  · exact hcase [] (List.append_nil _).symm
  · exact hcase (seen ++ Sys.effects k cause nd.d d) (List.append_assoc ..)

/-- What a daemon has read. -/
theorem Sys.recv_step (hs : s.step a = some s') (hleave : s.NobodyLeaves a) {m : CpgLockMsg} :
    .recv n fd m ∈ s'.trace ↔ .recv n fd m ∈ s.trace ∨ a = .recv n fd m := by
  obtain ⟨members, left, join, boot, rfl, -, rfl⟩ | ⟨k, nd, m', out, rfl, -, -, rfl⟩ |
    ⟨k, nd, d, pos, cause, seen, -, -, hl, rfl⟩ := Sys.step_cases hs
  · obtain rfl : left = [] := hleave
    rw [show (s.change members [] join boot).trace = s.trace from List.append_nil _]
    simp
  · rw [show (s.orderNext k nd m' out).trace = s.trace from rfl]
    simp
  · obtain rfl := hl.seen_eq
    rw [Sys.run, List.append_assoc, List.mem_append, List.mem_append]
    refine or_congr_right ?_
    rw [or_iff_left recv_notMem_effects]
    cases hl with
    | recv => simp [Act.seen, eq_comm]
    | _ => simp [Act.seen]

/-- A daemon stays, and so does a connection that no DUMP comes from. -/
theorem Sys.stays_step (hsound : s.Sound) (hs : s.step a = some s') (hleave : s.NobodyLeaves a)
    (hstay : s.ClientsStay a) (hdump : ¬a.Dumps n fd) {nd : Node} (hn : s.nodes n = some nd)
    (hfd : fd ∈ nd.d.clients.map (·.fd)) :
    ∃ nd', s'.nodes n = some nd' ∧ fd ∈ nd'.d.clients.map (·.fd) := by
  obtain ⟨members, left, join, boot, rfl, hok, rfl⟩ | ⟨k, nd₀, m, out, rfl, hk, -, rfl⟩ |
    ⟨k, nd₀, d, pos, cause, seen, hk, -, hl, rfl⟩ := Sys.step_cases hs
  · obtain rfl : left = [] := hleave
    refine ⟨nd, ?_, hfd⟩
    show s.nodesAfter [] join boot n = some nd
    have hnew : join.find? (fun x => x.nodeid = n) = none := by
      refine List.find?_eq_none.2 fun x hx hxn => ?_
      have hnone := hsound.nodes_join hok hx
      rw [of_decide_eq_true hxn, hn] at hnone
      cases hnone
    simp [Sys.nodesAfter, hn, hnew]
  · by_cases hnk : n = k
    · subst hnk
      obtain rfl := Option.some.inj (hn.symm.trans hk)
      exact ⟨_, Sys.setNode_self .., hfd⟩
    · exact ⟨nd, (Sys.setNode_of_ne s _ hnk).trans hn, hfd⟩
  · by_cases hnk : n = k
    · subst hnk
      obtain rfl := Option.some.inj (hn.symm.trans hk)
      refine ⟨_, Sys.setNode_self .., ?_⟩
      show fd ∈ d.clients.map (·.fd)
      cases hl with
      | @deliver e => rwa [(Daemon.grows_deliver nd.d nd.pos e).clients]
      | connect =>
        rw [show (nd.d.insertClient _).clients = nd.d.clients ++ _ from rfl, List.map_append]
        exact List.mem_append_left _ hfd
      | @recv f m =>
        rw [Daemon.clients_clientActivityCb]
        obtain ⟨c, hc, rfl⟩ := List.mem_map.1 hfd
        split
        · refine List.mem_map.2 ⟨_, List.mem_map_of_mem hc, ?_⟩
          split <;> rfl
        · split
          · next hm =>
            refine List.mem_map_of_mem ((List.mem_eraseP_of_neg ?_).2 hc)
            simpa using fun hf => hdump ⟨rfl, hf.symm, hm⟩
          · exact hfd
      | close => exact hstay.elim
    · exact ⟨nd, (Sys.setNode_of_ne s _ hnk).trans hn, hfd⟩

end

/-! ## Runs -/

section

variable {P : Sys → Act → Prop} (hP : ∀ s a, P s a → s.FailureFree a ∧ s.UnlocksHeld a)
include hP

/-- What a connection holds after a step it held before, and does not unlock, or it was written. -/
theorem Runs.holds_back {s s' : Sys} {a : Act} (h : Runs P .init s) (hp : P s a)
    (hs : s.step a = some s') {n : UInt32} {fd : Nat} {g : CpgLockMsg} (hg : s'.Holds n fd g) :
    (s.Holds n fd g ∧ ¬a.TakesBack n g.lockid) ∨ g ∈ s.writes s' n fd := by
  obtain ⟨hreply, hgr, hi⟩ := hg
  have hleave := (hP s a hp).1.1
  refine ((Sys.reply_step hs hleave).1 hreply).imp_left fun hold => ?_
  have hcase : ∀ {l}, a.seen = [] → (∀ ids, l.foldl (Obs.idsAfter n fd) ids = ids) →
      s'.trace = s.trace ++ l → s.Holds n fd g ∧ ¬a.TakesBack n g.lockid := by
    intro l hseen hl ht
    refine ⟨⟨hold, hgr, ?_⟩, fun hb => ?_⟩
    · rw [Sys.ids, ht, List.foldl_append, hl] at hi
      exact hi
    · cases a with
      | recv => cases hseen
      | _ => exact hb
  obtain ⟨members, left, join, boot, rfl, -, rfl⟩ | ⟨k, nd, m, out, rfl, -, -, rfl⟩ |
    ⟨k, nd, d, pos, cause, seen, hk, -, hl, rfl⟩ := Sys.step_cases hs
  · obtain rfl : left = [] := hleave
    exact hcase (l := []) rfl (fun _ => rfl) rfl
  · exact hcase (l := []) rfl (fun _ => rfl) (List.append_nil _).symm
  · obtain ⟨rs, hrs⟩ := hl.replies
    obtain rfl := hl.seen_eq
    have hi : g.lockid ∈ given (s.trace ++ a.seen ++ Sys.effects k cause nd.d d) n fd := hi
    -- the GRANT is old, so its id is not that of a new one
    have hseen : g.lockid ∈ given (s.trace ++ a.seen) n fd := by
      by_cases hkn : k = n
      · subst hkn
        refine ((mem_given_effects hrs).1 hi).resolve_right ?_
        rintro ⟨g', hg', hgr', hid⟩
        have hk' : (s.run k nd d pos cause a.seen).nodes k = some { nd with d, pos } :=
          Sys.setNode_self ..
        have hnodup := Runs.grant_ids_nodup hP (Transition.Run.next h hp hs) hk'
        have hgrants : d.grants = nd.d.grants ++ rs.filter fun p => p.2.request = .grant := by
          rw [Daemon.grants, hrs, List.filter_append]
          rfl
        have hnodup : (d.grants.map fun p => p.2.lockid).Nodup := hnodup
        rw [hgrants, List.map_append] at hnodup
        have hmem : (fd, g) ∈ nd.d.grants :=
          List.mem_filter.2 ⟨(((Runs.handed hP h).2 k nd hk).replies fd g).1 hold,
            decide_eq_true hgr⟩
        exact (List.nodup_append.1 hnodup).2.2 _ (List.mem_map_of_mem hmem) _
          (List.mem_map_of_mem (List.mem_filter.2 ⟨hg', decide_eq_true hgr'⟩)) hid.symm
      · rwa [given_of_ne fun o ho => by rw [Sys.node_effects ho]; exact hkn] at hi
    rw [given_append] at hseen
    cases a with
    | recv k' f m =>
      rw [show Act.seen (.recv k' f m) = [.recv k' f m] from rfl, List.foldl_cons, List.foldl_nil,
        Obs.idsAfter] at hseen
      split at hseen
      · obtain ⟨hmem, hne⟩ := List.mem_filter.1 hseen
        exact ⟨⟨hold, hgr, hmem⟩, fun hb => (of_decide_eq_true hne) hb.2.2.symm⟩
      · next hnot =>
        have hback : ¬(Act.recv k' f m).TakesBack n g.lockid := fun hb => hnot ⟨hb.1, hb.2.1⟩
        split at hseen
        · cases hseen
        · exact ⟨⟨hold, hgr, hseen⟩, hback⟩
    | close => exact ((hP _ _ hp).1.2.1 : False).elim
    | _ => exact ⟨⟨hold, hgr, hseen⟩, id⟩

/-- The GRANTs on a daemon's connections have different numbers. -/
theorem Runs.grant_numbers_nodup {s : Sys} (h : Runs P .init s) {n : UInt32} {nd : Node}
    (hn : s.nodes n = some nd) : (nd.d.grants.map fun p => p.2.key.number).Nodup := by
  have hF := fun s a hp => (hP s a hp).1
  have hmap := congrArg (List.map Prod.fst) (Runs.serial hP h n nd hn).numbered
  rw [List.map_map, List.zipIdx_map_fst] at hmap
  have hmap : nd.d.grants.map (fun p => p.2.key) = grantsFor n (s.log.take nd.pos) := hmap
  -- they are numbers of LOCKs of the node
  have hsub : ∀ k ∈ grantsFor n (s.log.take nd.pos),
      k ∈ (keysOf .lock s.log).filter fun k => k.nodeid = n := by
    intro k hk
    obtain ⟨hk, hkn⟩ := List.mem_filter.1 hk
    obtain ⟨x, m, hm, hg, rfl⟩ := mem_keysOf.1 hk
    obtain ⟨j, hj⟩ := List.getElem?_of_mem (List.mem_of_mem_take hm)
    refine List.mem_filter.2 ⟨(keysOf_take_sublist .lock s.log j).subset ?_, hkn⟩
    exact locked_iff.1 (((Runs.heard hF h).1 j x m hj).answer (.inl hg))
  have hnodup : (grantsFor n (s.log.take nd.pos)).Nodup :=
    ((Runs.grants_nodup hP h).sublist (keysOf_take_sublist .grant s.log nd.pos)).filter _
  have hnum := Runs.numbers_nodup hF h n
  rw [show (fun p : Nat × CpgLockMsg => p.2.key.number) = RequestKey.number ∘ fun p => p.2.key from rfl,
    ← List.map_map, hmap]
  refine List.Nodup.map_on (fun k hk k' hk' he => ?_) hnodup
  exact List.inj_on_of_nodup_map hnum (hsub k hk) (hsub k' hk') he

/-- A GRANT on a connection is for a request of its process. -/
theorem Runs.reply_asked {s : Sys} (h : Runs P .init s) {n : UInt32} {fd : Nat} {g : CpgLockMsg}
    (hg : .reply n fd g ∈ s.trace) (hgr : g.request = .grant) :
    ∃ nd, s.nodes n = some nd ∧ (fd, g) ∈ nd.d.grants ∧ g.ownerNodeid = n ∧ n ≠ 0 ∧
      g.ownerPid ≠ 0 ∧ ⟨fd, g.ownerPid⟩ ∈ nd.d.clients ∧ s.Asked g.key := by
  obtain ⟨hnone, hhanded⟩ := Runs.handed hP h
  cases hn : s.nodes n with
  | none => exact absurd rfl (hnone n hn _ hg)
  | some nd =>
    have hmem : (fd, g) ∈ nd.d.grants :=
      List.mem_filter.2 ⟨((hhanded n nd hn).replies fd g).1 hg, decide_eq_true hgr⟩
    have hserial := Runs.serial hP h n nd hn
    have hmap := congrArg (List.map Prod.fst) hserial.numbered
    rw [List.map_map, List.zipIdx_map_fst] at hmap
    have hkey : g.key ∈ grantsFor n (s.log.take nd.pos) := hmap ▸ List.mem_map_of_mem hmem
    obtain ⟨hkey, hkn⟩ := List.mem_filter.1 hkey
    obtain ⟨x, m, hm, hgrant, hmk⟩ := mem_keysOf.1 hkey
    have hasked := (Runs.fromClients h).log x m (List.mem_of_mem_take hm) (.inr (.inl hgrant))
    have hplain := (h.plain_of fun s a hp => (hP s a hp).1).2 n nd hn
    obtain ⟨h0, hc⟩ := hserial.clients _ hmem
    exact ⟨nd, rfl, hmem, of_decide_eq_true hkn, hplain.pos, h0, hc, hmk ▸ hasked⟩

end

section

variable {P : Sys → Act → Prop}
  (hP : ∀ s a, P s a → (s.FailureFree a ∧ s.UnlocksHeld a) ∧ s.NoTry a)
include hP

/-- Nobody is refused. -/
theorem Runs.replies_granted {s : Sys} (h : Runs P .init s) :
    s.Views fun _ _ v => ∀ p ∈ v.replies, p.2.request = .grant := by
  have hF := fun s a hp => (hP s a hp).1.1
  have hpatient := fun s a hp => (⟨hF s a hp, (hP s a hp).2⟩ : s.FailureFree a ∧ s.NoTry a)
  refine (h.rule (L := fun _ _ _ => True) Sys.sound_init (fun _ _ _ _ => trivial)
    (by intro n nd h; cases h) (fun _ _ _ _ _ _ _ _ _ _ _ _ _ p hp => by cases hp)
    (fun _ _ _ _ _ _ _ _ _ _ _ _ => trivial) ?_).2.2
  intro s a n nd v pos hs hr hp _ hv hn _ hstep
  have hold : ∀ p ∈ nd.d.replies, p.2.request = .grant := hv n nd hn
  cases hstep with
  | @msg x m out he hout =>
    intro p hmem
    cases Daemon.writes_deliver ({ nd.view s.log n with out } : Daemon) nd.pos x m with
    | silent h =>
      rw [h.replies] at hmem
      exact hold p hmem
    | grant _ _ _ _ _ _ hrep =>
      rw [hrep] at hmem
      rcases List.mem_append.1 hmem with hmem | hmem
      · exact hold p hmem
      · obtain ⟨f, g⟩ := p
        rw [Daemon.mem_written hmem]
        rfl
    | nak _ hm _ _ _ _ _ => exact absurd hm ((Runs.patient hpatient hr).1 nd.pos x m he).1
  | @change members left join =>
    have hs := Daemon.silent_cpgConfigChange (nd.view s.log n) (members (nd.view s.log n).myNodeId) left
      join
    exact fun p hmem => hold p (hs.replies ▸ hmem)
  | connect => exact hold
  | @recv fd m =>
    exact fun p hmem => hold p ((Daemon.silent_clientActivityCb (nd.view s.log n) fd m).replies ▸ hmem)
  | close => exact ((hF _ _ hp).2.1 : False).elim

/-- Every reply is a GRANT. -/
theorem Runs.reply_granted {s : Sys} (h : Runs P .init s) {n : UInt32} {fd : Nat} {g : CpgLockMsg}
    (hg : .reply n fd g ∈ s.trace) : g.request = .grant := by
  obtain ⟨hnone, hhanded⟩ := Runs.handed (fun s a hp => (hP s a hp).1) h
  cases hn : s.nodes n with
  | none => exact absurd rfl (hnone n hn _ hg)
  | some nd =>
    exact Runs.replies_granted hP h n nd hn _ (((hhanded n nd hn).replies fd g).1 hg)

/-- The numbers of what a step writes are new. -/
theorem Runs.writes_numbers {s s' : Sys} {a : Act} (h : Runs P .init s) (hp : P s a)
    (hs : s.step a = some s') (n : UInt32) (fd : Nat) :
    ((s.writes s' n fd).map (·.key.number)).Nodup ∧
      ∀ g ∈ s.writes s' n fd, ∀ g', .reply n fd g' ∈ s.trace → g'.key.number ≠ g.key.number := by
  have hFU := fun s a hp => (hP s a hp).1
  have hs' : Runs P .init s' := .next h hp hs
  obtain ⟨members, left, join, boot, rfl, -, rfl⟩ | ⟨k, nd, m, out, rfl, -, -, rfl⟩ |
    ⟨k, nd, d, pos, cause, seen, hk, -, hl, rfl⟩ := Sys.step_cases hs
  · obtain rfl : left = [] := (hFU _ _ hp).1.1
    have hnil : s.writes (s.change members [] join boot) n fd = [] := by
      rw [Sys.writes, show (s.change members [] join boot).trace = s.trace from List.append_nil _,
        List.drop_length]
      rfl
    rw [hnil]
    exact ⟨List.nodup_nil, fun g hg => by cases hg⟩
  · have hnil : s.writes (s.orderNext k nd m out) n fd = [] := by
      rw [Sys.writes, show (s.orderNext k nd m out).trace = s.trace from rfl, List.drop_length]
      rfl
    rw [hnil]
    exact ⟨List.nodup_nil, fun g hg => by cases hg⟩
  · obtain ⟨rs, hrs⟩ := hl.replies
    obtain rfl := hl.seen_eq
    rw [Sys.writes_run hrs]
    split
    · next hkn =>
      subst hkn
      have hk' : (s.run k nd d pos cause a.seen).nodes k = some { nd with d, pos } :=
        Sys.setNode_self ..
      have hnodup : (d.grants.map fun p => p.2.key.number).Nodup :=
        Runs.grant_numbers_nodup hFU hs' hk'
      have hgrants : d.grants = nd.d.grants ++ rs := by
        have hall : ∀ p ∈ d.replies, decide (p.2.request = .grant) = true := fun p hp =>
          decide_eq_true (Runs.replies_granted hP hs' k _ hk' p hp)
        have hold : ∀ p ∈ nd.d.replies, decide (p.2.request = .grant) = true := fun p hp =>
          hall p (hrs ▸ List.mem_append_left _ hp)
        rw [Daemon.grants, Daemon.grants, List.filter_eq_self.2 hall, List.filter_eq_self.2 hold, hrs]
      rw [hgrants, List.map_append] at hnodup
      obtain ⟨-, hnew, hdisj⟩ := List.nodup_append.1 hnodup
      refine ⟨?_, fun g hg g' hg' he => ?_⟩
      · rw [List.map_map]
        exact hnew.sublist (List.filter_sublist.map _)
      · obtain ⟨p, hmem, rfl⟩ := List.mem_map.1 hg
        have hg' : (fd, g') ∈ nd.d.grants :=
          List.mem_filter.2 ⟨(((Runs.handed hFU h).2 k nd hk).replies fd g').1 hg',
            decide_eq_true (Runs.reply_granted hP h hg')⟩
        exact hdisj _ (List.mem_map_of_mem hg') _ (List.mem_map_of_mem (List.mem_of_mem_filter hmem)) he
    · exact ⟨List.nodup_nil, fun g hg => by cases hg⟩

end

end Cpglock
