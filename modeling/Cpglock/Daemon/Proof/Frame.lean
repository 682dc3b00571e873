import Cpglock.Group.System

/-!
# What the handlers leave alone

`Grows d d'`: from `d` to `d'` messages other than JOINs and HALTs are sent and clients are written
to, which every delivery does at most (`grows_deliver`). `Frame d d'`: besides, the membership
stays, as it does for everything but JOINs, HALTs and configuration changes. What these do to the
membership is a function of the membership alone (`deliver_toMembership`).
-/

namespace Cpglock

namespace Daemon

structure Grows (d d' : Daemon) : Prop where
  clients : d'.clients = d.clients
  stray : d'.stray = d.stray
  out : ∃ ms, d'.out = d.out ++ ms ∧ ∀ m ∈ ms, m.request ≠ .join ∧ m.request ≠ .halt
  replies : ∃ rs, d'.replies = d.replies ++ rs

structure Frame (d d' : Daemon) : Prop extends Grows d d' where
  membership : d'.toMembership = d.toMembership

namespace Grows

theorem refl (d : Daemon) : Grows d d := ⟨rfl, rfl, ⟨[], by simp⟩, ⟨[], by simp⟩⟩

theorem trans {d d' d'' : Daemon} (h : Grows d d') (h' : Grows d' d'') : Grows d d'' := by
  obtain ⟨ms, hms, hj⟩ := h.out
  obtain ⟨ms', hms', hj'⟩ := h'.out
  obtain ⟨rs, hrs⟩ := h.replies
  obtain ⟨rs', hrs'⟩ := h'.replies
  refine ⟨h'.clients.trans h.clients, h'.stray.trans h.stray,
    ⟨ms ++ ms', by rw [hms', hms, List.append_assoc], fun m hm => ?_⟩,
    ⟨rs ++ rs', by rw [hrs', hrs, List.append_assoc]⟩⟩
  exact (List.mem_append.1 hm).elim (hj m) (hj' m)

/-- An assignment to the membership and the history. -/
theorem assign (d : Daemon) (g : Membership) (history : History) :
    Grows d { d with toMembership := g, history } := ⟨rfl, rfl, ⟨[], by simp⟩, ⟨[], by simp⟩⟩

end Grows

namespace Frame

theorem refl (d : Daemon) : Frame d d := ⟨.refl d, rfl⟩

theorem trans {d d' d'' : Daemon} (h : Frame d d') (h' : Frame d' d'') : Frame d d'' :=
  ⟨h.toGrows.trans h'.toGrows, h'.membership.trans h.membership⟩

/-- An assignment to the tables. -/
theorem tables (d : Daemon) (requests : List RequestItem) (locks : SortedMap Resource CpgLock)
    (localLockid : UInt64) (history : History) :
    Frame d { d with requests, locks, localLockid, history } :=
  ⟨⟨rfl, rfl, ⟨[], by simp⟩, ⟨[], by simp⟩⟩, rfl⟩

theorem send (d : Daemon) {m : CpgLockMsg} (h : m.request ≠ .join ∧ m.request ≠ .halt) :
    Frame d (d.sendLockMsg m) :=
  ⟨⟨rfl, rfl, ⟨[m], rfl, by simpa using h⟩, ⟨[], by simp [sendLockMsg]⟩⟩, rfl⟩

theorem setLock (d : Daemon) (r : Resource) (f : CpgLock → CpgLock) : Frame d (d.setLock r f) :=
  tables d _ _ _ _

theorem grantNext {d d' : Daemon} {m : CpgLockMsg} (h : d.grantNext m = some d') : Frame d d' := by
  obtain ⟨p, -, rfl⟩ := Option.map_eq_some_iff.1 h
  exact (tables d p.2 d.locks d.localLockid d.history).trans
    (send _ (by simp [grantMsg, CpgLockMsg.blank]))

theorem grantNextElse {d : Daemon} {m : CpgLockMsg} {k : Daemon → Daemon} (hk : Frame d (k d)) :
    Frame d (d.grantNextElse m k) := by
  unfold Daemon.grantNextElse
  cases h : d.grantNext m with
  | none => exact hk
  | some d' => exact grantNext h

theorem grantNextElse_sendUnlock (d : Daemon) (m m' : CpgLockMsg) :
    Frame d (d.grantNextElse m (·.sendUnlock m')) := grantNextElse (send d (by simp))

theorem notifyClient (d : Daemon) (pid : UInt32) (m : CpgLockMsg) :
    Frame d (d.notifyClient pid m).1 := by
  unfold Daemon.notifyClient
  cases d.findClient pid with
  | none => exact refl d
  | some c => exact ⟨⟨rfl, rfl, ⟨[], by simp⟩, ⟨_, rfl⟩⟩, rfl⟩

theorem iter {f : Daemon → Resource → CpgLock → Daemon} (hf : ∀ d r l, Frame d (f d r l))
    (m : SortedMap Resource CpgLock) (d : Daemon) : Frame d (m.iter f d) :=
  m.iter_induction (I := Frame d) (refl d) fun d' r l _ h => h.trans (hf d' r l)

end Frame

/-! ## Clients -/

theorem frame_recoverClientLock (pid : UInt32) (d : Daemon) (r : Resource) (l : CpgLock) :
    Frame d (recoverClientLock pid d r l) := by
  unfold recoverClientLock
  split
  · exact (Frame.setLock d r _).trans (Frame.grantNextElse_sendUnlock _ _ _)
  · exact .refl d

theorem frame_recoverClient (d : Daemon) (pid : UInt32) : Frame d (d.recoverClient pid) :=
  (Frame.tables d _ d.locks d.localLockid d.history).trans
    ((Frame.send _ (by simp [CpgLockMsg.blank])).trans
      (Frame.iter (frame_recoverClientLock pid) _ _))

theorem frame_delClient (d : Daemon) (fd : Nat) : Frame (d.unlinkClient fd) (d.delClient fd) := by
  unfold delClient
  split
  · exact .refl _
  · exact frame_recoverClient _ _

/-- A client's message changes neither the membership nor what waits already. -/
theorem clientActivityCb_out (d : Daemon) (fd : Nat) (m : CpgLockMsg) :
    (d.clientActivityCb fd m).toMembership = d.toMembership ∧
    ∃ ms, (d.clientActivityCb fd m).out = d.out ++ ms ∧ ∀ m ∈ ms, m.request ≠ .join ∧ m.request ≠ .halt := by
  unfold clientActivityCb
  split
  · next hm => exact ⟨rfl, [_], rfl, by simp [hm]⟩
  · cases d.findLockById m with
    | none => exact ⟨rfl, [], by simp⟩
    | some m' =>
      have := Frame.grantNextElse_sendUnlock d m' m'
      exact ⟨this.membership, this.out⟩
  · exact ⟨rfl, [], by simp [unlinkClient]⟩
  · exact ⟨rfl, [], by simp⟩

/-! ## Departed nodes -/

theorem frame_reassignLock (nodeid : UInt32) (o : MemberItem) (d : Daemon) (r : Resource)
    (l : CpgLock) : Frame d (reassignLock nodeid o d r l) := by
  unfold reassignLock
  split
  · exact .setLock d r _
  · exact .refl d

theorem frame_recoverNodeLock (nodeid : UInt32) (d : Daemon) (r : Resource) (l : CpgLock) :
    Frame d (recoverNodeLock nodeid d r l) := by
  unfold recoverNodeLock
  split
  · refine (Frame.setLock d r _).trans (Frame.grantNextElse ?_)
    exact (Frame.setLock _ r _).trans (Frame.send _ (by simp))
  · split
    · exact Frame.grantNextElse (Frame.setLock d r _)
    · exact .refl d

theorem frame_delNode (d : Daemon) (nodeid : UInt32) : Frame d (d.delNode nodeid) := by
  unfold delNode
  split
  · exact Frame.iter (frame_reassignLock nodeid _) _ _
  · exact (Frame.tables d _ d.locks d.localLockid d.history).trans
      ((Frame.send _ (by simp [CpgLockMsg.blank])).trans
        (Frame.iter (frame_recoverNodeLock nodeid) _ _))

/-! ## Delivered messages -/

theorem frame_grantFree (d : Daemon) (m : CpgLockMsg) : Frame d (d.grantFree m) :=
  (Frame.setLock d m.resource _).trans (Frame.grantNextElse (Frame.setLock _ m.resource _))

theorem frame_processLock (d : Daemon) (m : CpgLockMsg) (now : Nat) :
    Frame d (d.processLock m now) := by
  unfold processLock
  split
  · exact .refl d
  · have hq : Frame d (d.queueRequest m now) := .tables d _ d.locks d.localLockid d.history
    refine hq.trans ?_
    dsimp only
    split
    · split
      · split
        · exact frame_grantFree _ m
        · split
          · exact .send _ (by simp)
          · exact .refl _
      · exact .refl _
    · have hp : Frame (d.queueRequest m now) ((d.queueRequest m now).putLock m.resource .blank) :=
        .tables _ _ _ _ _
      refine hp.trans ?_
      split
      · exact frame_grantFree _ m
      · exact .refl _

theorem frame_regrantNonMember (d : Daemon) (m : CpgLockMsg) : Frame d (d.regrantNonMember m) := by
  unfold regrantNonMember
  split
  · exact (Frame.setLock d _ _).trans (Frame.grantNextElse_sendUnlock _ _ _)
  · exact .refl d

theorem frame_grantLocal (d : Daemon) (m : CpgLockMsg) (l : CpgLock) :
    Frame d (d.grantLocal m l) := by
  have hg : Frame d (d.grantClient m.resource l).1 :=
    (Frame.tables d d.requests _ _ d.history).trans (Frame.notifyClient (d.numberLock m.resource) _ _)
  refine hg.trans ?_
  unfold grantLocal
  dsimp only
  split
  · exact frame_regrantNonMember _ m
  · exact (Frame.tables _ _ _ _ _).trans (Frame.grantNextElse_sendUnlock _ _ _)

theorem frame_processGrant (d : Daemon) (m : CpgLockMsg) : Frame d (d.processGrant m) := by
  unfold processGrant
  split
  · exact .refl d
  · split
    · split
      · exact .refl d
      · have hs : Frame d ((d.setLock m.resource (granted m)).unlinkRequest m) :=
          .tables d _ _ _ d.history
        refine hs.trans ?_
        dsimp only
        split
        · exact frame_grantLocal _ _ _
        · exact frame_regrantNonMember _ _
    · exact .tables d _ _ _ _

theorem frame_processNak (d : Daemon) (m : CpgLockMsg) : Frame d (d.processNak m) := by
  unfold processNak
  split
  · exact .refl d
  · split
    · exact .refl d
    · have hu : Frame d (d.unlinkRequest m) := .tables d _ d.locks d.localLockid d.history
      refine hu.trans ?_
      dsimp only
      split
      · next r _ _ =>
        have hn : Frame (d.unlinkRequest m) ((d.unlinkRequest m).nakClient r).1 :=
          Frame.notifyClient _ _ _
        refine hn.trans ?_
        split
        · exact .refl _
        · exact .tables _ _ _ _ _
      · exact .refl _

theorem frame_unlockEntry (m : CpgLockMsg) (d : Daemon) (r : Resource) (l : CpgLock) :
    Frame d (unlockEntry m d r l) := by
  unfold unlockEntry
  split
  · refine (Frame.setLock d r fun l => { l with state := .free }).trans ?_
    dsimp only
    split
    · cases h : (d.setLock r fun l => { l with state := .free }).grantNext m with
      | none => exact .refl _
      | some d' => exact (Frame.grantNext h).trans (Frame.setLock d' r _)
    · exact .refl _
  · exact .refl d

theorem frame_processUnlock (d : Daemon) (m : CpgLockMsg) : Frame d (d.processUnlock m) := by
  unfold processUnlock
  split
  · exact .refl d
  · exact Frame.iter (frame_unlockEntry m) _ _

/-- A message of which the membership takes no notice. -/
theorem frame_processRequest (d : Daemon) {m : CpgLockMsg} (nodeid pid : UInt32) (now : Nat)
    (hj : m.request ≠ .join) (hh : m.request ≠ .halt) :
    Frame d (d.processRequest m nodeid pid now) := by
  refine (Frame.tables d d.requests d.locks d.localLockid (d.history.oldMsg m)).trans ?_
  unfold processRequest
  dsimp only
  split
  · next h => exact absurd h hh
  · exact frame_processLock _ m now
  · exact frame_processNak _ m
  · exact frame_processGrant _ m
  · exact frame_processUnlock _ m
  · exact .tables _ _ _ _ _
  · next h => exact absurd h hj
  · exact .refl _

/-! ## Configuration changes -/

theorem grows_removeMember (d : Daemon) (x : MemberItem) : Grows d (d.removeMember x) :=
  (Grows.assign d { d.toMembership with groupMembers := d.groupMembers.erase x } d.history).trans
    (frame_delNode _ x.nodeid).toGrows

theorem removeMember_toMembership (d : Daemon) (x : MemberItem) :
    (d.removeMember x).toMembership =
      { d.toMembership with groupMembers := d.groupMembers.erase x } :=
  (frame_delNode { d with groupMembers := d.groupMembers.erase x } x.nodeid).membership

/-- The loop over the departed members, on the membership. -/
theorem foldl_dropLeft (left : List MemberItem) (p : Daemon × Int) :
    Grows p.1 (left.foldl dropLeft p).1 ∧
      ((left.foldl dropLeft p).1.toMembership, (left.foldl dropLeft p).2) =
        left.foldl Membership.dropLeft (p.1.toMembership, p.2) := by
  induction left generalizing p with
  | nil => exact ⟨.refl _, rfl⟩
  | cons x left ih =>
    have hx : Grows p.1 (dropLeft p x).1 ∧
        ((dropLeft p x).1.toMembership, (dropLeft p x).2) =
          Membership.dropLeft (p.1.toMembership, p.2) x := by
      unfold dropLeft Membership.dropLeft
      dsimp only
      split
      · exact ⟨.refl _, rfl⟩
      · split
        · split
          · exact ⟨.assign p.1 { p.1.toMembership with stopped := true } p.1.history, rfl⟩
          · exact ⟨grows_removeMember _ x, by rw [removeMember_toMembership]⟩
        · exact ⟨.refl _, rfl⟩
    rw [List.foldl_cons, List.foldl_cons, ← hx.2]
    exact ⟨hx.1.trans (ih _).1, (ih _).2⟩

theorem grows_cpgConfigChange (d : Daemon) (members left join : List MemberItem) :
    Grows d (d.cpgConfigChange members left join) :=
  (Grows.assign d (d.toMembership.setUp members join)
    (d.history.oldMsg { CpgLockMsg.blank .confchg with resource := .none })).trans
    (((foldl_dropLeft left (_, 0)).1).trans (.assign _ (Membership.settle _ _) _))

@[simp] theorem cpgConfigChange_toMembership (d : Daemon) (members left join : List MemberItem) :
    (d.cpgConfigChange members left join).toMembership =
      d.toMembership.configChange members left join := by
  have h := (foldl_dropLeft left ({ d with
    history := d.history.oldMsg { CpgLockMsg.blank .confchg with resource := .none }
    toMembership := d.toMembership.setUp members join }, 0)).2
  simp only [Membership.configChange, ← h]
  rfl

/-! ## Deliveries -/

end Daemon

/-- What a delivery does to the membership. -/
def Membership.deliver (g : Membership) : Event → Membership
  | .msg s m =>
    match m.request with
    | .join => g.processJoin s.nodeid s.pid
    | .halt => { g with stopped := true }
    | _ => g
  | .confchg members left join => g.configChange (members g.myNodeId) left join

theorem Membership.deliver_msg_of_ne {g : Membership} {s : MemberItem} {m : CpgLockMsg}
    (hj : m.request ≠ .join) (hh : m.request ≠ .halt) : g.deliver (.msg s m) = g := by
  show (match m.request with
    | .join => g.processJoin s.nodeid s.pid
    | .halt => { g with stopped := true }
    | _ => g) = g
  split
  · next h => exact absurd h hj
  · next h => exact absurd h hh
  · rfl

namespace Daemon

theorem grows_deliver (d : Daemon) (now : Nat) (e : Event) : Grows d (d.deliver now e) := by
  cases e with
  | confchg members left join => exact grows_cpgConfigChange d _ left join
  | msg s m =>
    by_cases hj : m.request = .join
    · simp only [deliver, processRequest, hj]
      exact .assign d (d.toMembership.processJoin s.nodeid s.pid) _
    · by_cases hh : m.request = .halt
      · simp only [deliver, processRequest, hh]
        exact .assign d { d.toMembership with stopped := true } _
      · exact (frame_processRequest d s.nodeid s.pid now hj hh).toGrows

theorem deliver_toMembership (d : Daemon) (now : Nat) (e : Event) :
    (d.deliver now e).toMembership = d.toMembership.deliver e := by
  cases e with
  | confchg members left join => exact cpgConfigChange_toMembership d _ left join
  | msg s m =>
    by_cases hj : m.request = .join
    · simp only [deliver, processRequest, hj, Membership.deliver]
      rfl
    · by_cases hh : m.request = .halt
      · simp only [deliver, processRequest, hh, Membership.deliver]
      · rw [deliver, (frame_processRequest d s.nodeid s.pid now hj hh).membership,
          Membership.deliver_msg_of_ne hj hh]

end Daemon

end Cpglock
