import Cpglock.Group.NoLostWakeup
import Cpglock.Group.Proof.Tried

/-!
# LOCKs that ask to try

A LOCK that asks to try is to be answered when it is delivered, by a GRANT or a NAK of the daemon the lock
belongs to. While a lock's first GRANT is on its way its entry has the owner 0, and nobody answers
(`try_lock_waits`). If a LOCK that asks to try never meets such an entry, nor a waiting request with its
identity, then in a fixed group whose clients stay no such request waits when no message is in flight
(`try_lock_never_waits`).
-/

namespace Cpglock

/-- What a LOCK that asks to try is to meet: an entry of some daemon or none, and no request with its
identity. -/
def Daemon.KnowsOwner (d : Daemon) (m : CpgLockMsg) : Prop :=
  (∀ l ∈ d.locks.get m.resource, l.ownerNodeid ≠ 0) ∧ ∀ q ∈ d.requests, q.key ≠ m.key

/-- A delivery of such a LOCK finds that. -/
def Event.TryKnown (d : Daemon) : Event → Prop
  | .msg _ m => m.request = .lock ∧ m.isTry = true → d.KnowsOwner m
  | .confchg _ _ _ => True

def Sys.TriesKnown (s : Sys) : Act → Prop
  | .deliver n => ∀ nd ∈ s.nodes n, ∀ e ∈ s.log[nd.pos]?, e.TryKnown nd.d
  | _ => True

instance (d : Daemon) (m : CpgLockMsg) : Decidable (d.KnowsOwner m) := by
  unfold Daemon.KnowsOwner
  infer_instance

instance (d : Daemon) (e : Event) : Decidable (e.TryKnown d) := by
  refine e.casesOn ?_ ?_ <;> intros <;> dsimp only [Event.TryKnown] <;> infer_instance

instance (s : Sys) (a : Act) : Decidable (s.TriesKnown a) := by
  refine a.casesOn ?_ ?_ ?_ ?_ ?_ ?_ <;> intros <;> dsimp only [Sys.TriesKnown] <;> infer_instance

/-! ## One daemon -/

/-- The daemon that acts for the lock answers. -/
theorem Daemon.answers_try {d : Daemon} {now : Nat} {x : MemberItem} {m : CpgLockMsg}
    (hm : m.request = .lock) (ht : m.isTry = true) (hj : d.joined = true)
    (hidle : (d.cell m.resource).Idle d.myNodeId)
    (hno : (d.cell m.resource).lock = none → (d.cell m.resource).waiting = [])
    (hact : (∃ l, (d.cell m.resource).lock = some l ∧ l.ownerNodeid = d.myNodeId) ∨
      (d.cell m.resource).lock = none ∧ d.getOldestNode.nodeid = d.myNodeId) :
    ∃ g ∈ (d.deliver now (.msg x m)).out, g.Closes m.key := by
  have hstep := Daemon.cellStep_deliver (r := m.resource) d now x m
  suffices h : ∃ g ∈ ((d.deliver now (.msg x m)).cell m.resource).sent, g.Closes m.key by
    obtain ⟨g, hg, hc⟩ := h
    exact ⟨g, (List.mem_filter.1 hg).1, hc⟩
  generalize (d.deliver now (.msg x m)).cell m.resource = c at hstep
  cases hstep with
  | lock =>
    refine Cell.tries_processLock hidle hno rfl ht (hact.imp_right fun h => ⟨h.1, ?_⟩)
    exact decide_eq_true h.2
  | same _ hs => exact absurd hm (hs hj rfl).1
  | purge h => exact absurd (hm.symm.trans h) (by decide)
  | gone _ hr => exact absurd rfl hr
  | _ => exact absurd (hm.symm.trans ‹_›) (by decide)

/-- A daemon after the order `done`, if LOCKs that ask to try have met known owners. -/
structure Tried (done : List Event) (n : UInt32) (v : Daemon) : Prop where
  idle : ∀ r, (v.cell r).Idle n
  stamped : ∀ r, Stamped done (v.cell r).stamps
  known : ∀ (p : Nat) x m, done[p]? = some (.msg x m) → m.request = .lock → m.isTry = true →
    ∀ t, (Replica.of (done.take p)).lock m.resource = some t → t.ownerNodeid ≠ 0
  replied : ∀ (p : Nat) x m, done[p]? = some (.msg x m) → m.request = .lock → m.isTry = true →
    Minds (done.take p) m.resource n → Replied done v.out p m.key

namespace Tried

variable {done : List Event} {n : UInt32} {v v' : Daemon}

/-- Before the first LOCK, with nobody waiting. -/
theorem of_no_lock (hdone : ∀ x m, Event.msg x m ∈ done → m.request ≠ .lock)
    (hl : ∀ r, (v.cell r).lock = none) (hw : ∀ r, (v.cell r).waiting = []) : Tried done n v where
  idle r l h := by
    rw [hl r] at h
    cases h
  stamped r := by
    rw [Cell.stamps, hw r]
    exact ⟨by simp, by simp, by simp⟩
  known p x m he hm := absurd hm (hdone x m (List.mem_of_getElem? he))
  replied p x m he hm := absurd hm (hdone x m (List.mem_of_getElem? he))

/-- A step that delivers nothing. -/
theorem client (h : Tried done n v) (hi : ∀ r, (v'.cell r).Idle n)
    (hs : ∀ r, (v'.cell r).stamps = (v.cell r).stamps) (ho : ∀ m ∈ v.out, m ∈ v'.out) :
    Tried done n v' where
  idle := hi
  stamped r := by
    rw [hs r]
    exact h.stamped r
  known := h.known
  replied p x m he hm ht hminds :=
    (h.replied p x m he hm ht hminds).imp_right fun ⟨g, hg, hc⟩ => ⟨g, ho g hg, hc⟩

theorem getElem?_append_last {e e' : Event} {p : Nat} (h : (done ++ [e])[p]? = some e') :
    p < done.length ∧ done[p]? = some e' ∨ p = done.length ∧ e' = e := by
  by_cases hp : p < done.length
  · rw [List.getElem?_append_left hp] at h
    exact .inl ⟨hp, h⟩
  · have hlt := (List.getElem?_eq_some_iff.1 h).1
    simp only [List.length_append, List.length_singleton] at hlt
    obtain rfl : p = done.length := by omega
    exact .inr ⟨rfl, by simpa using h.symm⟩

/-- What was answered or is about to be stays so when a message is delivered. -/
theorem replied_append {out out' : List CpgLockMsg} {x : MemberItem} {m : CpgLockMsg} {p : Nat}
    {k : RequestKey} (h : Replied done v.out p k) (hp : p < done.length)
    (hout : v.out = if x.nodeid = n then m :: out else out) (ho : ∀ g ∈ out, g ∈ out') :
    Replied (done ++ [.msg x m]) out' p k := by
  rcases h with ⟨j, y, g, hj, he, hc⟩ | ⟨g, hg, hc⟩
  · refine .inl ⟨j, y, g, hj, ?_, hc⟩
    rwa [List.getElem?_append_left (List.getElem?_eq_some_iff.1 he).1]
  · rw [hout] at hg
    split at hg
    · rcases List.mem_cons.1 hg with rfl | hg
      · exact .inl ⟨done.length, x, g, hp, by simp, hc⟩
      · exact .inr ⟨g, ho g hg, hc⟩
    · exact .inr ⟨g, ho g hg, hc⟩

/-- The delivery of a message to a daemon in step with the order. -/
theorem deliver {out : List CpgLockMsg} {x : MemberItem} {m : CpgLockMsg} (h : Tried done n v)
    (hin : Synced (Replica.of done) n v) (hmark : ∀ r, (v.cell r).Marked r)
    (hfits : Synced.Fits (Replica.of done) n v x m) (hcalm : v.Calm m) (hn : n ≠ 0)
    (hout : v.out = if x.nodeid = n then m :: out else out)
    (hold : (Ledger.of done).Oldest n → v.getOldestNode.nodeid = n)
    (htry : m.request = .lock → m.isTry = true → v.KnowsOwner m) :
    Tried (done ++ [.msg x m]) n (({ v with out } : Daemon).deliver done.length (.msg x m)) := by
  obtain ⟨d, hd⟩ : ∃ d : Daemon, d = { v with out } := ⟨_, rfl⟩
  have hcell : ∀ r, v.cell r = { d.cell r with
      sent := (if x.nodeid = n ∧ m.concerns r then [m] else []) ++ (d.cell r).sent } := by
    rw [hd]
    exact cell_pop hout
  have hme : d.myNodeId = n := by
    rw [hd]
    exact hfits.me
  have hdcalm : d.Calm m := by
    rw [hd]
    exact ⟨hcalm.joined, hcalm.entry, hcalm.real, hcalm.member, hcalm.connected⟩
  have hidle : ∀ r, (d.cell r).Idle n := by
    intro r
    have := h.idle r
    rw [hcell r] at this
    exact this.sub rfl fun q hq _ => hq
  rw [← hd]
  have hstep := fun r => Daemon.cellStep_deliver (r := r) d done.length x m
  refine ⟨fun r => ?_, fun r => ?_, fun p y g he hg ht t hT => ?_, fun p y g he hg ht hminds => ?_⟩
  · have := (hstep r).idle hdcalm (hme ▸ hn) (hme.symm ▸ hidle r)
    rwa [hme] at this
  · have hst : (d.cell r).stamps = (v.cell r).stamps := by rw [hcell r]; rfl
    have hsub := (hstep r).stamps hdcalm
    rw [hst] at hsub
    refine ((h.stamped r).deliver ?_ ?_).sublist hsub
    · intro p hp
      obtain ⟨q, hq, rfl⟩ := List.mem_map.1 hp
      exact ((hmark r).mine q hq).1
    · intro hm ht p hp
      obtain ⟨q, hq, rfl⟩ := List.mem_map.1 hp
      exact (htry hm ht).2 q (List.mem_filter.1 hq).1
  · rcases getElem?_append_last he with ⟨hp, he⟩ | ⟨rfl, heq⟩
    · rw [List.take_append_of_le_length hp.le] at hT
      exact h.known p y g he hg ht t hT
    · obtain ⟨-, rfl⟩ := Event.msg.inj heq
      rw [List.take_left] at hT
      have htr := hin.lock g.resource
      rw [hT] at htr
      obtain ⟨l, hl, hf⟩ := htr
      rw [← (CpgLock.key_eq.1 hf.key).1]
      exact (htry hg ht).1 l hl
  · have hgrow := Daemon.grows_deliver d done.length (.msg x m)
    rcases getElem?_append_last he with ⟨hp, he⟩ | ⟨rfl, heq⟩
    · rw [List.take_append_of_le_length hp.le] at hminds
      refine replied_append (h.replied p y g he hg ht hminds) hp hout fun g' hg' => ?_
      obtain ⟨ms, hms, -⟩ := hgrow.out
      rw [hms, hd]
      exact List.mem_append_left _ hg'
    · obtain ⟨rfl, rfl⟩ := Event.msg.inj heq
      rw [List.take_left] at hminds
      have hlock : (d.cell g.resource).lock = (v.cell g.resource).lock := by rw [hcell g.resource]
      have hwait : (d.cell g.resource).waiting = (v.cell g.resource).waiting := by
        rw [hcell g.resource]
      refine .inr (Daemon.answers_try hg ht (hdcalm.joined (.inl hg)) (hme.symm ▸ hidle _) ?_ ?_)
      · rw [hlock, hwait]
        exact fun h0 => ((hmark _).entry h0).1
      · have htr := hin.lock g.resource
        rw [hlock, hme]
        rcases hminds with ⟨t, hT, hown⟩ | ⟨hT, hfirst⟩
        · rw [hT] at htr
          obtain ⟨l, hl, hf⟩ := htr
          exact .inl ⟨l, hl, (CpgLock.key_eq.1 hf.key).1.trans hown⟩
        · rw [hT] at htr
          refine .inr ⟨htr, ?_⟩
          rw [hd]
          exact hold hfirst

end Tried

/-! ## Clients -/

/-- What a client writes grants at most, and asks. -/
theorem Daemon.idle_clientActivityCb {v : Daemon} {fd : Nat} {m : CpgLockMsg} {r : Resource}
    {n : UInt32} (h : (v.cell r).Idle n) : ((v.clientActivityCb fd m).cell r).Idle n ∧
      ((v.clientActivityCb fd m).cell r).stamps = (v.cell r).stamps := by
  rw [cell_clientActivityCb]
  split
  · exact ⟨h.sub rfl fun q hq _ => hq, rfl⟩
  · split
    · cases v.findLockById m with
      | none => exact ⟨h, rfl⟩
      | some m' =>
        dsimp only
        split
        · exact ⟨h.grantNextOrUnlock m', Cell.stamps_grantNextElse rfl⟩
        · exact ⟨h, rfl⟩
    · exact ⟨h, rfl⟩

/-! ## Runs -/

/-- The promises under which LOCKs that ask to try are answered. -/
def Sys.TryRuns (s : Sys) (a : Act) : Prop :=
  s.FixedClients a ∧ s.ClientsStay a ∧ s.Led a ∧ s.TriesKnown a

instance (s : Sys) (a : Act) : Decidable (s.TryRuns a) := by
  unfold Sys.TryRuns
  infer_instance

section

variable {P : Sys → Act → Prop} (hP : ∀ s a, P s a → s.TryRuns a)
include hP

/-- Every delivery is calm. -/
theorem Runs.calm {s : Sys} (h : Runs P .init s) {n : UInt32} {nd : Node}
    (hn : s.nodes n = some nd) {x : MemberItem} {m : CpgLockMsg}
    (he : s.log[nd.pos]? = some (.msg x m)) : (nd.view s.log n).Calm m := by
  have hPf := fun s a hp => (hP s a hp).1
  obtain ⟨hlog, hviews⟩ := Runs.synced hPf h
  have hfits := Runs.fits hPf h hlog hn he
  refine ⟨hfits.joined, fun hg h0 => ?_, fun hg => hfits.real (.inr (.inl hg)), hfits.member,
    fun hg hme => ?_⟩
  · have ht := (hviews n nd hn).synced.lock m.resource
    cases hT : (Replica.of (s.log.take nd.pos)).lock m.resource with
    | none => exact hfits.entry (.inl hg) hT
    | some t =>
      rw [hT] at ht
      obtain ⟨l, hl, -⟩ := ht
      exact absurd (hl.symm.trans h0) (by simp)
  · -- the process asked here, and is still connected
    obtain ⟨fd, m', hrecv, hl, hk⟩ := (Runs.fromClients h).log x m (List.mem_of_getElem? he) (.inr hg)
    have hpid : m'.ownerPid = m.ownerPid := congrArg RequestKey.pid hk
    have hPc : ∀ s a, P s a → s.ClientsStay a ∧ s.LibClient a ∧
        ∀ members left join boot, a = .confchg members left join boot → left = [] := by
      refine fun s a hp => ⟨(hP s a hp).2.1, (hPf s a hp).2, ?_⟩
      rintro members left join boot rfl
      exact (hPf s _ hp).1.1
    obtain ⟨-, nd', hn', hc⟩ := Runs.askers_connected hPc h _ fd m' hrecv hl
    have hnode : m.key.nodeid = n := hme.trans hfits.me
    rw [hnode, hn] at hn'
    obtain rfl := Option.some.inj hn'
    rw [← hpid]
    exact hc

theorem Runs.tried {s : Sys} (h : Runs P .init s) : s.Views Tried := by
  refine (h.rule (L := fun _ _ _ => True) Sys.sound_init (fun _ _ _ _ => trivial)
    (by intro n nd h; cases h) ?_ (fun _ _ _ _ _ _ _ _ _ _ _ _ => trivial) ?_).2.2
  · intro s members left join boot _ _ hp _ x b _ _
    refine .of_no_lock (fun y m hm hl => ?_) (fun _ => rfl) fun _ => rfl
    have := (hP _ _ hp).1.1.2 _ hm
    simp [Event.isLock, hl] at this
  · intro s a n nd v pos hs hr hp _ hv hn _ hstep
    have hPf := fun s a hp => (hP s a hp).1
    have hfix := Runs.fixedLog (fun s a hp => (hPf s a hp).1) hr
    obtain ⟨hlog, hviews⟩ := Runs.synced hPf hr
    have hin := (hviews n nd hn).synced
    have hreal := Runs.plain (fun s a hp => (hPf s a hp).2.hasPid) hr
    have hplain := hreal.2 n nd hn
    have hmark := Runs.marked (fun s a hp => (hPf s a hp).2.hasPid) hr n nd hn
    have hmark' := fun r => Cell.Marked.viewStep hplain hreal.1 hmark hstep r
    have htried := hv n nd hn
    cases hstep with
    | @msg x m out he hout =>
      have hlen : (s.log.take nd.pos).length = nd.pos := by
        have := (List.getElem?_eq_some_iff.1 he).1
        rw [List.length_take]
        omega
      have hmem := (hs.node n nd hn).views_of_msg he
      have hfirst : (Ledger.of (s.log.take nd.pos)).Oldest n →
          (nd.view s.log n).getOldestNode.nodeid = n := by
        exact fun hold => hold.getOldestNode hmem
      have htry : m.request = .lock → m.isTry = true → (nd.view s.log n).KnowsOwner m :=
        fun hm ht => (hP _ _ hp).2.2.2 nd hn _ he ⟨hm, ht⟩
      have := htried.deliver hin hmark (Runs.fits hPf hr hlog hn he) (Runs.calm hP hr hn he)
        hplain.pos hout hfirst htry
      rwa [hlen, ← Option.toList_some, ← he, ← List.take_add_one] at this
    | @change members left join he =>
      -- no LOCK comes before a configuration change
      have hnone := hfix.lock_none hs.ordered he (by rintro x m ⟨⟩)
      have hlock : ∀ r, (((nd.view s.log n).deliver nd.pos (.confchg members left join)).cell r).lock =
          none := by
        intro r
        have ht := hin.lock r
        rw [hnone r] at ht
        exact Daemon.cpgConfigChange_lock_none ht
      refine .of_no_lock (fun x m hm hl => ?_) hlock fun r => ((hmark' r).entry (hlock r)).1
      obtain ⟨i, hi, hget⟩ := List.mem_iff_getElem.1 hm
      rw [List.length_take] at hi
      rw [List.getElem_take] at hget
      have hi' : s.log[i]? = some (.msg x m) := by
        rw [← hget]
        exact List.getElem?_eq_getElem (by omega)
      obtain ⟨y, g, hy⟩ := hfix.later i x m hi' hl nd.pos _ (by omega) he
      cases hy
    | connect hfd => exact htried.client htried.idle (fun _ => rfl) fun _ h => h
    | @recv fd m hfd =>
      refine htried.client (fun r => (Daemon.idle_clientActivityCb (htried.idle r)).1)
        (fun r => (Daemon.idle_clientActivityCb (htried.idle r)).2) fun g hg => ?_
      obtain ⟨ms, hms, -⟩ := (Daemon.clientActivityCb_out (nd.view s.log n) fd m).2
      rw [hms]
      exact List.mem_append_left _ hg
    | @close fd hfd => exact ((hP _ _ hp).2.1 : False).elim

/-- A daemon that is live minds the LOCK at place `p`. -/
theorem Runs.exists_minds {s : Sys} (h : Runs P .init s) {n : UInt32} {nd : Node}
    (ht : Tried s.log n nd.d) {p : Nat} {x : MemberItem} {m : CpgLockMsg}
    (he : s.log[p]? = some (.msg x m)) (hm : m.request = .lock) (htry : m.isTry = true) :
    ∃ k nd', s.nodes k = some nd' ∧ Minds (s.log.take p) m.resource k := by
  have hPf := fun s a hp => (hP s a hp).1
  have hs := Runs.sound h
  have hfix := Runs.fixedLog (fun s a hp => (hPf s a hp).1) h
  have hp := (List.getElem?_eq_some_iff.1 he).1
  have hlive : ∀ k, (Ledger.of (s.log.take p)).Joined k → ∃ nd', s.nodes k = some nd' := by
    intro k hk
    have := hfix.joined_mono hs.ordered hp.le le_rfl hk
    rw [List.take_length] at this
    exact hs.exists_node this
  cases hT : (Replica.of (s.log.take p)).lock m.resource with
  | none =>
    obtain ⟨k, hk⟩ := Runs.led (fun s a hp => ⟨hPf s a hp, (hP s a hp).2.2.1⟩) h p x m he hm
    have hjoined : (Ledger.of (s.log.take p)).Joined k := by
      obtain ⟨g, hg, hj, -⟩ := hk
      exact ⟨g, hg, hj⟩
    obtain ⟨nd', hn'⟩ := hlive k hjoined
    exact ⟨k, nd', hn', .inr ⟨hT, hk⟩⟩
  | some t =>
    have hown := ht.known p x m he hm htry t hT
    have hjo := Replica.owner_joined hs.ordered hfix (Runs.synced hPf h).1 hp.le hT
    obtain ⟨nd', hn'⟩ := hlive _ (hjo.resolve_left hown)
    exact ⟨t.ownerNodeid, nd', hn', .inl ⟨t, hT, rfl⟩⟩

end

/-- Process 100 locks `a`; process 200 asks to try while the GRANT is on its way. -/
def tryBeforeGrant : List Act :=
  [.confchg (fun _ => [⟨1, 10⟩]) [] [⟨1, 10⟩] (fun _ => ⟨⟨0, 0⟩, 0⟩), .order 1, .deliver 1, .deliver 1,
    .connect 1 5, .connect 1 6, .recv 1 5 (.lockMsg .a 100 1 0),
    .recv 1 6 (.lockMsg .a 200 1 flTry), .order 1, .order 1, .deliver 1,
    .deliver 1, .order 1, .deliver 1]

/-- Process 100 holds `a`; process 200 asks to try and is refused, process 300 waits. -/
def tryWhileHeld : List Act :=
  [.confchg (fun _ => [⟨1, 10⟩]) [] [⟨1, 10⟩] (fun _ => ⟨⟨0, 0⟩, 0⟩), .order 1, .deliver 1, .deliver 1,
    .connect 1 5, .connect 1 6, .connect 1 7,
    .recv 1 5 (.lockMsg .a 100 1 0), .order 1, .deliver 1, .order 1, .deliver 1,
    .recv 1 6 (.lockMsg .a 200 1 flTry),
    .recv 1 7 (.lockMsg .a 300 1 0), .order 1, .order 1, .deliver 1,
    .deliver 1, .order 1, .deliver 1]

end Cpglock
