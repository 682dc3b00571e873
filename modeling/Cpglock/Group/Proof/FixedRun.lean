import Cpglock.Group.Proof.Synced

/-!
# Runs of a fixed group

`Runs.synced`: in every reachable state every daemon is in step with the replica at its place in the
order, and every message of the order fits the replica there (`FixedMsg`).
-/

namespace Cpglock

/-- What a message of node `x` is like after the order `done`. -/
structure FixedMsg (done : List Event) (x : UInt32) (m : CpgLockMsg) : Prop where
  entry : m.OfEntry → (Replica.of done).lock m.resource ≠ none
  own : m.request = .lock ∨ m.request = .purge → m.ownerNodeid = x ∧ m.ownerPid ≠ 0
  member : m.request = .lock ∨ m.request = .grant → (Ledger.of done).Joined m.ownerNodeid

/-- The node of a request is this one or has joined. -/
def Member (done : List Event) (n : UInt32) (k : RequestKey) : Prop :=
  k.nodeid = n ∨ (Ledger.of done).Joined k.nodeid

/-- What a daemon is like after the order `done`. -/
structure InStep (done : List Event) (n : UInt32) (v : Daemon) : Prop where
  synced : Synced (Replica.of done) n v
  members : ∀ r, (v.cell r).All (Member done n)

/-- Before the first LOCK there is nothing. -/
theorem Replica.of_eq_init {log : List Event}
    (h : ∀ x m, Event.msg x m ∈ log → m.request ≠ .lock) : Replica.of log = Replica.init := by
  induction log using List.reverseRecOn with
  | nil => rfl
  | append_singleton log e ih =>
    rw [of_append, ih fun x m hm => h x m (List.mem_append_left _ hm)]
    cases e with
    | confchg => rfl
    | msg x m =>
      have hm := h x m (by simp)
      simp only [step, deliver, init, Replica.mk.injEq]
      refine ⟨?_, ?_⟩
      · unfold CpgLockMsg.requeue
        split <;> first | rfl | contradiction
      · funext r
        unfold CpgLockMsg.relock
        split
        · split <;> first | rfl | contradiction
        · rfl

/-- Where nobody leaves a daemon that has joined stays. -/
theorem WellOrdered.joined_mono {log : List Event} (hw : WellOrdered log)
    (hleft : ∀ members left join, Event.confchg members left join ∈ log → left = [])
    {n : UInt32} {j k : Nat} (hjk : j ≤ k) (hk : k ≤ log.length)
    (hj : (Ledger.of (log.take j)).Joined n) : (Ledger.of (log.take k)).Joined n := by
  induction k, hjk using Nat.le_induction with
  | base => exact hj
  | succ k _ ih =>
    obtain ⟨e, he⟩ : ∃ e, log[k]? = some e := ⟨_, List.getElem?_eq_getElem (by omega)⟩
    obtain ⟨g, hg, hgj⟩ := ih (by omega)
    have hinv := hw.inv k (by omega)
    have hstays : Stays n e := by
      rintro members left join rfl
      obtain rfl := hleft members left join (List.mem_of_getElem? he)
      refine ⟨by simp, ?_⟩
      rw [List.find?_eq_none]
      intro x hx hxn
      have := (hw k _ he).1 x hx
      rw [show x.nodeid = n by simpa using hxn, hg] at this
      cases this
    rw [Ledger.of_take_succ he]
    exact ⟨_, Ledger.viewsAfter_of_stays hstays hg (hinv.self n g hg).1,
      Membership.deliver_joined_mono e hgj⟩

/-- In a fixed group a daemon that has joined stays. -/
theorem FixedLog.joined_mono {log : List Event} (h : FixedLog log) (hw : WellOrdered log)
    {n : UInt32} {j k : Nat} (hjk : j ≤ k) (hk : k ≤ log.length)
    (hj : (Ledger.of (log.take j)).Joined n) : (Ledger.of (log.take k)).Joined n :=
  hw.joined_mono h.left hjk hk hj

/-- From the first entry on every live daemon has joined. -/
theorem FixedLog.formed_of_entry {log : List Event} (h : FixedLog log) {k : Nat}
    (hk : k ≤ log.length) {r : Resource} (hr : (Replica.of (log.take k)).lock r ≠ none) :
    (Ledger.of (log.take k)).Formed := by
  obtain ⟨x, m, hm, hl, -⟩ := Replica.exists_lock hr
  exact h.formed_of_lock hk hm hl

theorem InStep.start (x : MemberItem) (b : Boot) {done : List Event}
    (h : ∀ x m, Event.msg x m ∈ done → m.request ≠ .lock) :
    InStep done x.nodeid (.start x b) := by
  have hout : ∀ m ∈ (Daemon.start x b).out, m.request = .join := by
    intro m hm
    simp only [Daemon.start, Daemon.sendJoin, Daemon.sendLockMsg, List.nil_append,
      List.mem_singleton] at hm
    rw [hm]
    rfl
  have hcell : ∀ r, ∀ m ∈ ((Daemon.start x b).cell r).sent, m.request = .join :=
    fun r m hm => hout m (List.mem_filter.1 hm).1
  constructor
  · rw [Replica.of_eq_init h]
    refine ⟨.refl _ _, fun r => rfl, fun r p _ _ => ?_, fun m hm hr => ?_⟩
    · have : ∀ l : List CpgLockMsg, (∀ m ∈ l, m.request = .join) →
          asks r x.nodeid p false l = false := by
        intro l
        induction l with
        | nil => exact fun _ => rfl
        | cons m l ih =>
          intro hm
          have hmj := hm m List.mem_cons_self
          rw [asks, List.foldl_cons, show m.ask r x.nodeid p false = false by
            simp [CpgLockMsg.ask, CpgLockMsg.AsksFor, CpgLockMsg.Purges, hmj]]
          exact ih fun m' h' => hm m' (List.mem_cons_of_mem _ h')
      exact this _ (hcell r)
    · rw [hout m hm] at hr
      simp at hr
  · refine fun r => ⟨fun q hq => ?_, fun m hm hr => ?_⟩
    · cases hq
    · rw [hcell r m hm] at hr
      simp at hr

section

variable {P : Sys → Act → Prop} (hP : ∀ s a, P s a → s.FixedClients a)
include hP

/-- A daemon that is delivered a message about an entry, or a LOCK, has joined. -/
theorem Runs.fits {s : Sys} (h : Runs P .init s) (hlog : Ordered FixedMsg s.log)
    {n : UInt32} {nd : Node} (hn : s.nodes n = some nd) {x : MemberItem} {m : CpgLockMsg}
    (he : s.log[nd.pos]? = some (.msg x m)) :
    Synced.Fits (Replica.of (s.log.take nd.pos)) n (nd.view s.log n) x m := by
  have hs := Runs.sound h
  have hfix := Runs.fixedLog (fun s a hp => (hP s a hp).1) h
  obtain ⟨hreal, hplain⟩ := Runs.plain (fun s a hp => (hP s a hp).2.hasPid) h
  have hb := hs.bounded n nd hn
  have hviews := (hs.node n nd hn).views_of_msg he
  have hm := hlog nd.pos x m he
  have hinv := hs.ordered.inv nd.pos hb
  have hme : (nd.view s.log n).myNodeId = n := (hplain n nd hn).me
  have hjoined : m.request = .lock ∨ m.OfEntry → (nd.view s.log n).joined = true := by
    intro hlo
    have hf : (Ledger.of (s.log.take nd.pos)).Formed := by
      rcases hlo with hl | ho
      · exact hfix.formed nd.pos x m he hl
      · exact hfix.formed_of_entry hb (hm.entry ho)
    obtain ⟨g, hg, hj⟩ := hf n (by rw [hviews]; rfl)
    obtain rfl := Option.some.inj (hviews.symm.trans hg)
    exact hj
  refine ⟨hme, hjoined, hm.entry, fun hg => ?_, hreal nd.pos x m he, hm.own⟩
  have hj := hjoined (.inr (.inl hg))
  have hmem : m.ownerNodeid ∈ nd.d.toMembership.ids := by
    by_cases hc : m.ownerNodeid = n
    · rw [hc]
      exact (hinv.self n _ hviews).2.2 hj
    · exact hinv.listed n _ _ hviews (hm.member (.inr hg)) hc
  have hlisted : (nd.view s.log n).isMember m.ownerNodeid = true := by
    obtain ⟨y, hy, hyn⟩ := List.mem_map.1 hmem
    exact List.any_eq_true.2 ⟨y, hy, by simpa using hyn⟩
  simp [Daemon.lost, hlisted]

theorem Runs.synced {s : Sys} (h : Runs P .init s) :
    Ordered FixedMsg s.log ∧ s.Views InStep := by
  refine (h.rule Sys.sound_init (by intro k x m h; simp [Sys.init] at h)
    (by intro n nd h; cases h) ?_ ?_ ?_).2
  · intro s members left join boot _ _ hp _ x b _ _
    refine .start x b fun y m hm hl => ?_
    simpa [Event.isLock, hl] using (hP _ _ hp).1.2 _ hm
  · intro s n nd m out hs hr hp hlog hv hn hout
    have hfix := Runs.fixedLog (fun s a hp => (hP s a hp).1) hr
    have hmark := Runs.marked (fun s a hp => (hP s a hp).2.hasPid) hr n nd hn
    have hb := hs.bounded n nd hn
    have hstep := hv n nd hn
    have hmem : m ∈ (nd.view s.log n).out := Node.mem_view hout
    have hlive : ((Ledger.of s.log).views n).isSome := by rw [hs.views, hn]; rfl
    have hgroup : (⟨n, nd.d.myPid⟩ : MemberItem) ∈ s.group := (hs.group _).2 ⟨nd, hn, rfl⟩
    have hentry : m.OfEntry → (Replica.of s.log).lock m.resource ≠ none := by
      intro ho
      have hcell : ((nd.view s.log n).cell m.resource).lock ≠ none :=
        fun h0 => ((hmark m.resource).entry h0).2 m (Daemon.mem_cell hmem) ho
      have ht := hstep.synced.lock m.resource
      have hd : (Replica.of (s.log.take nd.pos)).lock m.resource ≠ none := by
        intro h0
        rw [h0] at ht
        exact hcell ht
      have := Replica.lock_mono hb hd
      rwa [List.take_length] at this
    refine ⟨hentry, hstep.synced.mine m hmem, fun hlg => ?_⟩
    rcases hlg with hl | hg
    · rw [(hstep.synced.mine m hmem (.inl hl)).1]
      exact (hP _ _ hp).1 nd hn m (by simp [hout]) hl _ hgroup
    · have hmember : Member (s.log.take nd.pos) n m.key :=
        Cell.All.of_out hstep.members hmem (.inr (.inl hg))
      rcases hmember with heq | hj
      · have hf := hfix.formed_of_entry (k := s.log.length) le_rfl (r := m.resource)
          (by rw [List.take_length]; exact hentry (.inl hg))
        rw [List.take_length] at hf
        exact (show m.ownerNodeid = n from heq) ▸ hf n hlive
      · have := hfix.joined_mono hs.ordered hb le_rfl hj
        rwa [List.take_length] at this
  · intro s a n nd v pos hs hr hp hlog hv hn _ hstep
    have hfix := Runs.fixedLog (fun s a hp => (hP s a hp).1) hr
    have hin := hv n nd hn
    have hb := hs.bounded n nd hn
    have hme : (nd.view s.log n).myNodeId = n :=
      ((Runs.plain (fun s a hp => (hP s a hp).2.hasPid) hr).2 n nd hn).me
    have hmono : nd.pos + 1 ≤ s.log.length → ∀ k, Member (s.log.take nd.pos) n k →
        Member (s.log.take (nd.pos + 1)) n k := fun hle k hk =>
      hk.imp id fun hj => hfix.joined_mono hs.ordered (Nat.le_succ _) hle hj
    cases hstep with
    | @msg x m out he hout =>
      have hlt := (List.getElem?_eq_some_iff.1 he).1
      have hfits := Runs.fits hP hr hlog hn he
      refine ⟨?_, fun r => ?_⟩
      · rw [Replica.of_take_succ he]
        exact hin.synced.deliver hfits hout
      · refine (Daemon.All.pop ((hin.members r).mono (hmono hlt)) (mem_of_popped hout)).step
          (Daemon.cellStep_deliver _ nd.pos x m) fun hl => .inr ?_
        rw [Ledger.of_take_succ he]
        exact FixedLog.joined_step ((hlog nd.pos x m he).member (.inl hl)) x m
    | @change members left join he =>
      have hlt := (List.getElem?_eq_some_iff.1 he).1
      obtain rfl := hfix.left members left join (List.mem_of_getElem? he)
      refine ⟨?_, fun r => (((hin.members r).mono (hmono hlt)).configChange)⟩
      rw [Replica.of_take_succ he]
      exact hin.synced.congr rfl rfl rfl fun _ _ h => h
    | connect hfd => exact ⟨hin.synced.connect _, hin.members⟩
    | @recv fd m hfd =>
      obtain ⟨hpid, hclient⟩ := (hP _ _ hp).2
      refine ⟨hin.synced.recv hme hfd hpid fun c hc hcf => hclient nd hn c hc hcf, fun r => ?_⟩
      exact (hin.members r).clientActivityCb fun _ => .inl hme
    | @close fd hfd =>
      exact ⟨hin.synced.close hme fd, fun r => (hin.members r).delClient⟩

end

end Cpglock
