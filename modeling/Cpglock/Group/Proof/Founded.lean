import Cpglock.Group.Proof.FailureFree
import Cpglock.Group.SingleAuthority

/-!
# A first daemon, and no FL_TRY

`Sys.FirstAlone`: the first daemon joins before any other enters. Then whenever some daemon has joined,
one is the oldest (`Runs.founded`). Without FL_TRY (`Sys.NoTry`) no request is refused
(`Runs.patient`).
-/

namespace Cpglock

/-- The first daemon is delivered its JOIN before any other enters. -/
def Sys.FirstAlone (s : Sys) : Act → Prop
  | .confchg _ _ join _ => s.group = [] ∧ join.length ≤ 1 ∨
    ∃ x ∈ s.group, (s.nodes x.nodeid).any (·.d.joined) = true
  | _ => True

/-- Clients do not use FL_TRY. -/
def Sys.NoTry (_ : Sys) : Act → Prop
  | .recv _ _ m => m.request = .lock → m.isTry = false
  | _ => True

instance (s : Sys) (a : Act) : Decidable (s.FirstAlone a) := by
  refine a.casesOn ?_ ?_ ?_ ?_ ?_ ?_ <;> intros <;> dsimp only [Sys.FirstAlone] <;> infer_instance

instance (s : Sys) (a : Act) : Decidable (s.NoTry a) := by
  refine a.casesOn ?_ ?_ ?_ ?_ ?_ ?_ <;> intros <;> dsimp only [Sys.NoTry] <;> infer_instance

/-! ## The oldest daemon -/

/-- Some daemon is the oldest, or there is at most one, which has not joined. -/
def Ledger.Founded (G : Ledger) : Prop :=
  (∃ f, G.Oldest f) ∨ ∃ f, ∀ n g, G.views n = some g → n = f ∧ g.ids = []

namespace Ledger.Founded

variable {G : Ledger}

theorem exists_oldest (h : G.Founded) (hi : G.Inv) {n : UInt32} (hj : G.Joined n) :
    ∃ f, G.Oldest f := by
  rcases h with h | ⟨f, hf⟩
  · exact h
  · obtain ⟨g, hg, hj⟩ := hj
    have hmem := (hi.self n g hg).2.2 hj
    rw [(hf n g hg).2] at hmem
    cases hmem

theorem msg (h : G.Founded) (hi : G.Inv) {x : MemberItem} {m : CpgLockMsg}
    (hok : G.EventOk (.msg x m)) : (G.step (.msg x m)).Founded := by
  rcases h with ⟨f, hf⟩ | ⟨f, hf⟩
  · exact .inl ⟨f, hf.step hok (by rintro members left join ⟨⟩)⟩
  · by_cases hm : m.request = .join
    · -- the one daemon joins
      obtain ⟨g, hg, -⟩ := hok hm
      obtain ⟨rfl, hnil⟩ := hf _ g hg
      have hme := (hi.self _ g hg).1
      have hno : x.nodeid ∉ g.ids := by simp [hnil]
      refine .inl ⟨x.nodeid, g.processJoin x.nodeid x.pid, ?_, ?_, ?_⟩
      · show G.viewsAfter (.msg x m) x.nodeid = _
        simp [viewsAfter, hm, hg]
      · exact (Membership.processJoin_joined g _ _).2 (.inr ⟨hme.symm, hno⟩)
      · rw [Membership.processJoin_of_not_mem hno, hnil]
        rfl
    · refine .inr ⟨f, fun n g hg => ?_⟩
      obtain ⟨g₀, hg₀, -, hids, -⟩ := views_msg_of_ne hm hg
      rw [hids]
      exact hf n g₀ hg₀

/-- The change by which the first daemon enters. -/
theorem first (h : ∀ n, G.views n = none) {members : UInt32 → List MemberItem}
    {join : List MemberItem} (hj : join.length ≤ 1)
    (hm : ∀ x ∈ join, (members x.nodeid).map (·.nodeid) = join.map (·.nodeid)) :
    (G.step (.confchg members [] join)).Founded := by
  refine .inr ⟨(join.head?.map (·.nodeid)).getD 0, fun n g hg => ?_⟩
  have hg : G.viewsAfter (.confchg members [] join) n = some g := hg
  obtain ⟨-, ⟨x, hx, rfl, rfl⟩ | ⟨g₀, hg₀, -⟩⟩ := viewsAfter_confchg hg
  · obtain rfl : join = [x] := by
      obtain ⟨y, hy⟩ := List.length_eq_one_iff.1 (le_antisymm hj (List.length_pos_of_mem hx))
      rw [hy] at hx ⊢
      rw [List.mem_singleton.1 hx]
    refine ⟨rfl, List.eq_nil_iff_forall_not_mem.2 fun c hc => ?_⟩
    rcases Membership.mem_of_configChange hc with hc | ⟨hne, hc⟩
    · cases hc
    · rw [hm x (by simp)] at hc
      exact hne (List.mem_singleton.1 hc)
  · exact absurd (hg₀.symm.trans (h n)) (by simp)

end Ledger.Founded

theorem Runs.founded {P : Sys → Act → Prop}
    (hP : ∀ s a, P s a → s.NobodyLeaves a ∧ s.FirstAlone a) {s : Sys} (h : Runs P .init s) :
    ∀ k ≤ s.log.length, (Ledger.of (s.log.take k)).Founded := by
  refine h.invariant_of (J := Runs P .init) id
    (I := fun s => ∀ k ≤ s.log.length, (Ledger.of (s.log.take k)).Founded) ?_ ?_
  · exact fun k _ => .inr ⟨0, fun n g hg => by simp [Sys.init, Ledger.init] at hg⟩
  intro s s' a hr hr' hi hp hstep
  have hs := Runs.sound hr
  have hs' := Runs.sound hr'
  have happend : ∀ e, s'.log = s.log ++ [e] →
      ((Ledger.of s.log).EventOk e → ((Ledger.of s.log).step e).Founded) →
      ∀ k ≤ s'.log.length, (Ledger.of (s'.log.take k)).Founded := by
    intro e he hf k hk
    rw [he] at hk ⊢
    rcases Nat.lt_or_ge s.log.length k with hlt | hle
    · have hok := hs'.ordered s.log.length e (by rw [he]; simp)
      rw [he, List.take_left] at hok
      rw [List.length_append, List.length_singleton] at hk
      rw [List.take_of_length_le (by simp; omega), Ledger.of_append]
      exact hf hok
    · rw [List.take_append_of_le_length hle]
      exact hi k hle
  have hlast := hi s.log.length le_rfl
  rw [List.take_length] at hlast
  obtain ⟨members, left, join, boot, rfl, hok, rfl⟩ | ⟨n, nd, m, out, rfl, -, -, rfl⟩ |
    ⟨n, nd, d, pos, cause, seen, -, -, -, rfl⟩ := Sys.step_cases hstep
  · refine happend (.confchg members left join) rfl fun he => ?_
    obtain ⟨hleft, hfirst⟩ := hP _ _ hp
    obtain rfl : left = [] := hleft
    rcases hfirst with ⟨hgroup, hj⟩ | ⟨x, -, hx⟩
    · refine .first (fun n => ?_) hj fun x hx => ?_
      · have hv := hs.views n
        cases hn : s.nodes n with
        | none => simpa [hn] using hv
        | some nd =>
          have := (hs.group ⟨n, nd.d.myPid⟩).2 ⟨nd, hn, rfl⟩
          rw [hgroup] at this
          cases this
      · have hg : s.groupAfter [] join = join := by simp [Sys.groupAfter, hgroup]
        have := (hok.2.2.2.2 x (by rw [hg]; exact hx)).map (·.nodeid)
        rw [hg] at this
        obtain ⟨y, rfl⟩ : ∃ y, join = [y] :=
          List.length_eq_one_iff.1 (le_antisymm hj (List.length_pos_of_mem hx))
        exact List.perm_singleton.1 this
    · -- the oldest daemon stays
      obtain ⟨nd, hn, hj⟩ := (Option.any_eq_true _ _).1 hx
      have hen := hs.node _ nd hn
      have hjoined := hs.ordered.joined_mono (Runs.nobody_left (fun s a hp => (hP s a hp).1) hr)
        (hs.bounded _ nd hn) le_rfl ⟨_, (hen.views hj).2, hj⟩
      rw [List.take_length] at hjoined
      obtain ⟨f, hf⟩ := hlast.exists_oldest hs.ordered.inv_all hjoined
      refine .inl ⟨f, hf.step he ?_⟩
      rintro members left join ⟨⟩
      simp
  · refine happend (.msg ⟨n, nd.d.myPid⟩ m) rfl fun he => ?_
    exact hlast.msg hs.ordered.inv_all he
  · exact hi

/-- Where nobody leaves the oldest daemon stays it. -/
theorem WellOrdered.oldest_mono {log : List Event} (hw : WellOrdered log)
    (hleft : ∀ members left join, Event.confchg members left join ∈ log → left = []) {f : UInt32}
    {j k : Nat} (hjk : j ≤ k) (hk : k ≤ log.length) (hf : (Ledger.of (log.take j)).Oldest f) :
    (Ledger.of (log.take k)).Oldest f := by
  induction k, hjk using Nat.le_induction with
  | base => exact hf
  | succ k hjk ih =>
    obtain ⟨e, he⟩ : ∃ e, log[k]? = some e := ⟨_, List.getElem?_eq_getElem (by omega)⟩
    rw [Ledger.of_take_succ he]
    refine (ih (by omega)).step (hw k e he) ?_
    rintro members left join rfl
    rw [hleft members left join (List.mem_of_getElem? he)]
    simp

/-! ## No refusals -/

/-- No NAK, and no LOCK with FL_TRY. -/
def CpgLockMsg.Patient (m : CpgLockMsg) : Prop :=
  m.request ≠ .nak ∧ (m.request = .lock → m.isTry = false)

theorem Runs.patient {P : Sys → Act → Prop}
    (hP : ∀ s a, P s a → s.FailureFree a ∧ s.NoTry a) {s : Sys} (h : Runs P .init s) :
    Ordered (fun _ _ m => m.Patient) s.log ∧ s.Views fun _ _ v => ∀ m ∈ v.out, m.Patient := by
  have hF := fun s a hp => (hP s a hp).1
  refine (h.rule Sys.sound_init (by intro k x m h; simp [Sys.init] at h)
    (by intro n nd h; cases h) ?_ ?_ ?_).2
  · intro s members left join boot _ _ _ _ x b _ _ m hm
    rw [List.mem_singleton.1 (show m ∈ [_] from hm)]
    exact ⟨by simp [CpgLockMsg.blank], fun h => by simp [CpgLockMsg.blank] at h⟩
  · exact fun s n nd m out _ _ _ _ hv hn hout => hv n nd hn m (Node.mem_view hout)
  · intro s a n nd v pos hs hr hp hlog hv hn _ hstep
    have hpat := hv n nd hn
    cases hstep with
    | @msg x m out he hout =>
      intro g hg
      have hold : g ∈ (({ nd.view s.log n with out } : Daemon).cell g.resource).sent → g.Patient :=
        fun hg => hpat g (mem_of_popped hout g (List.mem_filter.1 hg).1)
      have hgc := Daemon.mem_cell hg
      rcases (hr.cellMove hF hn he out g.resource).sent_cases with
        heq | ⟨q, heq, -⟩ | ⟨hm, -, ht, -, -⟩
      · exact hold (heq ▸ hgc)
      · rw [heq] at hgc
        rcases List.mem_append.1 hgc with hgc | hgc
        · exact hold hgc
        · rw [List.mem_singleton.1 hgc]
          exact ⟨by simp, by simp⟩
      · exact absurd (((hlog nd.pos x m he).2 hm).symm.trans ht) (by decide)
    | @change members left join he =>
      obtain rfl := hr.nobody_left (fun s a hp => (hF s a hp).1) _ _ _ (List.mem_of_getElem? he)
      exact hpat
    | connect => exact hpat
    | @recv fd m =>
      intro g hg
      have hold : g ∈ ((nd.view s.log n).cell g.resource).sent → g.Patient :=
        fun hg => hpat g (List.mem_filter.1 hg).1
      have hgc := Daemon.mem_cell hg
      rcases (Daemon.cellWrite_clientActivityCb (nd.view s.log n) g.resource fd m).sent_cases with
        heq | ⟨hm, -, heq⟩ | ⟨q, heq, -⟩ | ⟨u, hu, -, heq⟩
      · exact hold (heq ▸ hgc)
      all_goals
        rw [heq] at hgc
        rcases List.mem_append.1 hgc with hgc | hgc
        · exact hold hgc
        rw [List.mem_singleton.1 hgc]
      · exact ⟨by simp [hm], fun _ => (hP _ _ hp).2 hm⟩
      · exact ⟨by simp, by simp⟩
      · exact ⟨by simp [hu], by simp [hu]⟩
    | close => exact ((hF _ _ hp).2.1 : False).elim

end Cpglock
