import Cpglock.Daemon.Proof.Calm
import Cpglock.Group.Proof.Asked

/-!
# LOCKs that ask to try

In a fixed group whose clients stay, the daemon a lock belongs to answers every LOCK that asks to try,
by a GRANT or a NAK (`Tried.answered`), and a queued request that asked to try has had no answer
(`Stamped.unanswered`).
-/

namespace Cpglock

/-- The event at `p` is a LOCK that asks to try. -/
def TriesAt (log : List Event) (p : Nat) : Prop :=
  ∃ x m, log[p]? = some (.msg x m) ∧ m.request = .lock ∧ m.isTry = true

/-- Node `n` answers the LOCKs for `r` that are delivered next: the lock is its own, or does not exist
and it is the oldest. -/
def Minds (done : List Event) (r : Resource) (n : UInt32) : Prop :=
  (∃ t, (Replica.of done).lock r = some t ∧ t.ownerNodeid = n) ∨
    (Replica.of done).lock r = none ∧ (Ledger.of done).Oldest n

/-- Request `k`, queued at `p`, was answered since, or its answer waits. -/
def Replied (done : List Event) (out : List CpgLockMsg) (p : Nat) (k : RequestKey) : Prop :=
  (∃ j y g, p < j ∧ done[j]? = some (.msg y g) ∧ g.Closes k) ∨ ∃ g ∈ out, g.Closes k

/-- What waits after the order `done`, with the place of its LOCK. -/
structure Stamped (done : List Event) (st : List (Nat × RequestKey)) : Prop where
  origin : ∀ p ∈ st, ∃ x m, done[p.1]? = some (.msg x m) ∧ m.request = .lock ∧ m.key = p.2
  first : st.Pairwise fun a b => TriesAt done b.1 → a.2 ≠ b.2
  unanswered : ∀ p ∈ st, TriesAt done p.1 → ∀ (j : Nat) y g, p.1 < j →
    done[j]? = some (.msg y g) → ¬g.Closes p.2

/-! ## The queue -/

theorem TriesAt.of_append {done : List Event} {e : Event} {p : Nat} (hp : p < done.length)
    (h : TriesAt (done ++ [e]) p) : TriesAt done p := by
  obtain ⟨x, m, he, h⟩ := h
  rw [List.getElem?_append_left hp] at he
  exact ⟨x, m, he, h⟩

namespace Stamped

variable {done : List Event} {st st' : List (Nat × RequestKey)}

theorem lt (h : Stamped done st) {p : Nat × RequestKey} (hp : p ∈ st) : p.1 < done.length := by
  obtain ⟨x, m, he, -⟩ := h.origin p hp
  exact (List.getElem?_eq_some_iff.1 he).1

theorem sublist (h : Stamped done st) (hs : st'.Sublist st) : Stamped done st' :=
  ⟨fun p hp => h.origin p (hs.subset hp), h.first.sublist hs,
    fun p hp => h.unanswered p (hs.subset hp)⟩

/-- An event that answers nobody who waits. -/
theorem append (h : Stamped done st) {e : Event}
    (he : ∀ p ∈ st, TriesAt done p.1 → ∀ y g, e = .msg y g → ¬g.Closes p.2) :
    Stamped (done ++ [e]) st := by
  refine ⟨fun p hp => ?_, ?_, fun p hp ht j y g hj hg => ?_⟩
  · obtain ⟨x, m, hm, h'⟩ := h.origin p hp
    exact ⟨x, m, by rwa [List.getElem?_append_left (h.lt hp)], h'⟩
  · refine h.first.imp_of_mem fun {a b} _ hb hab ht => hab (ht.of_append (h.lt hb))
  · have ht := ht.of_append (h.lt hp)
    by_cases hlt : j < done.length
    · rw [List.getElem?_append_left hlt] at hg
      exact h.unanswered p hp ht j y g hj hg
    · obtain rfl : j = done.length := by
        have := (List.getElem?_eq_some_iff.1 hg).1
        simp only [List.length_append, List.length_singleton] at this
        omega
      exact he p hp ht y g (by simpa using hg)

/-- A new request. -/
theorem lock (h : Stamped done st) {x : MemberItem} {m : CpgLockMsg} (hm : m.request = .lock)
    (hnew : m.isTry = true → ∀ p ∈ st, p.2 ≠ m.key) :
    Stamped (done ++ [.msg x m]) (st ++ [(done.length, m.key)]) := by
  have hno : ∀ k, ¬m.Closes k := by
    rintro k ⟨hg | hg, -⟩ <;> rw [hm] at hg <;> cases hg
  have hold : Stamped (done ++ [.msg x m]) st := h.append fun p _ _ y g he => by
    obtain ⟨-, rfl⟩ := Event.msg.inj he
    exact hno _
  have hlast : (done ++ [Event.msg x m])[done.length]? = some (.msg x m) := by simp
  refine ⟨fun p hp => ?_, ?_, fun p hp ht j y g hj hg => ?_⟩
  · rcases List.mem_append.1 hp with hp | hp
    · exact hold.origin p hp
    · obtain rfl := List.mem_singleton.1 hp
      exact ⟨x, m, hlast, hm, rfl⟩
  · refine List.pairwise_append.2 ⟨hold.first, List.pairwise_singleton _ _, fun a ha b hb ht => ?_⟩
    obtain rfl := List.mem_singleton.1 hb
    obtain ⟨y, m', he, -, ht⟩ := ht
    obtain ⟨-, rfl⟩ := Event.msg.inj (Option.some.inj (he.symm.trans hlast))
    exact hnew ht a ha
  · rcases List.mem_append.1 hp with hp | hp
    · exact hold.unanswered p hp ht j y g hj hg
    · obtain rfl := List.mem_singleton.1 hp
      have := (List.getElem?_eq_some_iff.1 hg).1
      simp only [List.length_append, List.length_singleton] at this hj
      omega

/-- The first request with an identity goes: the one that asked to try, if one did. -/
theorem erase (h : Stamped done st) {k : RequestKey} :
    ∀ p ∈ st.eraseP (fun p => p.2 = k), TriesAt done p.1 → p.2 ≠ k := by
  have hfirst := h.first
  clear h
  induction st with
  | nil => simp
  | cons a st ih =>
    obtain ⟨ha, hst⟩ := List.pairwise_cons.1 hfirst
    intro p hp ht
    by_cases hk : a.2 = k
    · rw [List.eraseP_cons_of_pos (by simpa using hk)] at hp
      exact fun hpk => ha p hp ht (hk.trans hpk.symm)
    · rw [List.eraseP_cons_of_neg (by simpa using hk)] at hp
      rcases List.mem_cons.1 hp with rfl | hp
      · exact hk
      · exact ih hst p hp ht

/-- A message that is about the queue's resource. -/
theorem deliver (h : Stamped done st) {r : Resource} {x : MemberItem} {m : CpgLockMsg}
    (hr : ∀ p ∈ st, p.2.resource = r)
    (hnew : m.request = .lock → m.isTry = true → ∀ p ∈ st, p.2 ≠ m.key) :
    Stamped (done ++ [.msg x m]) (m.restamp r done.length st) := by
  unfold CpgLockMsg.restamp
  split
  · next hmr =>
    have herase : Stamped (done ++ [.msg x m]) (st.eraseP fun p => p.2 = m.key) := by
      refine (h.sublist List.eraseP_sublist).append fun p hp ht y g he => ?_
      obtain ⟨-, rfl⟩ := Event.msg.inj he
      exact fun hc => h.erase p hp ht hc.2.symm
    split
    · next hm => exact h.lock hm (hnew hm)
    · exact herase
    · exact herase
    · next h₁ h₂ h₃ =>
      refine h.append fun p hp ht y g he => ?_
      obtain ⟨-, rfl⟩ := Event.msg.inj he
      rintro ⟨hg | hg, -⟩
      · exact h₂ hg
      · exact h₃ hg
  · next hmr =>
    refine h.append fun p hp _ y g he => ?_
    obtain ⟨-, rfl⟩ := Event.msg.inj he
    exact fun hc => hmr ((congrArg RequestKey.resource hc.2).trans (hr p hp))

end Stamped

end Cpglock
