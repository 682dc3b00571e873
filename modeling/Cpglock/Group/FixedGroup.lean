import Cpglock.Group.Proof.Authority

/-!
# A fixed group

`Sys.Fixed`: no daemon leaves, and from the first LOCK in the order on none enters and all have
joined. `Sys.LibClient`: the clients are processes that use the library.
-/

namespace Cpglock

/-- Every daemon has joined. -/
def Ledger.Formed (G : Ledger) : Prop := ∀ n, (G.views n).isSome → G.Joined n

/-- The event is a LOCK. -/
def Event.isLock : Event → Bool
  | .msg _ m => m.request = .lock
  | .confchg _ _ _ => false

/-- The group changes before the first LOCK only, by daemons that enter, and the first LOCK is
ordered after every daemon's JOIN. -/
def Sys.Fixed (s : Sys) : Act → Prop
  | .confchg _ left _ _ => left = [] ∧ ∀ e ∈ s.log, e.isLock = false
  | .order n => ∀ nd ∈ s.nodes n, ∀ m ∈ nd.d.out.head?, m.request = .lock →
    ∀ x ∈ s.group, (Ledger.of s.log).Joined x.nodeid
  | _ => True

/-- The LOCKs of a connection carry the pid of its process, and a DUMP is sent on a connection of its
own. -/
def Sys.LibClient (s : Sys) : Act → Prop
  | .recv n fd m => (m.request = .lock → m.ownerPid ≠ 0) ∧
    ∀ nd ∈ s.nodes n, ∀ c ∈ nd.d.clients, c.fd = fd →
      (m.request = .lock → c.pid = 0 ∨ c.pid = m.ownerPid) ∧ (m.request = .dump → c.pid = 0)
  | _ => True

/-- The promises about a fixed group and its clients. -/
def Sys.FixedClients (s : Sys) (a : Act) : Prop := s.Fixed a ∧ s.LibClient a

instance (G : Ledger) (n : UInt32) : Decidable (G.Joined n) :=
  decidable_of_iff ((G.views n).any (·.joined) = true) (by simp [Ledger.Joined, Option.any_eq_true])

instance (s : Sys) (a : Act) : Decidable (s.FixedClients a) := by
  unfold Sys.FixedClients
  refine a.casesOn ?_ ?_ ?_ ?_ ?_ ?_ <;>
    intros <;> dsimp only [Sys.Fixed, Sys.LibClient] <;> infer_instance

theorem Sys.LibClient.hasPid {s : Sys} {a : Act} (h : s.LibClient a) : a.HasPid := by
  cases a with
  | recv n fd m => exact h.1
  | _ => trivial

/-- The order of a fixed group. -/
structure FixedLog (log : List Event) : Prop where
  left : ∀ members left join, Event.confchg members left join ∈ log → left = []
  formed : ∀ (k : Nat) x m, log[k]? = some (.msg x m) → m.request = .lock →
    (Ledger.of (log.take k)).Formed
  later : ∀ (k : Nat) x m, log[k]? = some (.msg x m) → m.request = .lock →
    ∀ (j : Nat) e, k ≤ j → log[j]? = some e → ∃ y m', e = .msg y m'

namespace FixedLog

theorem append {log : List Event} {e : Event} (h : FixedLog log)
    (hmsg : ∀ x m, e = .msg x m → m.request = .lock → (Ledger.of log).Formed)
    (hchg : ∀ members left join, e = .confchg members left join →
      left = [] ∧ ∀ x m, Event.msg x m ∈ log → m.request ≠ .lock) : FixedLog (log ++ [e]) := by
  refine ⟨fun members left join hm => ?_, fun k x m hk hm => ?_, fun k x m hk hm j e' hj he' => ?_⟩
  · rcases List.mem_append.1 hm with hm | hm
    · exact h.left members left join hm
    · exact (hchg members left join (List.mem_singleton.1 hm).symm).1
  · by_cases hlt : k < log.length
    · rw [List.getElem?_append_left hlt] at hk
      rw [List.take_append_of_le_length hlt.le]
      exact h.formed k x m hk hm
    · have hk' := (List.getElem?_eq_some_iff.1 hk).1
      simp only [List.length_append, List.length_singleton] at hk'
      obtain rfl : k = log.length := by omega
      rw [List.take_left]
      exact hmsg x m (by simpa using hk) hm
  · by_cases hlt : j < log.length
    · rw [List.getElem?_append_left hlt] at he'
      rw [List.getElem?_append_left (by omega)] at hk
      exact h.later k x m hk hm j e' hj he'
    · have hj' := (List.getElem?_eq_some_iff.1 he').1
      simp only [List.length_append, List.length_singleton] at hj'
      obtain rfl : j = log.length := by omega
      obtain rfl : e = e' := by simpa using he'
      cases e with
      | msg y m' => exact ⟨y, m', rfl⟩
      | confchg members left join =>
        refine absurd hm ((hchg members left join rfl).2 x m ?_)
        have hne : k ≠ log.length := by
          rintro rfl
          simp at hk
        rw [List.getElem?_append_left (by omega)] at hk
        exact List.mem_of_getElem? hk

theorem joined_step {G : Ledger} {n : UInt32} (h : G.Joined n) (x : MemberItem) (m : CpgLockMsg) :
    (G.step (.msg x m)).Joined n := by
  obtain ⟨g, hg, hj⟩ := h
  simp only [Ledger.Joined, Ledger.step, Ledger.viewsAfter, hg, Option.map_some]
  split
  · exact ⟨_, rfl, (Membership.processJoin_joined ..).2 (.inl hj)⟩
  · exact ⟨_, rfl, hj⟩
  · exact ⟨_, rfl, hj⟩

/-- From the first LOCK on all daemons have joined. -/
theorem formed_of_lock {log : List Event} (h : FixedLog log) {k : Nat} (hk : k ≤ log.length)
    {x : MemberItem} {m : CpgLockMsg} (hm : Event.msg x m ∈ log.take k) (hl : m.request = .lock) :
    (Ledger.of (log.take k)).Formed := by
  obtain ⟨i, hi, hget⟩ := List.mem_iff_getElem.1 hm
  rw [List.length_take] at hi
  have hi' : log[i]? = some (.msg x m) := by
    rw [List.getElem_take] at hget
    rw [← hget]
    exact List.getElem?_eq_getElem (by omega)
  have key : ∀ j, i ≤ j → j ≤ log.length → (Ledger.of (log.take j)).Formed := by
    intro j hij
    induction j, hij using Nat.le_induction with
    | base => exact fun _ => h.formed i x m hi' hl
    | succ j hij ih =>
      intro hj
      obtain ⟨e, he⟩ : ∃ e, log[j]? = some e := ⟨_, List.getElem?_eq_getElem (by omega)⟩
      obtain ⟨y, m', rfl⟩ := h.later i x m hi' hl j e hij he
      rw [Ledger.of_take_succ he]
      intro n hn
      refine joined_step (ih (by omega) n ?_) y m'
      rwa [Ledger.step, Ledger.viewsAfter_msg_isSome] at hn
  exact key k (by omega) hk

end FixedLog

theorem Runs.fixedLog {P : Sys → Act → Prop} (hP : ∀ s a, P s a → s.Fixed a) {s : Sys}
    (h : Runs P .init s) : FixedLog s.log := by
  refine h.invariant_of (J := Sys.Sound) (I := fun s => FixedLog s.log) Runs.sound
    ⟨by simp [Sys.init], by simp [Sys.init], by simp [Sys.init]⟩ fun {s s' a} hsound _ hi hp hs => ?_
  have hp := hP s a hp
  obtain ⟨members, left, join, boot, rfl, -, rfl⟩ | ⟨n, nd, m, out, rfl, hn, hout, rfl⟩ |
    ⟨n, nd, d, pos, cause, seen, -, -, -, rfl⟩ := Sys.step_cases hs
  · refine hi.append (by rintro x m ⟨⟩) ?_
    rintro _ _ _ ⟨⟩
    exact ⟨hp.1, fun x m hm hl => by simpa [Event.isLock, hl] using hp.2 _ hm⟩
  · refine hi.append ?_ (by rintro _ _ _ ⟨⟩)
    rintro x m' ⟨⟩ hl k hk
    -- a live daemon is a member of the group
    rw [hsound.views, Option.isSome_iff_exists] at hk
    obtain ⟨nd', hk⟩ := hk
    exact hp nd hn m (by simp [hout]) hl ⟨k, nd'.d.myPid⟩ ((hsound.group _).2 ⟨nd', hk, rfl⟩)
  · exact hi

end Cpglock
