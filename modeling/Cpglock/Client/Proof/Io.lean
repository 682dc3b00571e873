import Mathlib
import Cpglock.Client.Io

/-!
# What `read_timeout` takes from the stream

`ioLoop_read`: the bytes that have gone from the stream are those at the front of the buffer, and
the call returns `buflen` when that is the whole buffer. `Stops.fails` and `ioLoop_stops`: it returns
-1 after `m` bytes exactly when its passes stop after `m` bytes.
-/

namespace Cpglock

variable {b : Bool} {done buf : List UInt8} {t : Int32} {s : Sock} {p : Pass} {ps : List Pass}

/-- `timeout_ms` after a pass. -/
def Pass.left (b : Bool) (p : Pass) (t : Int32) : Int32 :=
  if b then subMs t (iterationMs p.timeStart p.timeEnd) else t

/-- What a pass takes from the stream for a buffer of `n` bytes. -/
def Pass.got (p : Pass) (s : Sock) (n : Nat) : List UInt8 := s.incoming.take (min p.bytes n)

/-! ## One pass -/

theorem Sock.read_fst (k : Nat) (buf : List UInt8) (s : Sock) :
    (Sock.read k buf s).1 = min (min k buf.length) s.incoming.length :=
  List.length_take

theorem ioLoop_done (op : IoOp) : ioLoop op b done [] t s ps = some ⟨none, done, s⟩ := by
  unfold ioLoop
  rfl

/-- The call returns -1 here: the time is up, the pass ends it, or the stream has ended. -/
theorem ioLoop_stop (done : List UInt8) (hb : buf ≠ [])
    (h : b = true ∧ t ≤ 0 ∨ ∃ p ∈ ps.head?, ¬p.GoesOn ∨ 0 < p.bytes ∧ s.incoming = []) :
    ∃ e, ioLoop Sock.read b done buf t s ps = some ⟨some e, done ++ buf, s⟩ := by
  unfold ioLoop
  rw [if_neg hb]
  split
  · exact ⟨_, rfl⟩
  · next ht =>
    obtain ⟨p, hp, h⟩ := h.resolve_left ht
    cases ps with
    | nil => cases hp
    | cons q ps =>
      obtain rfl : q = p := by simpa using hp
      dsimp only
      split
      · exact ⟨_, rfl⟩
      · exact ⟨_, rfl⟩
      · exact ⟨_, rfl⟩
      · next hpoll =>
        split
        · next e hop =>
          have hn : ¬(e = .eintr ∨ e = .eagain) := by
            rcases h with h | ⟨h, -⟩
            · simpa [Pass.GoesOn, hpoll, hop] using h
            · simp [Pass.bytes, hop] at h
          rw [if_neg hn]
          exact ⟨_, rfl⟩
        · next k hop =>
          have hgot : s.incoming.take (min k buf.length) = [] := by
            rcases h with h | ⟨-, h⟩
            · have : k = 0 := by simpa [Pass.GoesOn, hpoll, hop] using h
              simp [this]
            · simp [h]
          have hr : Sock.read k buf s = (0, buf, s) := by simp [Sock.read, hgot]
          simp only [hr]
          exact ⟨_, rfl⟩

/-- The loop goes on with what the pass took. -/
theorem ioLoop_goesOn (hb : buf ≠ []) (ht : ¬(b = true ∧ t ≤ 0)) (hp : p.GoesOn)
    (hs : p.bytes = 0 ∨ s.incoming ≠ []) :
    ioLoop Sock.read b done buf t s (p :: ps) =
      ioLoop Sock.read b (done ++ p.got s buf.length) (buf.drop (p.got s buf.length).length)
        (p.left b t) { s with incoming := s.incoming.drop (p.got s buf.length).length } ps := by
  rw [ioLoop, if_neg hb, if_neg ht]
  dsimp only
  unfold Pass.GoesOn at hp
  split at hp
  · next k hpoll hop =>
    have hlen : s.incoming.length ≠ 0 ∧ buf.length ≠ 0 := by
      refine ⟨fun h => ?_, fun h => hb (List.length_eq_zero_iff.1 h)⟩
      rcases hs with hs | hs
      · simp only [Pass.bytes, hop] at hs
        omega
      · exact hs (List.length_eq_zero_iff.1 h)
    have hgot : (Sock.read k buf s).1 ≠ 0 := by
      rw [Sock.read_fst]
      omega
    simp only [hpoll, hop]
    rw [if_neg hgot]
    simp only [Sock.read, Pass.got, Pass.bytes, hop, Pass.left, List.take_left, List.drop_left]
  · next e hpoll hop =>
    simp only [hpoll, hop, Pass.got, Pass.bytes, Pass.left, Nat.zero_min, List.take_zero,
      List.length_nil, List.drop_zero, List.append_nil]
    rw [if_pos hp]
  · cases hp

/-- Where a call that is not through stops at once. -/
def StopsHere (b : Bool) (t : Int32) (s : Sock) (ps : List Pass) : Prop :=
  b = true ∧ t ≤ 0 ∨ ∃ p ∈ ps.head?, ¬p.GoesOn ∨ 0 < p.bytes ∧ s.incoming = []

/-- The induction on a call that returns: it is through, stops at once, or goes on. -/
theorem ioLoop_induction
    {I : List UInt8 → List UInt8 → Int32 → Sock → List Pass → IoResult → Prop}
    (through : ∀ done t s ps, I done [] t s ps ⟨none, done, s⟩)
    (stop : ∀ done buf t s ps e, buf ≠ [] → StopsHere b t s ps →
      I done buf t s ps ⟨some e, done ++ buf, s⟩)
    (goesOn : ∀ done buf t s p ps res, buf ≠ [] → ¬(b = true ∧ t ≤ 0) → p.GoesOn →
      (p.bytes = 0 ∨ s.incoming ≠ []) →
      I (done ++ p.got s buf.length) (buf.drop (p.got s buf.length).length) (p.left b t)
        { s with incoming := s.incoming.drop (p.got s buf.length).length } ps res →
      I done buf t s (p :: ps) res)
    {res : IoResult} (h : ioLoop Sock.read b done buf t s ps = some res) :
    I done buf t s ps res := by
  have hdone : ∀ {done t s ps}, ioLoop Sock.read b done [] t s ps = some res →
      I done [] t s ps res := by
    intro done t s ps h
    rw [ioLoop_done] at h
    obtain rfl := Option.some.inj h
    exact through _ _ _ _
  have hstop : ∀ {done buf t s ps}, ioLoop Sock.read b done buf t s ps = some res → buf ≠ [] →
      StopsHere b t s ps → I done buf t s ps res := by
    intro done buf t s ps h hb hs
    obtain ⟨e, he⟩ := ioLoop_stop done hb hs
    obtain rfl := Option.some.inj (h.symm.trans he)
    exact stop _ _ _ _ _ _ hb hs
  induction ps generalizing done buf t s with
  | nil =>
    by_cases hb : buf = []
    · subst hb
      exact hdone h
    · by_cases ht : b = true ∧ t ≤ 0
      · exact hstop h hb (.inl ht)
      · rw [ioLoop, if_neg hb, if_neg ht] at h
        cases h
  | cons p ps ih =>
    by_cases hb : buf = []
    · subst hb
      exact hdone h
    · by_cases hs : StopsHere b t s (p :: ps)
      · exact hstop h hb hs
      · obtain ⟨ht, hp⟩ := not_or.1 hs
        have hp : p.GoesOn ∧ (p.bytes = 0 ∨ s.incoming ≠ []) := by
          have := not_or.1 fun h => hp ⟨p, rfl, h⟩
          refine ⟨not_not.1 this.1, or_iff_not_imp_left.2 fun h0 he => ?_⟩
          exact this.2 ⟨Nat.pos_of_ne_zero h0, he⟩
        rw [ioLoop_goesOn hb ht hp.1 hp.2] at h
        exact goesOn _ _ _ _ _ _ _ hb ht hp.1 hp.2 (ih h)

/-! ## A whole call -/

theorem Pass.got_length (p : Pass) (s : Sock) (n : Nat) :
    (p.got s n).length = min (min p.bytes n) s.incoming.length :=
  List.length_take

theorem Pass.got_eq (p : Pass) (s : Sock) (n : Nat) :
    p.got s n = s.incoming.take (p.got s n).length := by
  rw [got_length]
  exact List.take_eq_take_min

/-- After a call that returns, `m` bytes have gone from the stream to the front of the buffer. -/
theorem ioLoop_read {res : IoResult} (h : ioLoop Sock.read b done buf t s ps = some res) :
    ∃ m, m ≤ buf.length ∧ m ≤ s.incoming.length ∧ res.sock.incoming = s.incoming.drop m ∧
      res.buf = done ++ s.incoming.take m ++ buf.drop m ∧ (res.errno = none ↔ m = buf.length) := by
  refine ioLoop_induction (I := fun done buf _ s _ res => ∃ m, m ≤ buf.length ∧
    m ≤ s.incoming.length ∧ res.sock.incoming = s.incoming.drop m ∧
    res.buf = done ++ s.incoming.take m ++ buf.drop m ∧ (res.errno = none ↔ m = buf.length))
    ?_ ?_ ?_ h
  · exact fun done t s ps => ⟨0, Nat.zero_le _, Nat.zero_le _, rfl, by simp, by simp⟩
  · intro done buf t s ps e hb hs
    have hlen : buf.length ≠ 0 := fun h => hb (List.length_eq_zero_iff.1 h)
    exact ⟨0, Nat.zero_le _, Nat.zero_le _, rfl, by simp, by simp [hlen.symm]⟩
  · rintro done buf t s p ps res hb ht hp hs ⟨m, hm, hms, hin, hbuf, herr⟩
    have hgot := p.got_length s buf.length
    have heq := p.got_eq s buf.length
    generalize p.got s buf.length = g at *
    simp only [List.length_drop] at hm hms
    refine ⟨g.length + m, by omega, by omega, by rw [hin, List.drop_drop], ?_, ?_⟩
    · rw [hbuf, List.drop_drop, List.append_assoc, List.append_assoc, List.append_assoc]
      congr 1
      rw [← List.append_assoc, List.take_add, ← heq]
    · rw [herr, List.length_drop]
      omega

/-! ## Where a call fails -/

/-- The passes end a call after exactly `m` bytes: each of those in `pre` lets it go on in time, and
then its time is up or the next pass ends it. -/
def Stops (b : Bool) (t : Int32) (ps : List Pass) (m : Nat) : Prop :=
  ∃ pre post, ps = pre ++ post ∧ (∀ p ∈ pre, p.GoesOn) ∧
    (b = true → ∀ q, q <+: pre → q ≠ pre → 0 < budget t q) ∧ (pre.map Pass.bytes).sum = m ∧
    (b = true ∧ budget t pre ≤ 0 ∨ ∃ p ∈ post.head?, ¬p.GoesOn)

theorem budget_cons (t : Int32) (p : Pass) (q : List Pass) :
    budget t (p :: q) = budget (p.left true t) q := rfl

theorem Stops.cons {m : Nat} (hp : p.GoesOn) (ht : ¬(b = true ∧ t ≤ 0))
    (h : Stops b (p.left b t) ps m) : Stops b t (p :: ps) (p.bytes + m) := by
  obtain ⟨pre, post, rfl, hgo, hbud, rfl, hend⟩ := h
  refine ⟨p :: pre, post, rfl, ?_, fun hb q hq hne => ?_, by simp, hend.imp_left fun h => ?_⟩
  · intro x hx
    rcases List.mem_cons.1 hx with rfl | hx
    · exact hp
    · exact hgo x hx
  · subst hb
    rcases List.prefix_cons_iff.1 hq with rfl | ⟨q', rfl, hq'⟩
    · exact Int32.not_le.1 fun h => ht ⟨rfl, h⟩
    · rw [budget_cons]
      exact hbud rfl q' hq' fun h => hne (by rw [h])
  · obtain ⟨rfl, h⟩ := h
    exact ⟨rfl, h⟩

/-- A call that returns -1 while there is something to read stopped after what it took. -/
theorem ioLoop_stops {res : IoResult} (h : ioLoop Sock.read b done buf t s ps = some res)
    (hs : buf.length ≤ s.incoming.length) (he : res.errno ≠ none) :
    ∃ m, m < buf.length ∧ Stops b t ps m ∧ res.sock.incoming = s.incoming.drop m := by
  refine ioLoop_induction (I := fun _ buf t s ps res => buf.length ≤ s.incoming.length →
    res.errno ≠ none → ∃ m, m < buf.length ∧ Stops b t ps m ∧
      res.sock.incoming = s.incoming.drop m) ?_ ?_ ?_ h hs he
  · exact fun _ _ _ _ _ he => absurd rfl he
  · intro done buf t s ps e hb hstop hs _
    have hlen : buf.length ≠ 0 := fun h => hb (List.length_eq_zero_iff.1 h)
    refine ⟨0, by omega, ⟨[], ps, rfl, by simp, by simp, rfl, hstop.imp_right ?_⟩, rfl⟩
    rintro ⟨p, hp, h | ⟨-, h⟩⟩
    · exact ⟨p, hp, h⟩
    · rw [h] at hs
      exact absurd hs (by simp [hb])
  · intro done buf t s p ps res hb ht hp _ ih hs he
    have hgot := p.got_length s buf.length
    generalize p.got s buf.length = g at *
    simp only [List.length_drop] at ih
    obtain ⟨m, hm, hstop, hin⟩ := ih (by omega) he
    have hg : g.length = p.bytes := by omega
    exact ⟨p.bytes + m, by omega, hstop.cons hp ht, by rw [hin, List.drop_drop, hg]⟩

/-- Passes that stop before the buffer is full make the call return -1. -/
theorem Stops.fails {m : Nat} (h : Stops b t ps m) (done : List UInt8) (hm : m < buf.length)
    (hs : buf.length ≤ s.incoming.length) :
    ∃ res, ioLoop Sock.read b done buf t s ps = some res ∧ res.errno ≠ none ∧
      res.sock.incoming = s.incoming.drop m := by
  obtain ⟨pre, post, rfl, hgo, hbud, rfl, hend⟩ := h
  have hne : buf ≠ [] := by
    rintro rfl
    exact absurd hm (Nat.not_lt_zero _)
  induction pre generalizing done buf t s with
  | nil =>
    obtain ⟨e, he⟩ := ioLoop_stop (s := s) done hne
      (hend.imp_right fun ⟨p, hp, h⟩ => ⟨p, hp, .inl h⟩)
    exact ⟨_, he, by simp, rfl⟩
  | cons p pre ih =>
    rw [List.map_cons, List.sum_cons] at hm ⊢
    have hgot := p.got_length s buf.length
    have ht : ¬(b = true ∧ t ≤ 0) := fun ⟨hb, ht⟩ =>
      Int32.not_le.2 (hbud hb [] List.nil_prefix (by simp)) ht
    have hsne : s.incoming ≠ [] := by
      rintro h
      rw [h, List.length_nil] at hs
      omega
    rw [List.cons_append, ioLoop_goesOn hne ht (hgo p List.mem_cons_self) (.inr hsne)]
    generalize p.got s buf.length = g at *
    have hg : g.length = p.bytes := by omega
    have hbud' : b = true → ∀ q, q <+: pre → q ≠ pre → 0 < budget (p.left b t) q := by
      rintro rfl q hq hqne
      exact hbud rfl (p :: q) ((List.prefix_cons_inj p).2 hq) (by simpa using hqne)
    have hend' : b = true ∧ budget (p.left b t) pre ≤ 0 ∨ ∃ p ∈ post.head?, ¬p.GoesOn := by
      refine hend.imp_left fun ⟨hb, h⟩ => ?_
      subst hb
      exact ⟨rfl, h⟩
    have hm' : (pre.map Pass.bytes).sum < (buf.drop g.length).length := by
      rw [List.length_drop]
      omega
    have hne' : buf.drop g.length ≠ [] := by
      intro h
      rw [h] at hm'
      exact absurd hm' (Nat.not_lt_zero _)
    obtain ⟨res, hres, he, hin⟩ := @ih _ _
      { s with incoming := s.incoming.drop g.length } (done ++ g) (by simp only [List.length_drop]; omega)
      (fun x hx => hgo x (List.mem_cons_of_mem _ hx)) hbud' hend' hm' hne'
    exact ⟨res, hres, he, by rw [hin, List.drop_drop, hg]⟩

end Cpglock
