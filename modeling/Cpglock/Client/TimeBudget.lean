import Mathlib
import Cpglock.Client.Calls

/-!
# The time limit of `io_op_timeout`

`timeout_ms -= iteration_ms` is a 64-bit unsigned subtraction narrowed to 32 bits: the new limit is the
difference modulo 2^32 (`toInt_subMs`). It is no greater than before unless the pass took longer than the
limit by more than 2^31 ms; then it comes out as a great positive limit, and the next `poll` gets it
(`time_budget_iff`).
-/

namespace Cpglock

/-- Nanoseconds. -/
def Timespec.ns (x : Timespec) : Int := x.tvSec * 1000000000 + x.tvNsec

def Timespec.Normal (x : Timespec) : Prop := 0 ≤ x.tvNsec ∧ x.tvNsec < 1000000000

/-- The milliseconds between two readings as the code rounds them, before they are stored in a
`uint64_t`. -/
def elapsedMs (x y : Timespec) : Int :=
  (y.tvSec - x.tvSec) * 1000 + (y.tvNsec - x.tvNsec).tdiv 1000000

/-! ## The arithmetic -/

/-- The rounding is by less than a millisecond. -/
theorem elapsedMs_close (x y : Timespec) : |elapsedMs x y * 1000000 - (y.ns - x.ns)| < 1000000 := by
  have hdiv := Int.mul_tdiv_add_tmod (y.tvNsec - x.tvNsec) 1000000
  have hmod := Int.tmod_lt_of_pos (y.tvNsec - x.tvNsec) (show (0 : Int) < 1000000 by decide)
  have hmod' := Int.lt_tmod_of_pos (y.tvNsec - x.tvNsec) (show (0 : Int) < 1000000 by decide)
  unfold elapsedMs Timespec.ns
  rw [abs_lt]
  omega

theorem elapsedMs_nonneg {x y : Timespec} (hx : x.Normal) (hy : y.Normal) (h : x.ns ≤ y.ns) :
    0 ≤ elapsedMs x y := by
  obtain ⟨hx0, hx1⟩ := hx
  obtain ⟨hy0, hy1⟩ := hy
  have hdiv := Int.mul_tdiv_add_tmod (y.tvNsec - x.tvNsec) 1000000
  have hmod := Int.tmod_lt_of_pos (y.tvNsec - x.tvNsec) (show (0 : Int) < 1000000 by decide)
  have hmod' := Int.lt_tmod_of_pos (y.tvNsec - x.tvNsec) (show (0 : Int) < 1000000 by decide)
  unfold Timespec.ns at h
  unfold elapsedMs
  omega

theorem toNat_iterationMs (x y : Timespec) :
    ((iterationMs x y).toNat : Int) = elapsedMs x y % 2 ^ 64 := by
  change ((UInt64.ofNat (elapsedMs x y % 2 ^ 64).toNat).toNat : Int) = _
  rw [UInt64.toNat_ofNat']
  omega

/-- The new limit is the difference modulo 2^32, from -2^31 on. -/
theorem toInt_subMs (t : Int32) (ms : UInt64) :
    (subMs t ms).toInt = (t.toInt - ms.toNat).bmod (2 ^ 32) := by
  have hdiff : (t.toInt64.toUInt64 - ms).toBitVec.toInt = (t.toInt - ms.toNat).bmod (2 ^ 64) := by
    change (BitVec.signExtend 64 t.toBitVec - ms.toBitVec).toInt = _
    rw [BitVec.toInt_sub, BitVec.toInt_signExtend_of_le (by decide),
      BitVec.toInt_eq_toNat_bmod ms.toBitVec, Int.sub_bmod_bmod]
    rfl
  calc (subMs t ms).toInt
      = ((t.toInt64.toUInt64 - ms).toBitVec.setWidth 32).toInt := rfl
    _ = ((t.toInt64.toUInt64 - ms).toBitVec.toInt).bmod (2 ^ 32) := by
        rw [BitVec.toInt_setWidth, BitVec.toInt_eq_toNat_bmod, Int.bmod_bmod_of_dvd (by decide)]
    _ = (t.toInt - ms.toNat).bmod (2 ^ 32) := by
        rw [hdiff, Int.bmod_bmod_of_dvd (by decide)]

/-- With `r` for `ms` modulo 2^32: the new limit is `t - r`, and if that is below -2^31, `t - r + 2^32`. -/
theorem toInt_subMs_cases {t : Int32} {ms : UInt64} {r : Int} (hr : (ms.toNat : Int) % 2 ^ 32 = r) :
    r ≤ t.toInt + 2 ^ 31 ∧ (subMs t ms).toInt = t.toInt - r ∨
      t.toInt + 2 ^ 31 < r ∧ (subMs t ms).toInt = t.toInt - r + 2 ^ 32 := by
  have ht := t.toInt_lt
  have ht' := t.le_toInt
  have hmod : (subMs t ms).toInt = (t.toInt - r).bmod (2 ^ 32) := by
    rw [toInt_subMs, ← hr]
    exact (Int.sub_emod_bmod _ _).symm
  by_cases h : r ≤ t.toInt + 2 ^ 31
  · refine .inl ⟨h, ?_⟩
    rw [hmod]
    apply Int.bmod_eq_of_le
    · omega
    · omega
  · refine .inr ⟨by omega, ?_⟩
    rw [hmod, ← Int.add_bmod_right]
    apply Int.bmod_eq_of_le
    · omega
    · omega

/-- The limit gets smaller if and only if there is no underflow. -/
theorem subMs_le_iff {t : Int32} {ms : UInt64} {r : Int} (hr : (ms.toNat : Int) % 2 ^ 32 = r) :
    subMs t ms ≤ t ↔ r ≤ t.toInt + 2 ^ 31 := by
  rw [Int32.le_iff_toInt_le]
  have := toInt_subMs_cases (t := t) hr
  omega

/-! ## The readings -/

def PassCalls.readings (p : PassCalls) : List Timespec :=
  p.timeStart.reduceOption ++ p.timeEnd.reduceOption

/-- CLOCK_MONOTONIC: the readings of all the passes, in the order in which they are made. -/
structure Monotonic (ps : List PassCalls) : Prop where
  normal : ∀ p ∈ ps, ∀ x ∈ p.readings, x.Normal
  sorted : (ps.flatMap PassCalls.readings).Pairwise fun x y => x.ns ≤ y.ns

theorem mem_of_readClock {l : List (Option Timespec)} {x : Timespec} (h : readClock l = some x) :
    x ∈ l.reduceOption := by
  obtain ⟨o, ho, hx⟩ := List.exists_of_findSome?_eq_some h
  rw [List.reduceOption_mem_iff]
  exact hx ▸ ho

theorem Monotonic.tail {p : PassCalls} {ps : List PassCalls} (h : Monotonic (p :: ps)) :
    Monotonic ps where
  normal q hq := h.normal q (List.mem_cons_of_mem _ hq)
  sorted := by
    have := h.sorted
    rw [List.flatMap_cons, List.pairwise_append] at this
    exact this.2.1

theorem Monotonic.pass {p : PassCalls} {ps : List PassCalls} {x y : Timespec}
    (h : Monotonic (p :: ps)) (hops : p.Operates true x y) :
    |elapsedMs x y * 1000000 - (y.ns - x.ns)| < 1000000 ∧ 0 ≤ elapsedMs x y := by
  obtain ⟨hx, hy⟩ := hops.timed rfl
  have hx := mem_of_readClock hx
  have hy := mem_of_readClock hy
  have hsorted := h.sorted
  rw [List.flatMap_cons, List.pairwise_append] at hsorted
  have hle : x.ns ≤ y.ns := (List.pairwise_append.1 hsorted.1).2.2 x hx y hy
  refine ⟨elapsedMs_close x y, elapsedMs_nonneg ?_ ?_ hle⟩
  · exact h.normal p List.mem_cons_self x (List.mem_append_left _ hx)
  · exact h.normal p List.mem_cons_self y (List.mem_append_right _ hy)

/-! ## The limit in a call -/

/-- What is wanted of a time limit that was `t₀` at first: the time of a pass is right but for less than a
millisecond, the limit does not grow, and `poll` never gets a limit that is not positive or greater
than `t₀`. -/
def IoEvent.Shrinks (t₀ : Int32) : IoEvent → Prop
  | .poll t => 0 < t ∧ t ≤ t₀
  | .spent x y ms before after =>
    |(ms.toNat : Int) * 1000000 - (y.ns - x.ns)| < 1000000 ∧ after ≤ before

/-- The readings before and after each operation. -/
def spans (events : List IoEvent) : List (Timespec × Timespec) :=
  events.filterMap fun
    | .poll _ => none
    | .spent x y _ _ _ => some (x, y)

/-- No operation takes longer, modulo 2^32, than what is left of `t` ms by more than 2^31 ms. -/
def InTime (t : Int) : List (Timespec × Timespec) → Prop
  | [] => True
  | (x, y) :: l => elapsedMs x y < 2 ^ 64 ∧ elapsedMs x y % 2 ^ 32 ≤ t + 2 ^ 31 ∧
    InTime (t - elapsedMs x y % 2 ^ 32) l

/-- One pass: the new limit is not greater if and only if the operation took no longer than that. -/
theorem spent_shrinks_iff {x y : Timespec} {t₀ t : Int32}
    (hclose : |elapsedMs x y * 1000000 - (y.ns - x.ns)| < 1000000) (hpos : 0 ≤ elapsedMs x y) :
    (IoEvent.spent x y (iterationMs x y) t (subMs t (iterationMs x y))).Shrinks t₀ ↔
      elapsedMs x y < 2 ^ 64 ∧ elapsedMs x y % 2 ^ 32 ≤ t.toInt + 2 ^ 31 := by
  have hms := toNat_iterationMs x y
  have hr : ((iterationMs x y).toNat : Int) % 2 ^ 32 = elapsedMs x y % 2 ^ 32 := by omega
  simp only [IoEvent.Shrinks]
  rw [subMs_le_iff hr, and_congr_left_iff, abs_lt, hms]
  rw [abs_lt] at hclose
  omega

theorem spans_polls {t : Int32} {polls rest : List IoEvent} (h : ∀ e ∈ polls, e = .poll t) :
    spans (polls ++ rest) = spans rest := by
  unfold spans
  rw [List.filterMap_append, List.filterMap_eq_nil_iff.2, List.nil_append]
  intro e he
  rw [h e he]

/-- The calls of `poll` in a pass get a limit that is still positive. -/
theorem polls_shrink {t₀ t : Int32} {polls : List IoEvent} (hpolls : ∀ e ∈ polls, e = .poll t)
    (hpos : 0 < t) (hle : t ≤ t₀) : ∀ e ∈ polls, e.Shrinks t₀ := by
  intro e he
  rw [hpolls e he]
  exact ⟨hpos, hle⟩

theorem shrinks_cons_iff {t₀ t : Int32} {x y : Timespec} {polls rest : List IoEvent}
    (hpolls : ∀ e ∈ polls, e = .poll t) (hpos : 0 < t) (hle : t ≤ t₀)
    (hclose : |elapsedMs x y * 1000000 - (y.ns - x.ns)| < 1000000) (hms : 0 ≤ elapsedMs x y)
    (hrest : subMs t (iterationMs x y) ≤ t₀ → ((∀ e ∈ rest, e.Shrinks t₀) ↔
      InTime (subMs t (iterationMs x y)).toInt (spans rest))) :
    (∀ e ∈ polls ++ spentEvents true t x y ++ rest, e.Shrinks t₀) ↔
      InTime t.toInt (spans (polls ++ spentEvents true t x y ++ rest)) := by
  have hnat := toNat_iterationMs x y
  have hr : ((iterationMs x y).toNat : Int) % 2 ^ 32 = elapsedMs x y % 2 ^ 32 := by omega
  have hpolls' := polls_shrink hpolls hpos hle
  rw [List.append_assoc, spans_polls hpolls]
  change _ ↔ elapsedMs x y < 2 ^ 64 ∧ elapsedMs x y % 2 ^ 32 ≤ t.toInt + 2 ^ 31 ∧
    InTime (t.toInt - elapsedMs x y % 2 ^ 32) (spans rest)
  rw [List.forall_mem_append, List.forall_mem_append]
  have hevent : (∀ e ∈ spentEvents true t x y, e.Shrinks t₀) ↔
      elapsedMs x y < 2 ^ 64 ∧ elapsedMs x y % 2 ^ 32 ≤ t.toInt + 2 ^ 31 :=
    List.forall_mem_singleton.trans (spent_shrinks_iff hclose hms)
  rw [hevent]
  -- the limit that the next passes start from is the difference, once there was no underflow
  have hnext : elapsedMs x y % 2 ^ 32 ≤ t.toInt + 2 ^ 31 → ((∀ e ∈ rest, e.Shrinks t₀) ↔
      InTime (t.toInt - elapsedMs x y % 2 ^ 32) (spans rest)) := by
    intro h
    have hcases := toInt_subMs_cases (t := t) hr
    have heq : (subMs t (iterationMs x y)).toInt = t.toInt - elapsedMs x y % 2 ^ 32 := by omega
    rw [← heq]
    exact hrest (Int32.le_trans ((subMs_le_iff hr).2 h) hle)
  constructor
  · intro ⟨_, ⟨h64, h⟩, hrest⟩
    exact ⟨h64, h, (hnext h).1 hrest⟩
  · intro ⟨h64, h, hrest⟩
    exact ⟨hpolls', ⟨h64, h⟩, (hnext h).2 hrest⟩

/-- The same of a call's last pass. -/
theorem shrinks_last_iff {t₀ t : Int32} {x y : Timespec} {polls : List IoEvent}
    (hpolls : ∀ e ∈ polls, e = .poll t) (hpos : 0 < t) (hle : t ≤ t₀)
    (hclose : |elapsedMs x y * 1000000 - (y.ns - x.ns)| < 1000000) (hms : 0 ≤ elapsedMs x y) :
    (∀ e ∈ polls ++ spentEvents true t x y, e.Shrinks t₀) ↔
      InTime t.toInt (spans (polls ++ spentEvents true t x y)) := by
  rw [← List.append_nil (polls ++ spentEvents true t x y)]
  apply shrinks_cons_iff hpolls hpos hle hclose hms
  intro _
  exact ⟨fun _ => trivial, fun _ _ h => absurd h List.not_mem_nil⟩

/-- The same of a pass without the operation. -/
theorem shrinks_polls_iff {t₀ t : Int32} {polls : List IoEvent} (hpolls : ∀ e ∈ polls, e = .poll t)
    (hpos : 0 < t) (hle : t ≤ t₀) :
    (∀ e ∈ polls, e.Shrinks t₀) ↔ InTime t.toInt (spans polls) := by
  rw [← List.append_nil polls, spans_polls hpolls, List.append_nil]
  exact ⟨fun _ => trivial, fun _ => polls_shrink hpolls hpos hle⟩

/-- All passes of a call. -/
theorem CallSpec.shrinks_iff {ioOp : IoOp} {done buf : List UInt8} {t₀ t : Int32} {s : Sock}
    {ps : List PassCalls} {events : List IoEvent} {r : Option IoResult}
    (h : CallSpec ioOp true done buf t s ps events r) (hps : Monotonic ps) (hle : t ≤ t₀) :
    (∀ e ∈ events, e.Shrinks t₀) ↔ InTime t.toInt (spans events) := by
  induction h with
  | through => simp [spans, InTime]
  | expired => simp [spans, InTime]
  | waits => simp [spans, InTime]
  | @blocked done buf t s p ps events ht hp =>
    have hpos : 0 < t := Int32.not_le.1 fun h => ht ⟨rfl, h⟩
    cases hp with
    | blocked hpolls => exact shrinks_polls_iff hpolls hpos hle
  | @returns done buf buf' t s s' p ps events e hbuf ht hp =>
    have hpos : 0 < t := Int32.not_le.1 fun h => ht ⟨rfl, h⟩
    cases hp with
    | pollFails hpolls => exact shrinks_polls_iff hpolls hpos hle
    | opFails hpolls hops =>
      obtain ⟨hclose, hms⟩ := hps.pass hops
      exact shrinks_last_iff hpolls hpos hle hclose hms
    | zero hpolls hops =>
      obtain ⟨hclose, hms⟩ := hps.pass hops
      exact shrinks_last_iff hpolls hpos hle hclose hms
  | @goesOn done buf buf' t left s s' p ps events rest j res hbuf ht hp _ ih =>
    have hpos : 0 < t := Int32.not_le.1 fun h => ht ⟨rfl, h⟩
    cases hp with
    | again hpolls hops =>
      obtain ⟨hclose, hms⟩ := hps.pass hops
      exact shrinks_cons_iff hpolls hpos hle hclose hms (ih hps.tail)
    | moved hpolls hops =>
      obtain ⟨hclose, hms⟩ := hps.pass hops
      exact shrinks_cons_iff hpolls hpos hle hclose hms (ih hps.tail)

/-- Whatever the operation and the kernel's answers are, the limit of a call only shrinks if and only if no
pass takes longer than what is left of it by more than 2^31 ms. -/
theorem time_budget_iff (ioOp : IoOp) (buf : List UInt8) (timeoutMs : Int32) (s : Sock)
    (passes : List PassCalls) (ht : 0 < timeoutMs) (hmono : Monotonic passes) :
    (∀ e ∈ (ioOpTimeoutCalls ioOp buf timeoutMs s passes).1, e.Shrinks timeoutMs) ↔
      InTime timeoutMs.toInt (spans (ioOpTimeoutCalls ioOp buf timeoutMs s passes).1) := by
  unfold ioOpTimeoutCalls
  rw [decide_eq_true ht]
  exact (ioCalls_spec ioOp true [] buf timeoutMs s passes).shrinks_iff hmono (Int32.le_refl _)

/-- With a limit of 1 s a call is stopped for 2147485 s in its first pass; `read` finds nothing, and the
next `poll` may wait for 2147483296 ms. -/
theorem time_budget_grows : ¬∀ (ioOp : IoOp) (buf : List UInt8) (timeoutMs : Int32) (s : Sock)
    (passes : List PassCalls), 0 < timeoutMs → Monotonic passes →
    ∀ e ∈ (ioOpTimeoutCalls ioOp buf timeoutMs s passes).1, e.Shrinks timeoutMs := by
  intro h
  have h := h Sock.read [0] 1000 ⟨[], []⟩
    [⟨[some ⟨0, 0⟩], [.ready false], .failed .eagain, [some ⟨2147485, 0⟩]⟩,
      ⟨[some ⟨2147485, 0⟩], [], .failed .eagain, []⟩] (by decide)
    ⟨by simp [PassCalls.readings, Timespec.Normal], by simp [PassCalls.readings, Timespec.ns]⟩
  have hpoll := h (.poll 2147483296) (by decide)
  exact absurd hpoll.2 (by decide)

/-- One byte comes after 1.5 ms, the next does not come within the 4 ms that are left. -/
theorem time_budget_iff_five :
    (∀ e ∈ (ioOpTimeoutCalls Sock.read [0, 0] 5 ⟨[7], []⟩
        [⟨[some ⟨1, 999000000⟩], [.ready false], .upTo 1, [some ⟨2, 500000⟩]⟩,
          ⟨[some ⟨2, 600000⟩], [.timeout], .upTo 0, []⟩]).1, e.Shrinks 5) ↔
      InTime 5 [(⟨1, 999000000⟩, ⟨2, 500000⟩)] :=
  time_budget_iff Sock.read [0, 0] 5 ⟨[7], []⟩
    [⟨[some ⟨1, 999000000⟩], [.ready false], .upTo 1, [some ⟨2, 500000⟩]⟩,
      ⟨[some ⟨2, 600000⟩], [.timeout], .upTo 0, []⟩] (by decide)
    ⟨by simp [PassCalls.readings, Timespec.Normal], by simp [PassCalls.readings, Timespec.ns]⟩

end Cpglock
