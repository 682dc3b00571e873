import Mathlib
import Cpglock.Client.Io

/-!
# `io_op_timeout`, call by call

`Io.lean` takes the kernel's answers one pass of the loop at a time. Here the calls are made one by
one: the clock is read again after EAGAIN, `poll` is called again after EINTR, with the same limit.
`ioCalls` also records the limits given to `poll` and what became of the time limit in each pass
(`IoEvent`). A call that returns does what `ioLoop` does with the answers put together
(`ioCalls_ioLoop`).
-/

namespace Cpglock

deriving instance DecidableEq for Timespec, PollRet, OpRet, IoResult

/-- The kernel's answers to the calls of one pass of the loop: the clock's readings (`none`: EAGAIN),
what `poll` returns call after call, what the operation meets. -/
structure PassCalls where
  timeStart : List (Option Timespec)
  polls : List PollRet
  op : OpRet
  timeEnd : List (Option Timespec)

/-- What a call of `io_op_timeout` does besides moving bytes. -/
inductive IoEvent
  | poll (timeoutMs : Int32)
  | spent (timeStart timeEnd : Timespec) (iterationMs : UInt64) (before after : Int32)
deriving DecidableEq

/-- `do ret = clock_gettime(CLOCK_MONOTONIC, ..); while (ret == -1 && errno == EAGAIN);`, `none` while
it goes on. -/
def readClock (l : List (Option Timespec)) : Option Timespec := l.findSome? id

/-- `do poll_ret = poll(fds, 1, timeout_ms); while (poll_ret == -1 && errno == EINTR);`, `none` while it
goes on. -/
def pollLoop (timeoutMs : Int32) : List PollRet → List IoEvent × Option PollRet
  | [] => ([.poll timeoutMs], none)
  | r :: rs =>
    if r = .failed .eintr then
      let (calls, ret) := pollLoop timeoutMs rs
      (.poll timeoutMs :: calls, ret)
    else ([.poll timeoutMs], some r)

/-- `io_op(fds->fd, buf, n)`: `io_bytes` or the `errno` of -1, the buffer and the socket. -/
def doOp (ioOp : IoOp) (buf : List UInt8) (s : Sock) : OpRet → Except Errno Nat × List UInt8 × Sock
  | .failed e => (.error e, buf, s)
  | .upTo k =>
    let (ioBytes, buf, s) := ioOp k buf s
    (.ok ioBytes, buf, s)

/-- Where a pass of the loop ends: in a call that never returns, in a `return -1`, or at the next pass
after `ioBytes` bytes, with `left` of the time limit. -/
inductive PassEnd
  | blocked
  | returns (errno : Errno) (buf : List UInt8) (s : Sock)
  | goesOn (ioBytes : Nat) (left : Int32) (buf : List UInt8) (s : Sock)

/-- The body of the loop of `io_op_timeout`, on the last `n` bytes of the buffer. -/
def ioPass (ioOp : IoOp) (hasTimeout : Bool) (buf : List UInt8) (timeoutMs : Int32) (s : Sock)
    (p : PassCalls) : List IoEvent × PassEnd :=
  match if hasTimeout then readClock p.timeStart else some ⟨0, 0⟩ with
  | none => ([], .blocked)
  | some timeStart =>
    match pollLoop timeoutMs p.polls with
    | (polls, none) => (polls, .blocked)
    | (polls, some (.failed e)) => (polls, .returns e buf s)
    | (polls, some .timeout) => (polls, .returns .etimedout buf s)
    | (polls, some (.ready true)) => (polls, .returns .epipe buf s)
    | (polls, some (.ready false)) =>
      let (ioBytes, buf, s) := doOp ioOp buf s p.op
      match if hasTimeout then readClock p.timeEnd else some ⟨0, 0⟩ with
      | none => (polls, .blocked)
      | some timeEnd =>
        let ms := iterationMs timeStart timeEnd
        let left := if hasTimeout then subMs timeoutMs ms else timeoutMs
        let events :=
          polls ++ if hasTimeout then [.spent timeStart timeEnd ms timeoutMs left] else []
        match ioBytes with
        | .error e =>
          if e = .eintr ∨ e = .eagain then (events, .goesOn 0 left buf s)
          else (events, .returns e buf s)
        | .ok ioBytes =>
          if ioBytes = 0 then (events, .returns .epipe buf s)
          else (events, .goesOn ioBytes left buf s)

/-- The loop of `io_op_timeout`; `done ++ buf` is the caller's buffer, `buf` its last `n` bytes. No
result: the call is blocked. -/
def ioCalls (ioOp : IoOp) (hasTimeout : Bool) (done buf : List UInt8) (timeoutMs : Int32) (s : Sock)
    (passes : List PassCalls) : List IoEvent × Option IoResult :=
  if buf = [] then ([], some ⟨none, done, s⟩)
  else if hasTimeout ∧ timeoutMs ≤ 0 then ([], some ⟨some .etimedout, done ++ buf, s⟩)
  else
    match passes with
    | [] => ([], none)
    | p :: passes =>
      match ioPass ioOp hasTimeout buf timeoutMs s p with
      | (events, .blocked) => (events, none)
      | (events, .returns e buf s) => (events, some ⟨some e, done ++ buf, s⟩)
      | (events, .goesOn ioBytes left buf s) =>
        let (rest, res) :=
          ioCalls ioOp hasTimeout (done ++ buf.take ioBytes) (buf.drop ioBytes) left s passes
        (events ++ rest, res)

/-- `io_op_timeout` -/
def ioOpTimeoutCalls (ioOp : IoOp) (buf : List UInt8) (timeoutMs : Int32) (s : Sock)
    (passes : List PassCalls) : List IoEvent × Option IoResult :=
  ioCalls ioOp (0 < timeoutMs) [] buf timeoutMs s passes

/-! ## One pass -/

/-- What `poll` returns in the end. -/
def PassCalls.pollRet (p : PassCalls) : Option PollRet := p.polls.find? (· ≠ .failed .eintr)

theorem pollLoop_snd (t : Int32) (rs : List PollRet) :
    (pollLoop t rs).2 = rs.find? (· ≠ .failed .eintr) := by
  induction rs with
  | nil => rfl
  | cons r rs ih =>
    unfold pollLoop
    by_cases hr : r = .failed .eintr
    · rw [if_pos hr, List.find?_cons_of_neg (by simpa using hr)]
      exact ih
    · rw [if_neg hr, List.find?_cons_of_pos (by simpa using hr)]

/-- Every call of `poll` is given the limit. -/
theorem pollLoop_fst (t : Int32) (rs : List PollRet) : ∀ e ∈ (pollLoop t rs).1, e = .poll t := by
  induction rs with
  | nil => simp [pollLoop]
  | cons r rs ih =>
    unfold pollLoop
    split
    · intro e he
      rcases List.mem_cons.1 he with rfl | he
      · rfl
      · exact ih e he
    · intro e he
      exact List.mem_singleton.1 he

/-- How `poll` makes a call return -1. -/
inductive PollFails (p : PassCalls) : Errno → Prop
  | poll {e : Errno} : p.pollRet = some (.failed e) → PollFails p e
  | timeout : p.pollRet = some .timeout → PollFails p .etimedout
  | flags : p.pollRet = some (.ready true) → PollFails p .epipe

/-- The operation of the pass is done, with the clock's readings `x` before and `y` after it if there is
a time limit. -/
structure PassCalls.Operates (p : PassCalls) (b : Bool) (x y : Timespec) : Prop where
  ready : p.pollRet = some (.ready false)
  timed : b = true → readClock p.timeStart = some x ∧ readClock p.timeEnd = some y

/-- `timeout_ms` after a pass with the readings `x` and `y`. -/
def leftAfter (b : Bool) (t : Int32) (x y : Timespec) : Int32 :=
  if b then subMs t (iterationMs x y) else t

def spentEvents (b : Bool) (t : Int32) (x y : Timespec) : List IoEvent :=
  if b then [.spent x y (iterationMs x y) t (leftAfter b t x y)] else []

/-- What a pass does. -/
inductive PassSpec (ioOp : IoOp) (b : Bool) (buf : List UInt8) (t : Int32) (s : Sock)
    (p : PassCalls) : List IoEvent → PassEnd → Prop
  | blocked {polls : List IoEvent} : (∀ e ∈ polls, e = .poll t) → PassSpec ioOp b buf t s p polls .blocked
  | pollFails {polls : List IoEvent} {e : Errno} : (∀ e ∈ polls, e = .poll t) → PollFails p e →
      PassSpec ioOp b buf t s p polls (.returns e buf s)
  | opFails {polls : List IoEvent} {x y : Timespec} {e : Errno} : (∀ e ∈ polls, e = .poll t) →
      p.Operates b x y → p.op = .failed e → ¬(e = .eintr ∨ e = .eagain) →
      PassSpec ioOp b buf t s p (polls ++ spentEvents b t x y) (.returns e buf s)
  | again {polls : List IoEvent} {x y : Timespec} {e : Errno} : (∀ e ∈ polls, e = .poll t) →
      p.Operates b x y → p.op = .failed e → e = .eintr ∨ e = .eagain →
      PassSpec ioOp b buf t s p (polls ++ spentEvents b t x y) (.goesOn 0 (leftAfter b t x y) buf s)
  | zero {polls : List IoEvent} {x y : Timespec} {k : Nat} {buf' : List UInt8} {s' : Sock} :
      (∀ e ∈ polls, e = .poll t) → p.Operates b x y → p.op = .upTo k →
      ioOp k buf s = (0, buf', s') →
      PassSpec ioOp b buf t s p (polls ++ spentEvents b t x y) (.returns .epipe buf' s')
  | moved {polls : List IoEvent} {x y : Timespec} {k j : Nat} {buf' : List UInt8} {s' : Sock} :
      (∀ e ∈ polls, e = .poll t) → p.Operates b x y → p.op = .upTo k →
      ioOp k buf s = (j, buf', s') → j ≠ 0 →
      PassSpec ioOp b buf t s p (polls ++ spentEvents b t x y)
        (.goesOn j (leftAfter b t x y) buf' s')

theorem ioPass_spec (ioOp : IoOp) (b : Bool) (buf : List UInt8) (t : Int32) (s : Sock)
    (p : PassCalls) :
    PassSpec ioOp b buf t s p (ioPass ioOp b buf t s p).1 (ioPass ioOp b buf t s p).2 := by
  have hpolls := pollLoop_fst t p.polls
  have hret : (pollLoop t p.polls).2 = p.pollRet := pollLoop_snd t p.polls
  unfold ioPass
  rcases hx : (if b then readClock p.timeStart else some ⟨0, 0⟩) with _ | x
  · exact .blocked (by simp)
  rcases hloop : pollLoop t p.polls with ⟨polls, ret⟩
  rw [hloop] at hpolls hret
  dsimp only at hpolls hret
  match ret with
  | none => exact .blocked hpolls
  | some (.failed e) => exact .pollFails hpolls (.poll hret.symm)
  | some .timeout => exact .pollFails hpolls (.timeout hret.symm)
  | some (.ready true) => exact .pollFails hpolls (.flags hret.symm)
  | some (.ready false) =>
    rcases hy : (if b then readClock p.timeEnd else some ⟨0, 0⟩) with _ | y
    · exact .blocked hpolls
    have hops : p.Operates b x y := by
      refine ⟨hret.symm, fun hb => ?_⟩
      rw [if_pos hb] at hx hy
      exact ⟨hx, hy⟩
    match hop : p.op with
    | .failed e =>
      by_cases he : e = .eintr ∨ e = .eagain
      · simp only [doOp, if_pos he]
        exact .again hpolls hops hop he
      · simp only [doOp, if_neg he]
        exact .opFails hpolls hops hop he
    | .upTo k =>
      rcases hk : ioOp k buf s with ⟨j, buf', s'⟩
      by_cases hj : j = 0
      · subst hj
        simp only [doOp, hk, if_true]
        exact .zero hpolls hops hop hk
      · simp only [doOp, hk, if_neg hj]
        exact .moved hpolls hops hop hk hj

/-! ## A whole call -/

/-- What a call does. -/
inductive CallSpec (ioOp : IoOp) (b : Bool) : (done buf : List UInt8) → Int32 → Sock →
    List PassCalls → List IoEvent → Option IoResult → Prop
  | through {done : List UInt8} {t : Int32} {s : Sock} {ps : List PassCalls} :
      CallSpec ioOp b done [] t s ps [] (some ⟨none, done, s⟩)
  | expired {done buf : List UInt8} {t : Int32} {s : Sock} {ps : List PassCalls} : buf ≠ [] →
      b = true ∧ t ≤ 0 → CallSpec ioOp b done buf t s ps [] (some ⟨some .etimedout, done ++ buf, s⟩)
  | waits {done buf : List UInt8} {t : Int32} {s : Sock} : CallSpec ioOp b done buf t s [] [] none
  | blocked {done buf : List UInt8} {t : Int32} {s : Sock} {p : PassCalls} {ps : List PassCalls}
      {events : List IoEvent} : ¬(b = true ∧ t ≤ 0) → PassSpec ioOp b buf t s p events .blocked →
      CallSpec ioOp b done buf t s (p :: ps) events none
  | returns {done buf buf' : List UInt8} {t : Int32} {s s' : Sock} {p : PassCalls}
      {ps : List PassCalls} {events : List IoEvent} {e : Errno} : buf ≠ [] → ¬(b = true ∧ t ≤ 0) →
      PassSpec ioOp b buf t s p events (.returns e buf' s') →
      CallSpec ioOp b done buf t s (p :: ps) events (some ⟨some e, done ++ buf', s'⟩)
  | goesOn {done buf buf' : List UInt8} {t left : Int32} {s s' : Sock} {p : PassCalls}
      {ps : List PassCalls} {events rest : List IoEvent} {j : Nat} {res : Option IoResult} :
      buf ≠ [] → ¬(b = true ∧ t ≤ 0) → PassSpec ioOp b buf t s p events (.goesOn j left buf' s') →
      CallSpec ioOp b (done ++ buf'.take j) (buf'.drop j) left s' ps rest res →
      CallSpec ioOp b done buf t s (p :: ps) (events ++ rest) res

theorem ioCalls_spec (ioOp : IoOp) (b : Bool) (done buf : List UInt8) (t : Int32) (s : Sock)
    (ps : List PassCalls) :
    CallSpec ioOp b done buf t s ps (ioCalls ioOp b done buf t s ps).1
      (ioCalls ioOp b done buf t s ps).2 := by
  fun_induction ioCalls ioOp b done buf t s ps with
  | case1 => exact .through
  | case2 done buf t s _ hbuf ht => exact .expired hbuf ht
  | case3 => exact .waits
  | case4 done buf t s hbuf ht p ps events hpass =>
    have hp := ioPass_spec ioOp b buf t s p
    rw [hpass] at hp
    exact .blocked ht hp
  | case5 done buf t s hbuf ht p ps events e buf' s' hpass =>
    have hp := ioPass_spec ioOp b buf t s p
    rw [hpass] at hp
    exact .returns hbuf ht hp
  | case6 done buf t s hbuf ht p ps events j left buf' s' hpass rest res hrest ih =>
    have hp := ioPass_spec ioOp b buf t s p
    rw [hpass] at hp
    rw [hrest] at ih
    exact .goesOn hbuf ht hp ih

/-! ## The answers put together -/

/-- The answers of a pass, EAGAIN of the clock and EINTR of `poll` left out. What is not asked for or
never comes has some value. -/
def PassCalls.pass (p : PassCalls) : Pass where
  timeStart := (readClock p.timeStart).getD ⟨0, 0⟩
  poll := p.pollRet.getD .timeout
  op := p.op
  timeEnd := (readClock p.timeEnd).getD ⟨0, 0⟩

theorem PassCalls.Operates.pass {p : PassCalls} {b : Bool} {x y : Timespec}
    (h : p.Operates b x y) (t : Int32) : p.pass.poll = .ready false ∧
      (if b then subMs t (iterationMs p.pass.timeStart p.pass.timeEnd) else t) = leftAfter b t x y := by
  refine ⟨by simp only [PassCalls.pass, h.ready, Option.getD_some], ?_⟩
  unfold leftAfter
  cases b with
  | false => rfl
  | true =>
    obtain ⟨hx, hy⟩ := h.timed rfl
    simp only [PassCalls.pass, hx, hy, Option.getD_some]

/-- What a call that returns does is what the loop of `Io.lean` does. -/
theorem CallSpec.ioLoop {ioOp : IoOp} {b : Bool} {done buf : List UInt8} {t : Int32} {s : Sock}
    {ps : List PassCalls} {events : List IoEvent} {r : Option IoResult} {res : IoResult}
    (h : CallSpec ioOp b done buf t s ps events r) (hr : r = some res) :
    ioLoop ioOp b done buf t s (ps.map PassCalls.pass) = some res := by
  induction h with
  | through =>
    unfold Cpglock.ioLoop
    exact hr
  | expired hbuf ht =>
    unfold Cpglock.ioLoop
    rw [if_neg hbuf, if_pos ht]
    exact hr
  | waits => cases hr
  | blocked => cases hr
  | @returns done buf buf' t s s' p ps events e hbuf ht hp =>
    rw [List.map_cons, Cpglock.ioLoop, if_neg hbuf, if_neg ht, ← hr]
    cases hp with
    | pollFails _ hpoll =>
      cases hpoll with
      | poll h => simp only [PassCalls.pass, h, Option.getD_some]
      | timeout h => simp only [PassCalls.pass, h, Option.getD_some]
      | flags h => simp only [PassCalls.pass, h, Option.getD_some]
    | opFails _ hops hop he =>
      have hop' : p.pass.op = _ := hop
      simp only [(hops.pass t).1, hop', if_neg he]
    | zero _ hops hop hk =>
      have hop' : p.pass.op = _ := hop
      simp only [(hops.pass t).1, hop', hk, if_true]
  | @goesOn done buf buf' t left s s' p ps events rest j res hbuf ht hp _ ih =>
    rw [List.map_cons, Cpglock.ioLoop, if_neg hbuf, if_neg ht, ← ih hr]
    cases hp with
    | again _ hops hop he =>
      have hop' : p.pass.op = _ := hop
      simp only [(hops.pass t).1, (hops.pass t).2, hop', if_pos he, List.take_zero, List.append_nil,
        List.drop_zero]
    | moved _ hops hop hk hj =>
      have hop' : p.pass.op = _ := hop
      simp only [(hops.pass t).1, (hops.pass t).2, hop', hk, if_neg hj]

theorem ioCalls_ioLoop {ioOp : IoOp} {b : Bool} {done buf : List UInt8} {t : Int32} {s : Sock}
    {ps : List PassCalls} {res : IoResult} (h : (ioCalls ioOp b done buf t s ps).2 = some res) :
    ioLoop ioOp b done buf t s (ps.map PassCalls.pass) = some res :=
  (ioCalls_spec ioOp b done buf t s ps).ioLoop h

end Cpglock
