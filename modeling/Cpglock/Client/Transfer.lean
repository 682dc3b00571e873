import Mathlib
import Cpglock.Client.Calls
import Cpglock.Client.Proof.Io

/-!
# The bytes that `io_op_timeout` moves

A relation between the buffer and the socket before and after `m` bytes are moved, which `read` or
`write` keeps to and which composes (`Transfer`), describes a whole call (`CallSpec.transfer`).
`io_op_exact` has both directions: the bytes of a call that returns are the next of the stream, each
once, the call returns `buflen` if and only if they fill the buffer, and otherwise `errno` says what
ended it.
-/

namespace Cpglock

/-- The loop goes on after the pass, unless no byte is moved. -/
structure PassCalls.Continues (p : PassCalls) : Prop where
  ready : p.pollRet = some (.ready false)
  retries : ∀ e, p.op = .failed e → e = .eintr ∨ e = .eagain

/-- What makes a call return -1 with `e` when `left` is left of its time limit, `rest` of its buffer,
and the next pass is the head of the list. -/
inductive EndsCall (ioOp : IoOp) (b : Bool) (left : Int32) (rest : List UInt8) (s : Sock) :
    List PassCalls → Errno → Prop
  | expired {ps : List PassCalls} : b = true → left ≤ 0 → EndsCall ioOp b left rest s ps .etimedout
  | poll {p : PassCalls} {ps : List PassCalls} {e : Errno} : PollFails p e →
      EndsCall ioOp b left rest s (p :: ps) e
  | op {p : PassCalls} {ps : List PassCalls} {e : Errno} : p.pollRet = some (.ready false) →
      p.op = .failed e → ¬(e = .eintr ∨ e = .eagain) → EndsCall ioOp b left rest s (p :: ps) e
  | zero {p : PassCalls} {ps : List PassCalls} {k : Nat} : p.pollRet = some (.ready false) →
      p.op = .upTo k → (ioOp k rest s).1 = 0 → EndsCall ioOp b left rest s (p :: ps) .epipe

/-- Why a call returns -1: some passes after which it went on, and what ended it then. -/
def CallFails (ioOp : IoOp) (b : Bool) (t : Int32) (rest : List UInt8) (s : Sock)
    (passes : List PassCalls) (e : Errno) : Prop :=
  ∃ pre post, passes = pre ++ post ∧ (∀ p ∈ pre, p.Continues) ∧
    EndsCall ioOp b (budget t (pre.map PassCalls.pass)) rest s post e

theorem EndsCall.fails {ioOp : IoOp} {b : Bool} {t : Int32} {rest : List UInt8} {s : Sock}
    {ps : List PassCalls} {e : Errno} (h : EndsCall ioOp b t rest s ps e) :
    CallFails ioOp b t rest s ps e :=
  ⟨[], ps, rfl, by simp, h⟩

theorem EndsCall.anyLeft {ioOp : IoOp} {left : Int32} {rest : List UInt8} {s : Sock}
    {ps : List PassCalls} {e : Errno} (h : EndsCall ioOp false left rest s ps e) (left' : Int32) :
    EndsCall ioOp false left' rest s ps e := by
  cases h with
  | expired hb => cases hb
  | poll h => exact .poll h
  | op hr h he => exact .op hr h he
  | zero hr h hk => exact .zero hr h hk

theorem CallFails.cons {ioOp : IoOp} {b : Bool} {t : Int32} {rest : List UInt8} {s : Sock}
    {p : PassCalls} {ps : List PassCalls} {e : Errno} {x y : Timespec} (hops : p.Operates b x y)
    (hp : ∀ e, p.op = .failed e → e = .eintr ∨ e = .eagain)
    (h : CallFails ioOp b (leftAfter b t x y) rest s ps e) :
    CallFails ioOp b t rest s (p :: ps) e := by
  obtain ⟨pre, post, rfl, hpre, hend⟩ := h
  refine ⟨p :: pre, post, rfl, List.forall_mem_cons.2 ⟨⟨hops.ready, hp⟩, hpre⟩, ?_⟩
  cases b with
  | false => exact hend.anyLeft _
  | true =>
    rw [← (hops.pass t).2] at hend
    exact hend

/-! ## One direction -/

/-- `Moves m buf s buf' s'`: `m` bytes are moved, `buf` and `s` become `buf'` and `s'`. -/
structure Transfer (ioOp : IoOp) (Moves : Nat → List UInt8 → Sock → List UInt8 → Sock → Prop) :
    Prop where
  none (buf : List UInt8) (s : Sock) : Moves 0 buf s buf s
  zero {buf buf' : List UInt8} {s s' : Sock} : Moves 0 buf s buf' s' → buf' = buf ∧ s' = s
  op {k j : Nat} {buf buf' : List UInt8} {s s' : Sock} : ioOp k buf s = (j, buf', s') →
    Moves j buf s buf' s'
  next {j m : Nat} {buf buf' rest : List UInt8} {s s' s'' : Sock} : Moves j buf s buf' s' →
    Moves m (buf'.drop j) s' rest s'' → Moves (j + m) buf s (buf'.take j ++ rest) s''
  le {m : Nat} {buf buf' : List UInt8} {s s' : Sock} : Moves m buf s buf' s' → m ≤ buf.length
  length {m : Nat} {buf buf' : List UInt8} {s s' : Sock} : Moves m buf s buf' s' →
    buf'.length = buf.length

/-- What a call leaves behind. -/
structure Leaves (ioOp : IoOp) (Moves : Nat → List UInt8 → Sock → List UInt8 → Sock → Prop)
    (b : Bool) (buf : List UInt8) (t : Int32) (s : Sock) (ps : List PassCalls) (m : Nat)
    (errno : Option Errno) (buf' : List UInt8) (s' : Sock) : Prop where
  moves : Moves m buf s buf' s'
  full : errno = none ↔ m = buf.length
  fails : ∀ e, errno = some e → CallFails ioOp b t (buf'.drop m) s' ps e

section
variable {ioOp : IoOp} {Moves : Nat → List UInt8 → Sock → List UInt8 → Sock → Prop}
  (hM : Transfer ioOp Moves) {b : Bool} {buf : List UInt8} {t : Int32} {s : Sock}
  {ps : List PassCalls}
include hM

/-- A call that ends without another byte. -/
theorem Transfer.stops {e : Errno} (hbuf : buf ≠ []) (h : EndsCall ioOp b t buf s ps e) :
    Leaves ioOp Moves b buf t s ps 0 (some e) buf s where
  moves := hM.none buf s
  full := by
    have := List.length_pos_iff.2 hbuf
    constructor
    · intro h
      cases h
    · intro h
      omega
  fails e' he := by
    obtain rfl := Option.some.inj he
    exact h.fails

theorem Transfer.goesOn {j m : Nat} {buf' rest : List UInt8} {s' s'' : Sock} {left : Int32}
    {errno : Option Errno} (hmoves : Moves j buf s buf' s')
    (hfails : ∀ rest s e, CallFails ioOp b left rest s ps.tail e → CallFails ioOp b t rest s ps e)
    (h : Leaves ioOp Moves b (buf'.drop j) left s' ps.tail m errno rest s'') :
    Leaves ioOp Moves b buf t s ps (j + m) errno (buf'.take j ++ rest) s'' where
  moves := hM.next hmoves h.moves
  full := by
    have hj := hM.le hmoves
    rw [h.full, List.length_drop, hM.length hmoves]
    omega
  fails e he := by
    have hj := hM.le hmoves
    have hlen := hM.length hmoves
    rw [List.drop_append, List.drop_eq_nil_of_le (by rw [List.length_take]; omega), List.nil_append,
      List.length_take, show j + m - min j buf'.length = m by omega]
    exact hfails _ _ _ (h.fails e he)

theorem CallSpec.transfer {done : List UInt8} {events : List IoEvent} {r : Option IoResult}
    {res : IoResult} (h : CallSpec ioOp b done buf t s ps events r) (hr : r = some res) :
    ∃ m buf', res.buf = done ++ buf' ∧ Leaves ioOp Moves b buf t s ps m res.errno buf' res.sock := by
  induction h with
  | @through done t s ps =>
    obtain rfl := Option.some.inj hr
    exact ⟨0, [], (List.append_nil done).symm, hM.none [] s, by simp, by simp⟩
  | expired hbuf ht =>
    obtain rfl := Option.some.inj hr
    exact ⟨0, _, rfl, hM.stops hbuf (.expired ht.1 ht.2)⟩
  | waits => cases hr
  | blocked => cases hr
  | returns hbuf ht hp =>
    obtain rfl := Option.some.inj hr
    cases hp with
    | pollFails _ hpoll => exact ⟨0, _, rfl, hM.stops hbuf (.poll hpoll)⟩
    | opFails _ hops hop he => exact ⟨0, _, rfl, hM.stops hbuf (.op hops.ready hop he)⟩
    | zero _ hops hop hk =>
      obtain ⟨rfl, rfl⟩ := hM.zero (hM.op hk)
      exact ⟨0, _, rfl, hM.stops hbuf (.zero hops.ready hop (by rw [hk]))⟩
  | @goesOn done buf buf' t left s s' p ps events rest j res hbuf ht hp _ ih =>
    obtain ⟨m, rest', hres, hleaves⟩ := ih hr
    rw [List.append_assoc] at hres
    cases hp with
    | again _ hops hop he =>
      refine ⟨0 + m, _, hres, hM.goesOn (hM.none buf s) (fun _ _ _ => CallFails.cons hops ?_) hleaves⟩
      intro e' he'
      rw [hop] at he'
      cases he'
      exact he
    | moved _ hops hop hk hj =>
      refine ⟨j + m, _, hres, hM.goesOn (hM.op hk) (fun _ _ _ => CallFails.cons hops ?_) hleaves⟩
      intro e' he'
      rw [hop] at he'
      cases he'

end

/-! ## `read` and `write` -/

/-- The next `m` bytes of the stream have gone to the front of the buffer. -/
structure ReadMoves (m : Nat) (buf : List UInt8) (s : Sock) (buf' : List UInt8) (s' : Sock) :
    Prop where
  fits : m ≤ buf.length
  sent : m ≤ s.incoming.length
  front : buf' = s.incoming.take m ++ buf.drop m
  stream : s' = { s with incoming := s.incoming.drop m }

/-- The peer was given the first `m` bytes of the buffer. -/
structure WriteMoves (m : Nat) (buf : List UInt8) (s : Sock) (buf' : List UInt8) (s' : Sock) :
    Prop where
  fits : m ≤ buf.length
  kept : buf' = buf
  given : s' = { s with outgoing := s.outgoing ++ buf.take m }

theorem ReadMoves.take {m : Nat} {buf buf' : List UInt8} {s s' : Sock}
    (h : ReadMoves m buf s buf' s') : buf'.take m = s.incoming.take m ∧ buf'.drop m = buf.drop m := by
  have hlen : (s.incoming.take m).length = m := by
    rw [List.length_take]
    have := h.sent
    omega
  rw [h.front]
  exact ⟨List.take_left' hlen, List.drop_left' hlen⟩

theorem transfer_read : Transfer Sock.read ReadMoves where
  none buf s := ⟨Nat.zero_le _, Nat.zero_le _, rfl, rfl⟩
  zero h := ⟨h.front, h.stream⟩
  op {k j buf buf' s s'} h := by
    obtain ⟨g, hg⟩ : ∃ g, g = s.incoming.take (min k buf.length) := ⟨_, rfl⟩
    have hlen : g.length = min (min k buf.length) s.incoming.length := by
      rw [hg, List.length_take]
    have hfront : g = s.incoming.take g.length := by
      rw [hlen, hg]
      exact List.take_eq_take_min
    simp only [Sock.read, ← hg, Prod.mk.injEq] at h
    obtain ⟨rfl, rfl, rfl⟩ := h
    exact ⟨by omega, by omega, by rw [← hfront], rfl⟩
  next {j m buf buf' rest s s' s''} h h' := by
    obtain ⟨htake, hdrop⟩ := h.take
    obtain ⟨hj, hjs, -, rfl⟩ := h
    obtain ⟨hm, hms, rfl, rfl⟩ := h'
    rw [hdrop, List.length_drop] at hm
    rw [List.length_drop] at hms
    refine ⟨by omega, by omega, ?_, by rw [List.drop_drop]⟩
    rw [htake, hdrop, List.drop_drop, ← List.append_assoc, ← List.take_add]
  le h := h.fits
  length h := by
    have := h.sent
    have := h.fits
    rw [h.front, List.length_append, List.length_take, List.length_drop]
    omega

theorem transfer_write : Transfer Sock.write WriteMoves where
  none buf s := ⟨Nat.zero_le _, rfl, by simp⟩
  zero h := ⟨h.kept, by simpa using h.given⟩
  op {k j buf buf' s s'} h := by
    simp only [Sock.write, Prod.mk.injEq, List.length_take] at h
    obtain ⟨rfl, rfl, rfl⟩ := h
    refine ⟨Nat.min_le_right _ _, rfl, ?_⟩
    rw [← List.take_eq_take_min]
  next {j m buf buf' rest s s' s''} h h' := by
    obtain ⟨hj, rfl, rfl⟩ := h
    obtain ⟨hm, rfl, rfl⟩ := h'
    rw [List.length_drop] at hm
    refine ⟨by omega, List.take_append_drop _ _, ?_⟩
    rw [List.take_add, List.append_assoc]
  le h := h.fits
  length h := by rw [h.kept]

/-- Whatever the kernel answers, a call that returns has moved some number `m` of bytes, from the stream
to the front of the buffer or from there to the peer. It returns `buflen` if and only if `m` is
`buflen`; otherwise `errno` is that of the time limit, `poll` or the operation. -/
theorem io_op_exact (buf : List UInt8) (timeoutMs : Int32) (s : Sock) (passes : List PassCalls)
    (res : IoResult) :
    ((ioOpTimeoutCalls Sock.read buf timeoutMs s passes).2 = some res →
      ∃ m, ReadMoves m buf s res.buf res.sock ∧ (res.errno = none ↔ m = buf.length) ∧
        ∀ e, res.errno = some e →
          CallFails Sock.read (0 < timeoutMs) timeoutMs (buf.drop m) res.sock passes e) ∧
    ((ioOpTimeoutCalls Sock.write buf timeoutMs s passes).2 = some res →
      ∃ m, WriteMoves m buf s res.buf res.sock ∧ (res.errno = none ↔ m = buf.length) ∧
        ∀ e, res.errno = some e →
          CallFails Sock.write (0 < timeoutMs) timeoutMs (buf.drop m) res.sock passes e) := by
  constructor
  · intro h
    have hspec := ioCalls_spec Sock.read (0 < timeoutMs) [] buf timeoutMs s passes
    obtain ⟨m, buf', hbuf, hleaves⟩ := hspec.transfer transfer_read h
    rw [List.nil_append] at hbuf
    obtain rfl := hbuf
    refine ⟨m, hleaves.moves, hleaves.full, fun e he => ?_⟩
    rw [← hleaves.moves.take.2]
    exact hleaves.fails e he
  · intro h
    have hspec := ioCalls_spec Sock.write (0 < timeoutMs) [] buf timeoutMs s passes
    obtain ⟨m, buf', hbuf, hleaves⟩ := hspec.transfer transfer_write h
    rw [List.nil_append] at hbuf
    obtain rfl := hbuf
    refine ⟨m, hleaves.moves, hleaves.full, fun e he => ?_⟩
    rw [← hleaves.moves.kept]
    exact hleaves.fails e he

/-- Three bytes are wanted within 5 ms: the clock says EAGAIN and `poll` EINTR, one byte comes, the next
`read` fails with EAGAIN, and `poll` runs out of time. Two bytes are written one by one. -/
theorem io_op_exact_one :
    (∃ m, ReadMoves m [0, 0, 0] ⟨[7, 8, 9, 10], []⟩ [7, 0, 0] ⟨[8, 9, 10], []⟩ ∧
      (some Errno.etimedout = none ↔ m = 3)) ∧
      ∃ m, WriteMoves m [7, 8] ⟨[], [6]⟩ [7, 8] ⟨[], [6, 7, 8]⟩ ∧ ((none : Option Errno) = none ↔ m = 2) :=
  ⟨((io_op_exact [0, 0, 0] 5 ⟨[7, 8, 9, 10], []⟩
      [⟨[none, some ⟨1, 0⟩], [.failed .eintr, .ready false], .upTo 1, [some ⟨1, 1000000⟩]⟩,
        ⟨[some ⟨1, 2000000⟩], [.ready false], .failed .eagain, [none, some ⟨1, 2500000⟩]⟩,
        ⟨[some ⟨1, 3000000⟩], [.failed .eintr, .timeout], .upTo 0, []⟩]
      ⟨some .etimedout, [7, 0, 0], ⟨[8, 9, 10], []⟩⟩).1 (by decide)).imp fun _ h => ⟨h.1, h.2.1⟩,
    ((io_op_exact [7, 8] 0 ⟨[], [6]⟩ [⟨[], [.ready false], .upTo 1, []⟩, ⟨[], [.ready false], .upTo 9, []⟩]
      ⟨none, [7, 8], ⟨[], [6, 7, 8]⟩⟩).2 (by decide)).imp fun _ h => ⟨h.1, h.2.1⟩⟩

end Cpglock
