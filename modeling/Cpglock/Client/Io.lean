import Mathlib

/-!
# Reading and writing with a time limit (`lib/cpglock_util.c`)

`io_op_timeout` repeats `poll` and a `read` or `write` until the buffer is through, an operation
fails or the time is up. What the kernel answers in each pass of its loop is a list (`Pass`); a call
whose passes are used up before it returns is still blocked (`none`). The socket is the bytes still
to be read from it and the bytes the peer was given.
-/

namespace Cpglock

/-- The values of `errno` the library compares with, and the others. -/
inductive Errno
  | eintr
  | eagain
  | etimedout
  | epipe
  | einval
  | ebadf
  | enametoolong
  | other (code : Nat)
deriving DecidableEq

/-- `struct timespec` -/
structure Timespec where
  tvSec : Int
  tvNsec : Int

/-- What `poll` returns, EINTR apart: the loop around it repeats the call then. `err` of `ready` is
`revents & (POLLERR | POLLNVAL)`. -/
inductive PollRet
  | failed (e : Errno)
  | timeout
  | ready (err : Bool)

/-- What `read` or `write` meets: an error, or room for `k` bytes. -/
inductive OpRet
  | failed (e : Errno)
  | upTo (k : Nat)

/-- The kernel's answers in one pass of the loop, the clock's readings included. -/
structure Pass where
  timeStart : Timespec
  poll : PollRet
  op : OpRet
  timeEnd : Timespec

structure Sock where
  incoming : List UInt8
  outgoing : List UInt8
deriving DecidableEq

/-- `io_op(fd, buf, n)` with `k` bytes of room: how many bytes were moved, and what became of the
buffer and the socket. -/
abbrev IoOp := (k : Nat) → (buf : List UInt8) → Sock → Nat × List UInt8 × Sock

/-- `read`; 0 bytes at the end of the stream. -/
def Sock.read : IoOp := fun k buf s =>
  let got := s.incoming.take (min k buf.length)
  (got.length, got ++ buf.drop got.length, { s with incoming := s.incoming.drop got.length })

/-- `write` -/
def Sock.write : IoOp := fun k buf s =>
  let given := buf.take k
  (given.length, buf, { s with outgoing := s.outgoing ++ given })

/-- `iteration_ms`, a `uint64_t` -/
def iterationMs (timeStart timeEnd : Timespec) : UInt64 :=
  .ofInt ((timeEnd.tvSec - timeStart.tvSec) * 1000 +
    (timeEnd.tvNsec - timeStart.tvNsec).tdiv 1000000)

/-- `timeout_ms -= iteration_ms`: 64-bit unsigned subtraction, narrowed to `int`. -/
def subMs (timeoutMs : Int32) (iterationMs : UInt64) : Int32 :=
  (timeoutMs.toInt64.toUInt64 - iterationMs).toUInt32.toInt32

/-- What a call leaves: its `errno` if it returned -1 (`none`: it returned `buflen`), the caller's
buffer, the socket. -/
structure IoResult where
  errno : Option Errno
  buf : List UInt8
  sock : Sock

/-- The loop of `io_op_timeout`. `done ++ buf` is the caller's buffer, `buf` its last `n` bytes. -/
def ioLoop (ioOp : IoOp) (hasTimeout : Bool) (done buf : List UInt8) (timeoutMs : Int32) (s : Sock)
    (passes : List Pass) : Option IoResult :=
  if buf = [] then some ⟨none, done, s⟩
  else if hasTimeout ∧ timeoutMs ≤ 0 then some ⟨some .etimedout, done ++ buf, s⟩
  else
    match passes with
    | [] => none
    | p :: passes =>
      match p.poll with
      | .failed e => some ⟨some e, done ++ buf, s⟩
      | .timeout => some ⟨some .etimedout, done ++ buf, s⟩
      | .ready true => some ⟨some .epipe, done ++ buf, s⟩
      | .ready false =>
        let timeoutMs :=
          if hasTimeout then subMs timeoutMs (iterationMs p.timeStart p.timeEnd) else timeoutMs
        match p.op with
        | .failed e =>
          if e = .eintr ∨ e = .eagain then ioLoop ioOp hasTimeout done buf timeoutMs s passes
          else some ⟨some e, done ++ buf, s⟩
        | .upTo k =>
          let (ioBytes, buf, s) := ioOp k buf s
          if ioBytes = 0 then some ⟨some .epipe, done ++ buf, s⟩
          else ioLoop ioOp hasTimeout (done ++ buf.take ioBytes) (buf.drop ioBytes) timeoutMs s passes

/-- `io_op_timeout` -/
def ioOpTimeout (ioOp : IoOp) (buf : List UInt8) (timeoutMs : Int32) (s : Sock)
    (passes : List Pass) : Option IoResult :=
  ioLoop ioOp (0 < timeoutMs) [] buf timeoutMs s passes

/-- `read_timeout` -/
def readTimeout (s : Sock) (buf : List UInt8) (timeoutMs : Int32) (passes : List Pass) :
    Option IoResult :=
  ioOpTimeout Sock.read buf timeoutMs s passes

/-- `write_timeout` -/
def writeTimeout (s : Sock) (buf : List UInt8) (timeoutMs : Int32) (passes : List Pass) :
    Option IoResult :=
  ioOpTimeout Sock.write buf timeoutMs s passes

/-! ## What a pass does -/

/-- The loop goes on after the pass: bytes can be moved, or the operation is to be repeated. -/
def Pass.GoesOn (p : Pass) : Prop :=
  match p.poll, p.op with
  | .ready false, .upTo k => 0 < k
  | .ready false, .failed e => e = .eintr ∨ e = .eagain
  | _, _ => False

/-- The bytes that can be moved in the pass. -/
def Pass.bytes (p : Pass) : Nat :=
  match p.op with
  | .upTo k => k
  | .failed _ => 0

/-- What is left of the time limit after some passes. -/
def budget (timeoutMs : Int32) (passes : List Pass) : Int32 :=
  passes.foldl (fun t p => subMs t (iterationMs p.timeStart p.timeEnd)) timeoutMs

end Cpglock
