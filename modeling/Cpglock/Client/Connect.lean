import Cpglock.Client.Io
import Cpglock.Lib.Descriptors

/-!
# Connecting to the daemon (`sock_connect` in `lib/cpglock_util.c`)

The kernel's answers to the calls of one `sock_connect` are given (`ConnectCalls`): a list where a
loop repeats a call that EINTR interrupts. A call whose answers are used up is still blocked
(`none`). What is recorded of the process is its `errno` and each call on a descriptor, with the
number of forks before it.
-/

namespace Cpglock

/-- `poll`, and the operations of `io_op_timeout` -/
inductive IoKind
  | poll
  | read
  | write
deriving DecidableEq

/-- What the library asks of a socket. -/
inductive SockOp
  | getfl
  | setfl (flags : UInt32)
  | connect (path : List UInt8)
  | io (k : IoKind)
  | shutdown
deriving DecidableEq

structure SysCalls where
  forks : Nat
  errno : Errno
  calls : List (Nat × FdCall SockOp)

namespace SysCalls

variable {α : Type}

def call (c : SysCalls) (x : FdCall SockOp) : SysCalls :=
  { c with calls := c.calls ++ [(c.forks, x)] }

/-- `do … while (ret < 0 && errno == EINTR)` -/
def retry (c : SysCalls) (fd : Nat) (op : SockOp) :
    List (Except Errno α) → Option (Except Errno α × SysCalls)
  | [] => none
  | .ok a :: _ => some (.ok a, c.call (.uses fd op))
  | .error e :: answers =>
    let c := { c.call (.uses fd op) with errno := e }
    if e = .eintr then c.retry fd op answers else some (.error e, c)

/-- `close`, which may set `errno`. -/
def close (c : SysCalls) (fd : Nat) (answer : Option Errno) : SysCalls :=
  { c.call (.closes fd) with errno := answer.getD c.errno }

/-- `saved_errno = errno; close(fd); errno = saved_errno;` -/
def closeSaved (c : SysCalls) (fd : Nat) (answer : Option Errno) : SysCalls :=
  let savedErrno := c.errno
  { c.close fd answer with errno := savedErrno }

/-- `poll`, `read` and `write` on one descriptor. -/
def ios (c : SysCalls) (fd : Nat) (ks : List IoKind) : SysCalls :=
  { c with calls := c.calls ++ ks.map fun k => (c.forks, .uses fd (.io k)) }

end SysCalls

/-- What `poll` finds: how many descriptors are ready, and `revents & (POLLHUP | POLLNVAL |
POLLERR)`. -/
structure Polled where
  ret : Nat
  hungUp : Bool

structure ConnectCalls where
  socket : Except Errno Nat
  getfl : List (Except Errno UInt32)
  setfl : List (Except Errno Unit)
  connect : List (Except Errno Unit)
  poll : List (Except Errno Polled)
  close : Option Errno

/-- `O_NONBLOCK` -/
def oNonblock : UInt32 := 0x800

/-- `EINPROGRESS` -/
def Errno.einprogress : Errno := .other 115

/-- `sock_connect`: the socket, or `none` for -1. `path` has no NUL. -/
def sockConnect (path : Option (List UInt8)) (k : ConnectCalls) (c : SysCalls) :
    Option (Option Nat × SysCalls) :=
  match path with
  | none => some (none, { c with errno := .einval })
  | some path =>
    if 108 ≤ path.length then some (none, { c with errno := .enametoolong })
    else
      match k.socket with
      | .error e => some (none, { c with errno := e })
      | .ok sock =>
        ((c.call (.opens sock)).retry sock .getfl k.getfl).bind fun
          | (.error _, c) => some (none, c.closeSaved sock k.close)
          | (.ok flags, c) =>
            (c.retry sock (.setfl (flags ||| oNonblock)) k.setfl).bind fun
              | (.error _, c) => some (none, c.closeSaved sock k.close)
              | (.ok _, c) =>
                (c.retry sock (.connect path) k.connect).bind fun
                  | (.ok _, c) => some (some sock, c)
                  | (.error e, c) =>
                    if e ≠ .einprogress then some (none, c.closeSaved sock k.close)
                    else
                      (c.retry sock (.io .poll) k.poll).bind fun
                        | (.error _, c) => some (none, c.closeSaved sock k.close)
                        | (.ok p, c) =>
                          if p.hungUp then
                            some (none, { c.close sock k.close with errno := .epipe })
                          else if p.ret = 0 then
                            some (none, { c.close sock k.close with errno := .etimedout })
                          else some (some sock, c)

/-! ## What it leaves open -/

namespace SysCalls

variable {c c' : SysCalls} {fd : Nat} {ops : List SockOp}

/-- `c'` is `c` after some uses of `fd`. -/
structure Used (c : SysCalls) (fd : Nat) (ops : List SockOp) (c' : SysCalls) : Prop where
  forks : c'.forks = c.forks
  calls : c'.calls = c.calls ++ ops.map fun op => (c.forks, .uses fd op)

theorem Used.refl (c : SysCalls) (fd : Nat) : c.Used fd [] c := ⟨rfl, (List.append_nil _).symm⟩

theorem Used.trans {ops' : List SockOp} {c'' : SysCalls} (h : c.Used fd ops c')
    (h' : c'.Used fd ops' c'') : c.Used fd (ops ++ ops') c'' := by
  refine ⟨h'.forks.trans h.forks, ?_⟩
  rw [h'.calls, h.calls, h.forks, List.append_assoc, List.map_append]

theorem retry_used {α : Type} {op : SockOp} {answers : List (Except Errno α)} {r : Except Errno α}
    (h : c.retry fd op answers = some (r, c')) : ∃ ops, c.Used fd ops c' := by
  induction answers generalizing c with
  | nil => cases h
  | cons a answers ih =>
    have hone : ∀ errno, c.Used fd [op] { c.call (.uses fd op) with errno } := fun _ => ⟨rfl, rfl⟩
    cases a with
    | ok a =>
      cases h
      exact ⟨[op], rfl, rfl⟩
    | error e =>
      simp only [retry] at h
      split at h
      · obtain ⟨ops, hops⟩ := ih h
        exact ⟨_, (hone e).trans hops⟩
      · cases h
        exact ⟨[op], hone e⟩

end SysCalls

/-- How `sock_connect` returns: its socket is open and was used, or it is closed again, or there is
none. -/
inductive Connects (k : ConnectCalls) (c : SysCalls) : Option Nat → SysCalls → Prop
  | stays {sock : Nat} {ops : List SockOp} {c' : SysCalls} : k.socket = .ok sock →
      (c.call (.opens sock)).Used sock ops c' → Connects k c (some sock) c'
  | closed {sock : Nat} {ops : List SockOp} {c' c'' : SysCalls} : k.socket = .ok sock →
      (c.call (.opens sock)).Used sock ops c' → c''.forks = c'.forks →
      c''.calls = (c'.call (.closes sock)).calls → Connects k c none c''
  | none {errno : Errno} : Connects k c none { c with errno }

theorem sockConnect_connects {path : Option (List UInt8)} {k : ConnectCalls} {c c' : SysCalls}
    {ret : Option Nat} (h : sockConnect path k c = some (ret, c')) : Connects k c ret c' := by
  unfold sockConnect at h
  split at h
  · cases h
    exact .none
  · split at h
    · cases h
      exact .none
    · split at h
      · cases h
        exact .none
      · next sock hsock =>
        obtain ⟨⟨r₁, c₁⟩, h₁, h⟩ := Option.bind_eq_some_iff.1 h
        obtain ⟨ops₁, hu₁⟩ := SysCalls.retry_used h₁
        cases r₁ with
        | error e =>
          cases h
          exact .closed hsock hu₁ rfl rfl
        | ok flags =>
          obtain ⟨⟨r₂, c₂⟩, h₂, h⟩ := Option.bind_eq_some_iff.1 h
          obtain ⟨ops₂, hu₂⟩ := SysCalls.retry_used h₂
          have hu₂ := hu₁.trans hu₂
          cases r₂ with
          | error e =>
            cases h
            exact .closed hsock hu₂ rfl rfl
          | ok =>
            obtain ⟨⟨r₃, c₃⟩, h₃, h⟩ := Option.bind_eq_some_iff.1 h
            obtain ⟨ops₃, hu₃⟩ := SysCalls.retry_used h₃
            have hu₃ := hu₂.trans hu₃
            cases r₃ with
            | ok =>
              cases h
              exact .stays hsock hu₃
            | error e =>
              dsimp only at h
              split at h
              · cases h
                exact .closed hsock hu₃ rfl rfl
              · obtain ⟨⟨r₄, c₄⟩, h₄, h⟩ := Option.bind_eq_some_iff.1 h
                obtain ⟨ops₄, hu₄⟩ := SysCalls.retry_used h₄
                have hu₄ := hu₃.trans hu₄
                cases r₄ with
                | error e =>
                  cases h
                  exact .closed hsock hu₄ rfl rfl
                | ok p =>
                  dsimp only at h
                  split at h
                  · cases h
                    exact .closed hsock hu₄ rfl rfl
                  · split at h
                    · cases h
                      exact .closed hsock hu₄ rfl rfl
                    · cases h
                      exact .stays hsock hu₄

end Cpglock
