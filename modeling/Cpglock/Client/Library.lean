import Cpglock.Client.Connect
import Cpglock.Daemon.Types
import Cpglock.Lib.Transition

/-!
# The library's descriptors (`lib/libcpglock.c`)

A program calls the library's functions in any order, with handles that it got and has not given
back, and may fork; the run goes on in the child. What `io_op_timeout` and the kernel do in a call
is any list of `poll`, `read` and `write` on its descriptor. The library leaves open exactly the
connections of the handles, whatever fails, and a child asks nothing of the connections it has
inherited (`library_descriptors`).
-/

namespace Cpglock

open FdCall

/-- The connection and the process of a `struct cpg_lock_handle`. -/
structure LibHandle where
  fd : Nat
  pid : UInt32
deriving DecidableEq

structure Library where
  getpid : UInt32
  sys : SysCalls
  handles : List LibHandle

/-- A call with its arguments and what the kernel answers. -/
inductive LibCall
  | init (k : ConnectCalls)
  | lock (handle : Option LibHandle) (resource : List UInt8) (io : List IoKind) (errno : Errno)
  | unlock (handle : Option LibHandle) (lock : CpgLock) (io : List IoKind) (errno : Errno)
  | dump (k : ConnectCalls) (io : List IoKind) (write : Option Errno) (reads : List IoKind)
      (errno : Errno) (close : Option Errno)
  | fin (handle : Option LibHandle) (close : Option Errno)
  | fork (child : UInt32)

/-- `CPG_LOCKD_SOCK` -/
def cpgLockdSock : List UInt8 := "/var/run/cpglockd.sk".toList.map fun c => .ofNat c.toNat

namespace Library

def start (pid : UInt32) : Library := { getpid := pid, sys := ⟨0, .other 0, []⟩, handles := [] }

def fdCalls (l : Library) : List (FdCall SockOp) := l.sys.calls.map Prod.snd

def setErrno (l : Library) (errno : Errno) : Library := { l with sys := { l.sys with errno } }

/-- `cpg_lock_init` -/
def cpgLockInit (l : Library) (k : ConnectCalls) : Option Library :=
  (sockConnect (some cpgLockdSock) k l.sys).map fun
    | (none, sys) => { l with sys }
    | (some fd, sys) => { l with sys, handles := l.handles ++ [⟨fd, l.getpid⟩] }

/-- `read_timeout` or `write_timeout` on the handle's connection. -/
def ios (l : Library) (h : LibHandle) (io : List IoKind) (errno : Errno) : Library :=
  { l with sys := { l.sys.ios h.fd io with errno } }

/-- `cpg_lock` -/
def cpgLock (l : Library) (handle : Option LibHandle) (resource : List UInt8) (io : List IoKind)
    (errno : Errno) : Library :=
  match handle with
  | none => l.setErrno .einval
  | some h =>
    if h.pid ≠ l.getpid then l.setErrno .ebadf
    else if 96 ≤ resource.length then l.setErrno .enametoolong
    else l.ios h io errno

/-- `cpg_unlock` -/
def cpgUnlock (l : Library) (handle : Option LibHandle) (lock : CpgLock) (io : List IoKind)
    (errno : Errno) : Library :=
  match handle with
  | none => l.setErrno .einval
  | some h =>
    if h.pid ≠ l.getpid then l.setErrno .ebadf
    else if lock.state ≠ .held then l.setErrno .einval
    else if lock.localId = 0 then l.setErrno .einval
    else l.ios h io errno

/-- `cpg_lock_dump` -/
def cpgLockDump (l : Library) (k : ConnectCalls) (io : List IoKind) (write : Option Errno)
    (reads : List IoKind) (errno : Errno) (close : Option Errno) : Option Library :=
  (sockConnect (some cpgLockdSock) k l.sys).map fun
    | (none, sys) => { l with sys }
    | (some fd, sys) =>
      match write with
      | some e => { l with sys := { sys.ios fd io with errno := e }.closeSaved fd close }
      | none => { l with sys := { (sys.ios fd io).ios fd reads with errno }.close fd close }

/-- `cpg_lock_fin` -/
def cpgLockFin (l : Library) (handle : Option LibHandle) (close : Option Errno) : Library :=
  match handle with
  | none => l.setErrno .einval
  | some h =>
    if h.pid ≠ l.getpid then l.setErrno .ebadf
    else
      { l with
        sys := (l.sys.call (.uses h.fd .shutdown)).close h.fd close
        handles := l.handles.erase h }

/-- The program goes on in the child. -/
def fork (l : Library) (child : UInt32) : Library :=
  { l with getpid := child, sys := { l.sys with forks := l.sys.forks + 1 } }

/-- The kernel opens what is not open, a program passes handles that it has, and a child's pid is
that of no handle. -/
def Enabled (l : Library) : LibCall → Prop
  | .init k => ∀ fd, k.socket.toOption = some fd → fd ∉ openAfter l.fdCalls
  | .dump k .. => ∀ fd, k.socket.toOption = some fd → fd ∉ openAfter l.fdCalls
  | .lock h .. => ∀ x, h = some x → x ∈ l.handles
  | .unlock h .. => ∀ x, h = some x → x ∈ l.handles
  | .fin h _ => ∀ x, h = some x → x ∈ l.handles
  | .fork child => child ∉ l.handles.map (·.pid)

instance (l : Library) (c : LibCall) : Decidable (l.Enabled c) := by
  cases c <;> unfold Enabled <;> infer_instance

/-- One call, `none` where it is not enabled or does not return. -/
def step (l : Library) (c : LibCall) : Option Library :=
  if l.Enabled c then
    match c with
    | .init k => l.cpgLockInit k
    | .lock h resource io errno => some (l.cpgLock h resource io errno)
    | .unlock h lock io errno => some (l.cpgUnlock h lock io errno)
    | .dump k io write reads errno close => l.cpgLockDump k io write reads errno close
    | .fin h close => some (l.cpgLockFin h close)
    | .fork child => some (l.fork child)
  else none

end Library

/-! ## The calls of a process -/

/-- The process that last opened the descriptor, as its number of forks. -/
def opener (calls : List (Nat × FdCall SockOp)) (fd : Nat) : Option Nat :=
  (calls.reverse.find? fun x => x.2 = .opens fd).map Prod.fst

/-- The process that makes the call has opened its descriptor. -/
def Own (pre : List (Nat × FdCall SockOp)) (x : Nat × FdCall SockOp) : Prop :=
  match x.2 with
  | .opens _ => True
  | .uses fd _ => opener pre fd = some x.1
  | .closes fd => opener pre fd = some x.1

theorem opener_concat (calls : List (Nat × FdCall SockOp)) (n : Nat) (x : FdCall SockOp)
    (fd : Nat) :
    opener (calls ++ [(n, x)]) fd = if x = .opens fd then some n else opener calls fd := by
  unfold opener
  rw [List.reverse_concat, List.find?_cons]
  by_cases hx : x = .opens fd <;> simp [hx]

namespace SysCalls

variable {c c' : SysCalls} {fd : Nat}

/-- The descriptors that are open. -/
def fds (c : SysCalls) : List Nat := openAfter (c.calls.map Prod.snd)

/-- Each call finds its descriptor, which its process has opened. -/
structure Sound (c : SysCalls) : Prop where
  find : AllFind (fun _ _ => False) (c.calls.map Prod.snd)
  own : ∀ pre x post, c.calls = pre ++ x :: post → Own pre x

theorem Sound.nodup (h : c.Sound) : c.fds.Nodup := h.find.nodup fun _ _ h => h

/-- Only the calls count. -/
theorem Sound.congr (h : c.Sound) (hc : c'.calls = c.calls) : c'.Sound := by
  cases c
  cases c'
  obtain rfl := hc
  exact ⟨h.find, h.own⟩

theorem Sound.call (h : c.Sound) {x : FdCall SockOp} (hx : x.Finds c.fds)
    (hown : Own c.calls (c.forks, x)) : (c.call x).Sound := by
  constructor
  · rw [SysCalls.call, List.map_append]
    exact allFind_concat.2 ⟨h.find, .inl hx⟩
  · intro pre y post he
    rcases List.eq_nil_or_concat' post with rfl | ⟨post, z, rfl⟩
    · obtain ⟨rfl, hy⟩ := List.append_inj' he rfl
      obtain rfl := List.singleton_inj.1 hy
      exact hown
    · rw [← List.cons_append, ← List.append_assoc] at he
      exact h.own pre y post (List.append_inj' he rfl).1

@[simp] theorem fds_call (c : SysCalls) (x : FdCall SockOp) : (c.call x).fds = x.after c.fds := by
  rw [fds, SysCalls.call, List.map_append]
  exact openAfter_concat

/-- Uses of a descriptor that the process has opened. -/
theorem Used.sound {ops : List SockOp} (hu : c.Used fd ops c') (h : c.Sound) (hfd : fd ∈ c.fds)
    (hown : opener c.calls fd = some c.forks) :
    c'.Sound ∧ c'.fds = c.fds ∧ ∀ f, opener c'.calls f = opener c.calls f := by
  suffices hs : ∀ ops : List SockOp, let c₁ := ops.foldl (fun c op => c.call (.uses fd op)) c
      c₁.Sound ∧ c₁.fds = c.fds ∧ (∀ f, opener c₁.calls f = opener c.calls f) ∧ c₁.forks = c.forks ∧
        c₁.calls = c.calls ++ ops.map fun op => (c.forks, .uses fd op) by
    obtain ⟨hsound, hfds, hopener, -, hcalls⟩ := hs ops
    rw [← hu.calls] at hcalls
    refine ⟨hsound.congr hcalls.symm, ?_, fun f => ?_⟩
    · rw [← hfds, SysCalls.fds, SysCalls.fds, hcalls]
    · rw [← hopener, hcalls]
  intro ops
  induction ops using List.reverseRecOn with
  | nil => exact ⟨h, rfl, fun _ => rfl, rfl, (List.append_nil _).symm⟩
  | append_singleton ops op ih =>
    obtain ⟨hsound, hfds, hopener, hforks, hcalls⟩ := ih
    simp only [List.foldl_append, List.foldl_cons, List.foldl_nil]
    refine ⟨hsound.call (hfds ▸ hfd) ((hopener fd).trans (hforks ▸ hown)), ?_, fun f => ?_,
      hforks, ?_⟩
    · rw [fds_call]
      exact hfds
    · rw [SysCalls.call, opener_concat, if_neg (by simp)]
      exact hopener f
    · rw [SysCalls.call, hcalls, hforks, List.map_append, List.append_assoc]
      rfl

theorem used_ios (c : SysCalls) (fd : Nat) (ks : List IoKind) :
    c.Used fd (ks.map .io) (c.ios fd ks) :=
  ⟨rfl, by rw [ios, List.map_map]; rfl⟩

end SysCalls

/-- What `sock_connect` leaves open. -/
theorem Connects.spec {k : ConnectCalls} {c c' : SysCalls} {ret : Option Nat}
    (h : Connects k c ret c') (hc : c.Sound)
    (hfree : ∀ fd, k.socket.toOption = some fd → fd ∉ c.fds) :
    c'.Sound ∧ c'.forks = c.forks ∧ (∀ fd ∈ c.fds, opener c'.calls fd = opener c.calls fd) ∧
      c'.fds = c.fds ++ ret.toList ∧
      ∀ fd ∈ ret, fd ∉ c.fds ∧ opener c'.calls fd = some c.forks := by
  have hopen : ∀ {sock ops c₁}, k.socket = .ok sock → (c.call (.opens sock)).Used sock ops c₁ →
      c₁.Sound ∧ c₁.forks = c.forks ∧ (∀ fd ∈ c.fds, opener c₁.calls fd = opener c.calls fd) ∧
      c₁.fds = c.fds ++ [sock] ∧ sock ∉ c.fds ∧ opener c₁.calls sock = some c.forks := by
    intro sock ops c₁ hsock hu
    have hnew : sock ∉ c.fds := hfree sock (by rw [hsock]; rfl)
    have hopener : ∀ fd, opener (c.call (.opens sock)).calls fd =
        if (FdCall.opens sock : FdCall SockOp) = .opens fd then some c.forks
        else opener c.calls fd :=
      fun fd => opener_concat c.calls c.forks _ fd
    obtain ⟨hsound, hfds, hsame⟩ := hu.sound (hc.call hnew trivial)
      (by rw [SysCalls.fds_call]; exact List.mem_append_right _ List.mem_cons_self)
      ((hopener sock).trans (if_pos rfl))
    refine ⟨hsound, hu.forks, fun fd hfd => ?_, ?_, hnew, ?_⟩
    · rw [hsame, hopener, if_neg]
      rintro ⟨⟩
      exact hnew hfd
    · rw [hfds, SysCalls.fds_call]
      rfl
    · rw [hsame, hopener, if_pos rfl]
  cases h with
  | stays hsock hu =>
    obtain ⟨hsound, hforks, hold, hfds, hnew, hown⟩ := hopen hsock hu
    refine ⟨hsound, hforks, hold, hfds, fun fd hfd => ?_⟩
    obtain rfl := Option.some.inj hfd
    exact ⟨hnew, hown⟩
  | @closed sock ops c₁ c' hsock hu hforks' hcalls =>
    obtain ⟨hsound, hforks, hold, hfds, hnew, hown⟩ := hopen hsock hu
    have hclosed : (c₁.call (.closes sock)).Sound :=
      hsound.call (by rw [hfds]; exact List.mem_append_right _ List.mem_cons_self)
        (hown.trans (congrArg some hforks.symm))
    refine ⟨hclosed.congr hcalls, hforks'.trans hforks, fun fd hfd => ?_, ?_, by simp⟩
    · rw [hcalls, SysCalls.call, opener_concat, if_neg (by simp)]
      exact hold fd hfd
    · have : c'.fds = (c₁.call (.closes sock)).fds := by rw [SysCalls.fds, SysCalls.fds, hcalls]
      rw [this, SysCalls.fds_call, hfds, after, List.erase_append_right _ hnew]
      simp
  | none => exact ⟨hc.congr rfl, rfl, fun _ _ => rfl, by simp [SysCalls.fds], by simp⟩

namespace Library

variable {l l' : Library}

/-- The open descriptors are those of the handles; the process has opened those of its own. -/
structure Inv (l : Library) : Prop where
  sys : l.sys.Sound
  opened : l.sys.fds = l.handles.map (·.fd)
  handles : ∀ h ∈ l.handles, h.pid = l.getpid → opener l.sys.calls h.fd = some l.sys.forks

theorem Inv.nodup (h : l.Inv) : (l.handles.map (·.fd)).Nodup := h.opened ▸ h.sys.nodup

/-- A function that returns before it does anything. -/
theorem Inv.setErrno (h : l.Inv) (errno : Errno) : (l.setErrno errno).Inv :=
  ⟨h.sys.congr rfl, h.opened, h.handles⟩

theorem Inv.ios (h : l.Inv) {x : LibHandle} (hx : x ∈ l.handles) (hpid : x.pid = l.getpid)
    (io : List IoKind) (errno : Errno) : (l.ios x io errno).Inv := by
  obtain ⟨hsound, hfds, hsame⟩ := (l.sys.used_ios x.fd io).sound h.sys
    (h.opened ▸ List.mem_map_of_mem hx) (h.handles x hx hpid)
  exact ⟨hsound.congr rfl, hfds.trans h.opened,
    fun y hy hp => (hsame y.fd).trans (h.handles y hy hp)⟩

theorem Inv.cpgLockInit (h : l.Inv) {k : ConnectCalls}
    (hk : ∀ fd, k.socket.toOption = some fd → fd ∉ l.sys.fds) (hs : l.cpgLockInit k = some l') :
    l'.Inv := by
  obtain ⟨⟨ret, sys⟩, hconn, rfl⟩ := Option.map_eq_some_iff.1 hs
  obtain ⟨hsound, hforks, hold, hfds, hret⟩ := (sockConnect_connects hconn).spec h.sys hk
  have hkept : ∀ x ∈ l.handles, x.pid = l.getpid → opener sys.calls x.fd = some sys.forks := by
    intro x hx hp
    rw [hold x.fd (h.opened ▸ List.mem_map_of_mem hx), hforks]
    exact h.handles x hx hp
  cases ret with
  | none => exact ⟨hsound, by rw [hfds, h.opened]; exact List.append_nil _, hkept⟩
  | some fd =>
    refine ⟨hsound, by rw [hfds, h.opened, List.map_append]; rfl, fun x hx hp => ?_⟩
    rcases List.mem_append.1 hx with hx | hx
    · exact hkept x hx hp
    · obtain rfl := List.mem_singleton.1 hx
      rw [hforks]
      exact (hret fd rfl).2

theorem Inv.cpgLockDump (h : l.Inv) {k : ConnectCalls} {io reads : List IoKind}
    {write close : Option Errno} {errno : Errno}
    (hk : ∀ fd, k.socket.toOption = some fd → fd ∉ l.sys.fds)
    (hs : l.cpgLockDump k io write reads errno close = some l') : l'.Inv := by
  obtain ⟨⟨ret, sys⟩, hconn, rfl⟩ := Option.map_eq_some_iff.1 hs
  obtain ⟨hsound, hforks, hold, hfds, hret⟩ := (sockConnect_connects hconn).spec h.sys hk
  have hkept : ∀ x ∈ l.handles, x.pid = l.getpid → opener sys.calls x.fd = some sys.forks := by
    intro x hx hp
    rw [hold x.fd (h.opened ▸ List.mem_map_of_mem hx), hforks]
    exact h.handles x hx hp
  cases ret with
  | none => exact ⟨hsound, by rw [hfds, h.opened]; exact List.append_nil _, hkept⟩
  | some fd =>
    obtain ⟨hnew, hown⟩ := hret fd rfl
    have hmem : fd ∈ sys.fds := by rw [hfds]; exact List.mem_append_right _ List.mem_cons_self
    -- whatever was written and read, the socket is closed
    have hclose : ∀ {ops c errno}, sys.Used fd ops c →
        Inv { l with sys := { c.call (.closes fd) with errno } } := by
      intro ops c errno hu
      obtain ⟨hc, hcfds, hsame⟩ := hu.sound hsound hmem (hown.trans (congrArg some hforks.symm))
      have hclosed := hc.call (x := .closes fd) (by rw [hcfds]; exact hmem)
        ((hsame fd).trans (hown.trans (congrArg some (hu.forks.trans hforks).symm)))
      refine ⟨hclosed.congr rfl, ?_, fun x hx hp => ?_⟩
      · show (c.call (.closes fd)).fds = _
        rw [SysCalls.fds_call, hcfds, hfds, after, List.erase_append_right _ hnew, ← h.opened]
        simp
      · show opener (c.call (.closes fd)).calls x.fd = some c.forks
        rw [SysCalls.call, opener_concat, if_neg (by simp), hsame, hu.forks]
        exact hkept x hx hp
    have hio := sys.used_ios fd io
    cases write with
    | some e => exact hclose (c := { sys.ios fd io with errno := e }) ⟨hio.forks, hio.calls⟩
    | none =>
      have hread := hio.trans ((sys.ios fd io).used_ios fd reads)
      exact hclose (c := { (sys.ios fd io).ios fd reads with errno }) ⟨hread.forks, hread.calls⟩

theorem Inv.cpgLockFin (h : l.Inv) {handle : Option LibHandle}
    (hx : ∀ x, handle = some x → x ∈ l.handles) (close : Option Errno) :
    (l.cpgLockFin handle close).Inv := by
  unfold Library.cpgLockFin
  split
  · exact h.setErrno _
  · next x =>
    have hx := hx x rfl
    have hmem : x.fd ∈ l.sys.fds := h.opened ▸ List.mem_map_of_mem hx
    split
    · exact h.setErrno _
    · next hpid =>
      have hown := h.handles x hx (not_not.1 hpid)
      have hshut := h.sys.call (x := .uses x.fd .shutdown) hmem hown
      have hopener : ∀ fd, opener (l.sys.call (.uses x.fd .shutdown)).calls fd =
          opener l.sys.calls fd := by
        intro fd
        rw [SysCalls.call, opener_concat, if_neg (by simp)]
      have hclosed := hshut.call (x := .closes x.fd) (by rw [SysCalls.fds_call]; exact hmem)
        ((hopener x.fd).trans hown)
      refine ⟨hclosed.congr rfl, ?_, fun y hy hp => ?_⟩
      · show ((l.sys.call (.uses x.fd .shutdown)).call (.closes x.fd)).fds = _
        rw [SysCalls.fds_call, SysCalls.fds_call, after, after, h.opened]
        obtain ⟨l₁, l₂, hl⟩ := List.append_of_mem hx
        have hnodup := h.nodup
        rw [hl, List.map_append, List.map_cons] at hnodup ⊢
        have hnot : x ∉ l₁ := fun hm =>
          (List.nodup_append.1 hnodup).2.2 _ (List.mem_map_of_mem hm) _ List.mem_cons_self rfl
        have hnotfd : x.fd ∉ l₁.map (·.fd) := fun hm =>
          (List.nodup_append.1 hnodup).2.2 _ hm _ List.mem_cons_self rfl
        rw [List.erase_append_right _ hnot, List.erase_append_right _ hnotfd, List.erase_cons_head,
          List.erase_cons_head, List.map_append]
      · show opener ((l.sys.call (.uses x.fd .shutdown)).call (.closes x.fd)).calls y.fd = _
        rw [SysCalls.call, opener_concat, if_neg (by simp), hopener]
        exact h.handles y (List.mem_of_mem_erase hy) hp

theorem Inv.step (h : l.Inv) {c : LibCall} (hs : l.step c = some l') : l'.Inv := by
  unfold Library.step at hs
  split at hs
  · next hen =>
    cases c with
    | init k => exact h.cpgLockInit hen hs
    | lock handle resource io errno =>
      obtain rfl := Option.some.inj hs
      unfold Library.cpgLock
      split
      · exact h.setErrno _
      · next x =>
        split
        · exact h.setErrno _
        · next hpid =>
          split
          · exact h.setErrno _
          · exact h.ios (hen x rfl) (not_not.1 hpid) io errno
    | unlock handle lock io errno =>
      obtain rfl := Option.some.inj hs
      unfold Library.cpgUnlock
      split
      · exact h.setErrno _
      · next x =>
        split
        · exact h.setErrno _
        · next hpid =>
          split
          · exact h.setErrno _
          · split
            · exact h.setErrno _
            · exact h.ios (hen x rfl) (not_not.1 hpid) io errno
    | dump k io write reads errno close => exact h.cpgLockDump hen hs
    | fin handle close =>
      obtain rfl := Option.some.inj hs
      exact h.cpgLockFin hen close
    | fork child =>
      obtain rfl := Option.some.inj hs
      exact ⟨h.sys.congr rfl, h.opened, fun x hx hp => absurd (List.mem_map.2 ⟨x, hx, hp⟩) hen⟩
  · cases hs

end Library

/-- The kernel connects socket `fd`, or `poll` finds that the daemon has gone. -/
def connecting (fd : Nat) (gone : Bool) : ConnectCalls where
  socket := .ok fd
  getfl := [.error .eintr, .ok 2]
  setfl := [.ok ()]
  connect := [.error .einprogress]
  poll := [.error .eintr, .ok ⟨1, gone⟩]
  close := some .eintr

/-- A child cannot use the connection of its parent, and one connection fails. -/
def forked : List LibCall :=
  [.init (connecting 3 false), .lock (some ⟨3, 100⟩) [97] [.poll, .write, .poll, .read] .eagain,
    .fork 101, .lock (some ⟨3, 100⟩) [97] [.poll] .eagain, .fin (some ⟨3, 100⟩) none,
    .init (connecting 4 true), .init (connecting 4 false), .fin (some ⟨4, 101⟩) none]

end Cpglock
