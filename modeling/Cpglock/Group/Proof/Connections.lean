import Mathlib
import Cpglock.Daemon.Proof.Claims
import Cpglock.Daemon.Proof.Replies
import Cpglock.Group.FixedGroup

/-!
# What was asked on a connection

`received t n fd` and `asked t n fd`: the requests that daemon `n` received on its open connection
`fd`, and those of them it has not answered. As long as a process has one connection at a time
(`Sys.OneConnection`), the pid of a request leads back to its connection (`Runs.conns`).
-/

namespace Cpglock

/-- The requests received on connection `fd` of daemon `n` since it was opened, after an
observation. -/
def Obs.receivedAfter (n : UInt32) (fd : Nat) (ks : List RequestKey) : Obs → List RequestKey
  | .recv k f m =>
    if k = n ∧ f = fd then
      if m.request = .lock then ks ++ [{ m with ownerNodeid := n }.key]
      else if m.request = .dump then [] else ks
    else ks
  | .closed k f => if k = n ∧ f = fd then [] else ks
  | .left k => if k = n then [] else ks
  | .reply _ _ _ => ks
  | .mcast _ _ _ => ks

/-- Those of them that are not answered. -/
def Obs.askedAfter (n : UInt32) (fd : Nat) (ks : List RequestKey) : Obs → List RequestKey
  | .reply k f g => if k = n ∧ f = fd then ks.erase g.key else ks
  | o => o.receivedAfter n fd ks

def received (t : List Obs) (n : UInt32) (fd : Nat) : List RequestKey :=
  t.foldl (Obs.receivedAfter n fd) []

def asked (t : List Obs) (n : UInt32) (fd : Nat) : List RequestKey :=
  t.foldl (Obs.askedAfter n fd) []

/-- A process that sends a LOCK has no other open connection on the daemon. -/
def Sys.OneConnection (s : Sys) : Act → Prop
  | .recv n fd m => m.request = .lock →
    ∀ nd ∈ s.nodes n, ∀ c ∈ nd.d.clients, c.pid = m.ownerPid → c.fd = fd
  | _ => True

instance (s : Sys) (a : Act) : Decidable (s.LibClient a) := by
  refine a.casesOn ?_ ?_ ?_ ?_ ?_ ?_ <;> intros <;> dsimp only [Sys.LibClient] <;> infer_instance

instance (s : Sys) (a : Act) : Decidable (s.OneConnection a) := by
  refine a.casesOn ?_ ?_ ?_ ?_ ?_ ?_ <;>
    intros <;> dsimp only [Sys.OneConnection] <;> infer_instance

/-! ## Observations -/

/-- The daemon that an observation is about. -/
def Obs.node : Obs → UInt32
  | .recv n _ _ => n
  | .closed n _ => n
  | .reply n _ _ => n
  | .mcast n _ _ => n
  | .left n => n

section

variable {n : UInt32} {fd : Nat} {t l : List Obs}

theorem received_append : received (t ++ l) n fd = l.foldl (Obs.receivedAfter n fd) (received t n fd) :=
  List.foldl_append

theorem asked_append : asked (t ++ l) n fd = l.foldl (Obs.askedAfter n fd) (asked t n fd) :=
  List.foldl_append

theorem foldl_eq_self {α β : Type} {f : α → β → α} {l : List β} {a : α} (h : ∀ b ∈ l, f a b = a) :
    l.foldl f a = a := by
  induction l with
  | nil => rfl
  | cons b l ih =>
    rw [List.foldl_cons, h b List.mem_cons_self]
    exact ih fun b' hb' => h b' (List.mem_cons_of_mem _ hb')

theorem Obs.receivedAfter_of_ne {o : Obs} (h : o.node ≠ n) (ks : List RequestKey) :
    o.receivedAfter n fd ks = ks := by
  cases o <;> simp only [Obs.node, ne_eq] at h <;> simp [Obs.receivedAfter, h]

theorem Obs.askedAfter_of_ne {o : Obs} (h : o.node ≠ n) (ks : List RequestKey) :
    o.askedAfter n fd ks = ks := by
  cases o <;> simp only [Obs.node, ne_eq] at h <;>
    simp [Obs.askedAfter, Obs.receivedAfter, h]

/-- What is asked was received. -/
theorem asked_sublist (t : List Obs) (n : UInt32) (fd : Nat) :
    (asked t n fd).Sublist (received t n fd) := by
  induction t using List.reverseRecOn with
  | nil => exact List.Sublist.refl _
  | append_singleton t o ih =>
    rw [asked_append, received_append]
    simp only [List.foldl_cons, List.foldl_nil]
    cases o with
    | reply k f g =>
      simp only [Obs.askedAfter, Obs.receivedAfter]
      split
      · exact List.erase_sublist.trans ih
      · exact ih
    | recv k f m =>
      simp only [Obs.askedAfter, Obs.receivedAfter]
      split
      · split
        · exact ih.append_right _
        · split
          · exact List.Sublist.refl _
          · exact ih
      · exact ih
    | closed k f =>
      simp only [Obs.askedAfter, Obs.receivedAfter]
      split
      · exact List.Sublist.refl _
      · exact ih
    | left k =>
      simp only [Obs.askedAfter, Obs.receivedAfter]
      split
      · exact List.Sublist.refl _
      · exact ih
    | mcast k c m => exact ih

theorem Sys.node_effects {k : UInt32} {cause : Option Nat} {d d' : Daemon} {o : Obs}
    (h : o ∈ Sys.effects k cause d d') : o.node = k := by
  rcases List.mem_append.1 h with h | h
  · obtain ⟨m, -, rfl⟩ := List.mem_map.1 h
    rfl
  · obtain ⟨p, -, rfl⟩ := List.mem_map.1 h
    rfl

theorem received_effects (cause : Option Nat) (d d' : Daemon) :
    received (t ++ Sys.effects n cause d d') n fd = received t n fd := by
  rw [received_append]
  refine foldl_eq_self fun o ho => ?_
  rcases List.mem_append.1 ho with ho | ho
  · obtain ⟨m, -, rfl⟩ := List.mem_map.1 ho
    rfl
  · obtain ⟨p, -, rfl⟩ := List.mem_map.1 ho
    rfl

/-- What is written to the connection takes requests off. -/
theorem asked_effects {cause : Option Nat} {d d' : Daemon} {rs : List (Nat × CpgLockMsg)}
    (h : d'.replies = d.replies ++ rs) : asked (t ++ Sys.effects n cause d d') n fd =
      rs.foldl (fun ks p => if p.1 = fd then ks.erase p.2.key else ks) (asked t n fd) := by
  rw [asked_append, Sys.effects, List.foldl_append, h, List.drop_left, List.foldl_map,
    List.foldl_map]
  congr 1
  · funext ks p
    simp [Obs.askedAfter]
  · exact foldl_eq_self fun _ _ => rfl

end

/-! ## Connections -/

/-- A daemon's connections have their own descriptors and processes, and a request received on an open
connection has its pid. -/
structure Conns (t : List Obs) (n : UInt32) (d : Daemon) : Prop where
  fds : (d.clients.map (·.fd)).Nodup
  pids : ∀ c ∈ d.clients, ∀ c' ∈ d.clients, c.pid ≠ 0 → c.pid = c'.pid → c = c'
  received : ∀ fd, ∀ k ∈ received t n fd, k.nodeid = n ∧ k.pid ≠ 0 ∧ ⟨fd, k.pid⟩ ∈ d.clients

theorem ClientItem.eq_of_fd {l : List ClientItem} (h : (l.map (·.fd)).Nodup) {c c' : ClientItem}
    (hc : c ∈ l) (hc' : c' ∈ l) (he : c.fd = c'.fd) : c = c' :=
  List.inj_on_of_nodup_map h hc hc' he

/-- Unlinking a connection takes it, and no other, off the list. -/
theorem mem_eraseP_fd {l : List ClientItem} (h : (l.map (·.fd)).Nodup) {fd : Nat} {c : ClientItem} :
    c ∈ l.eraseP (fun n => n.fd = fd) ↔ c ∈ l ∧ c.fd ≠ fd := by
  constructor
  · intro hc
    refine ⟨List.mem_of_mem_eraseP hc, fun he => ?_⟩
    induction l with
    | nil => cases hc
    | cons x l ih =>
      obtain ⟨hx, hl⟩ := List.nodup_cons.1 (show (x.fd :: l.map (·.fd)).Nodup from h)
      by_cases hxf : x.fd = fd
      · rw [List.eraseP_cons_of_pos (by simpa using hxf)] at hc
        exact hx (List.mem_map.2 ⟨c, hc, he.trans hxf.symm⟩)
      · rw [List.eraseP_cons_of_neg (by simpa using hxf)] at hc
        rcases List.mem_cons.1 hc with rfl | hc
        · exact hxf he
        · exact ih hl hc
  · rintro ⟨hc, hne⟩
    exact (List.mem_eraseP_of_neg (by simpa using hne)).2 hc

namespace Conns

variable {t : List Obs} {n : UInt32} {d d' : Daemon} {cause : Option Nat}

theorem start (x : MemberItem) (b : Boot) (h : ∀ fd, Cpglock.received t n fd = []) :
    Conns t n (.start x b) := by
  refine ⟨List.nodup_nil, fun c hc => ?_, fun fd k hk => ?_⟩
  · cases hc
  · rw [h] at hk
    cases hk

/-- Nothing happened to the connections. -/
theorem same (h : Conns t n d) (hc : d'.clients = d.clients) :
    Conns (t ++ [] ++ Sys.effects n cause d d') n d' := by
  refine ⟨hc ▸ h.fds, hc ▸ h.pids, fun fd k hk => ?_⟩
  rw [received_effects, List.append_nil] at hk
  exact hc ▸ h.received fd k hk

theorem connect (h : Conns t n d) {fd : Nat} (hfd : fd ∉ d.clients.map (·.fd)) :
    Conns (t ++ [] ++ Sys.effects n cause d (d.insertClient fd)) n (d.insertClient fd) := by
  have hmem : ∀ c : ClientItem, c.pid ≠ 0 → c ∈ (d.insertClient fd).clients → c ∈ d.clients := by
    intro c h0 hc
    rcases List.mem_append.1 hc with hc | hc
    · exact hc
    · rw [List.mem_singleton.1 hc] at h0
      exact absurd rfl h0
  refine ⟨?_, fun c hc c' hc' h0 he => ?_, fun f k hk => ?_⟩
  · simp only [Daemon.insertClient, List.map_append, List.map_cons, List.map_nil]
    rw [← List.concat_eq_append]
    exact h.fds.concat hfd
  · exact h.pids c (hmem c h0 hc) c' (hmem c' (he ▸ h0) hc') h0 he
  · rw [received_effects, List.append_nil] at hk
    obtain ⟨hn, hp, hm⟩ := h.received f k hk
    exact ⟨hn, hp, List.mem_append_left _ hm⟩

/-- A connection is unlinked, and what was received on it is forgotten. -/
theorem unlink (h : Conns t n d) {fd : Nat} (hc : d'.clients = d.clients.eraseP fun c => c.fd = fd)
    {o : Obs} (ho : o.receivedAfter n fd (Cpglock.received t n fd) = [])
    (hne : ∀ f, f ≠ fd → o.receivedAfter n f (Cpglock.received t n f) = Cpglock.received t n f) :
    Conns (t ++ [o] ++ Sys.effects n cause d d') n d' := by
  have hsub : List.Sublist d'.clients d.clients := hc ▸ List.eraseP_sublist
  refine ⟨h.fds.sublist (hsub.map _), fun c hm c' hm' => ?_, fun f k hk => ?_⟩
  · exact h.pids c (hsub.subset hm) c' (hsub.subset hm')
  · rw [received_effects, received_append] at hk
    simp only [List.foldl_cons, List.foldl_nil] at hk
    by_cases hf : f = fd
    · rw [hf, ho] at hk
      cases hk
    · rw [hne f hf] at hk
      obtain ⟨hn, hp, hm⟩ := h.received f k hk
      exact ⟨hn, hp, hc ▸ (mem_eraseP_fd h.fds).2 ⟨hm, hf⟩⟩

theorem recvLock (h : Conns t n d) {fd : Nat} {m : CpgLockMsg} (hm : m.request = .lock)
    (hfd : fd ∈ d.clients.map (·.fd)) (hp : m.ownerPid ≠ 0)
    (hone : ∀ c ∈ d.clients, c.pid = m.ownerPid → c.fd = fd)
    (hlib : ∀ c ∈ d.clients, c.fd = fd → c.pid = 0 ∨ c.pid = m.ownerPid)
    (hc : d'.clients = (d.setClientPid fd m.ownerPid).clients) :
    Conns (t ++ [.recv n fd m] ++ Sys.effects n cause d d') n d' := by
  have hmem : ∀ c, c ∈ d'.clients ↔ c = ⟨fd, m.ownerPid⟩ ∨ c ∈ d.clients ∧ c.fd ≠ fd := by
    intro c
    rw [hc, Daemon.setClientPid, List.mem_map]
    constructor
    · rintro ⟨c₀, hc₀, rfl⟩
      by_cases hf : c₀.fd = fd
      · left
        simp [hf]
      · exact .inr (by simp [hf, hc₀])
    · rintro (rfl | ⟨hc', hne⟩)
      · obtain ⟨c₀, hc₀, hf⟩ := List.mem_map.1 hfd
        exact ⟨c₀, hc₀, by simp [hf]⟩
      · exact ⟨c, hc', by simp [hne]⟩
  refine ⟨?_, fun c hc₁ c' hc₂ h0 he => ?_, fun f k hk => ?_⟩
  · have hmap : d'.clients.map (·.fd) = d.clients.map (·.fd) := by
      rw [hc, Daemon.setClientPid, List.map_map]
      refine List.map_congr_left fun c _ => ?_
      simp only [Function.comp_apply]
      split <;> rfl
    exact hmap ▸ h.fds
  · rcases (hmem c).1 hc₁ with rfl | ⟨hc₁, hf₁⟩ <;> rcases (hmem c').1 hc₂ with rfl | ⟨hc₂, hf₂⟩
    · rfl
    · exact absurd (hone c' hc₂ he.symm) hf₂
    · exact absurd (hone c hc₁ he) hf₁
    · exact h.pids c hc₁ c' hc₂ h0 he
  · rw [received_effects, received_append] at hk
    simp only [List.foldl_cons, List.foldl_nil, Obs.receivedAfter, true_and] at hk
    by_cases hf : f = fd
    · subst hf
      rw [if_pos rfl, if_pos hm] at hk
      rcases List.mem_append.1 hk with hk | hk
      · obtain ⟨hn, hp', hmk⟩ := h.received f k hk
        rcases hlib _ hmk rfl with h0 | h0
        · exact absurd h0 hp'
        · exact ⟨hn, hp', (hmem _).2 (.inl (congrArg (ClientItem.mk f) h0))⟩
      · rw [List.mem_singleton.1 hk]
        exact ⟨rfl, hp, (hmem _).2 (.inl rfl)⟩
    · rw [if_neg (Ne.symm hf)] at hk
      obtain ⟨hn, hp', hmk⟩ := h.received f k hk
      exact ⟨hn, hp', (hmem _).2 (.inr ⟨hmk, hf⟩)⟩

end Conns

theorem Daemon.clients_grantNextElse (d : Daemon) (m m' : CpgLockMsg) :
    (d.grantNextElse m (·.sendUnlock m')).clients = d.clients := by
  unfold grantNextElse
  cases h : d.grantNext m with
  | none => rfl
  | some d' =>
    obtain ⟨p, -, rfl⟩ := Option.map_eq_some_iff.1 h
    rfl

theorem Daemon.clients_clientActivityCb (d : Daemon) (fd : Nat) (m : CpgLockMsg) :
    (d.clientActivityCb fd m).clients =
      if m.request = .lock then (d.setClientPid fd m.ownerPid).clients
      else if m.request = .dump then d.clients.eraseP fun c => c.fd = fd
      else d.clients := by
  unfold clientActivityCb
  split
  · next h => simp [h, sendLock, sendLockMsg]
  · next h =>
    simp only [h, reduceCtorEq, if_false]
    cases d.findLockById m with
    | none => rfl
    | some m' => exact clients_grantNextElse ..
  · next h => simp [h, unlinkClient]
  · next h₁ _ h₃ => rw [if_neg h₁, if_neg h₃]

/-! ## Runs -/

/-- Connections of all daemons. -/
structure Sys.Linked (s : Sys) : Prop where
  none : ∀ n, s.nodes n = none → ∀ fd, received s.trace n fd = []
  node : ∀ n nd, s.nodes n = some nd → Conns s.trace n nd.d

section

variable {n : UInt32} {fd : Nat} {t l : List Obs}

/-- What other daemons do is nothing to this one. -/
theorem received_of_ne (h : ∀ o ∈ l, o.node ≠ n) : received (t ++ l) n fd = received t n fd := by
  rw [received_append]
  exact foldl_eq_self fun o ho => Obs.receivedAfter_of_ne (h o ho) _

theorem asked_of_ne (h : ∀ o ∈ l, o.node ≠ n) : asked (t ++ l) n fd = asked t n fd := by
  rw [asked_append]
  exact foldl_eq_self fun o ho => Obs.askedAfter_of_ne (h o ho) _

theorem received_left (left : List MemberItem) (h : n ∈ left.map (·.nodeid) ∨ received t n fd = []) :
    received (t ++ left.map fun x => .left x.nodeid) n fd = [] := by
  rw [received_append, List.foldl_map]
  generalize received t n fd = ks at h
  induction left generalizing ks with
  | nil => simpa using h
  | cons x left ih =>
    rw [List.foldl_cons]
    refine ih _ ?_
    simp only [Obs.receivedAfter]
    rcases h with h | h
    · rcases List.mem_cons.1 h with h | h
      · exact .inr (if_pos h.symm)
      · exact .inl h
    · right
      split
      · rfl
      · exact h

end

theorem Sys.Local.node_seen {s : Sys} {n : UInt32} {nd : Node} {a : Act} {d : Daemon} {pos : Nat}
    {cause : Option Nat} {seen : List Obs} (h : s.Local n nd a d pos cause seen) :
    ∀ o ∈ seen, o.node = n := by
  cases h <;> simp [Obs.node]

/-- The induction step for an invariant of the observations and the views: what other daemons do does
not matter, a daemon that starts has it, and every step of a daemon keeps it. -/
theorem Sys.traced_step {I : List Obs → UInt32 → Daemon → Prop} {s s' : Sys} {a : Act}
    (h : s.step a = some s') (hb : s.Bounded)
    (other : ∀ t l n v, I t n v → (∀ o ∈ l, Obs.node o ≠ n) → I (t ++ l) n v)
    (enter : ∀ members left join boot, a = .confchg members left join boot →
      s.ConfOk members left join → ∀ x ∈ join, ∀ b,
        I (s.trace ++ left.map fun x => .left x.nodeid) x.nodeid (.start x b))
    (one : ∀ n nd d pos cause seen, s.nodes n = some nd → s.Local n nd a d pos cause seen →
      I s.trace n (nd.view s.log n) →
      I (s.trace ++ seen ++ effects n cause nd.d d) n (Node.view s.log n { nd with d, pos }))
    (hi : ∀ n nd, s.nodes n = some nd → I s.trace n (nd.view s.log n)) :
    ∀ n nd, s'.nodes n = some nd → I s'.trace n (nd.view s'.log n) := by
  obtain ⟨members, left, join, boot, rfl, hok, rfl⟩ | ⟨n, nd, m, out, rfl, hn, hout, rfl⟩ |
    ⟨n, nd, d, pos, cause, seen, hn, -, hl, rfl⟩ := Sys.step_cases h
  · intro k nd hk
    obtain ⟨hkl, ⟨x, -, hx, rfl, rfl⟩ | ⟨-, hk⟩⟩ := Sys.nodesAfter_cases hk
    · have hv : Node.view (s.change members left join boot).log x.nodeid
          { d := .start x (boot x.nodeid), since := s.log.length, pos := s.log.length } =
            .start x (boot x.nodeid) := by
        rw [Sys.change, Node.view_append (Nat.le_refl _) rfl]
        simp [Node.view, coming]
      rw [hv]
      exact enter _ _ _ _ rfl hok x hx _
    · rw [Sys.change, Node.view_append (hb k nd hk) rfl]
      refine other _ _ k _ (hi k nd hk) ?_
      rintro o ho rfl
      obtain ⟨x, hx, rfl⟩ := List.mem_map.1 ho
      exact hkl (List.mem_map_of_mem hx)
  · intro k nd' hk
    rcases Sys.setNode_cases hk with ⟨rfl, rfl⟩ | ⟨hkn, hk⟩
    · rw [Sys.orderNext, Node.view_order (hb _ nd hn) hout]
      exact hi _ nd hn
    · rw [Sys.orderNext, Node.view_append (hb k nd' hk) (by simp [Event.own, Ne.symm hkn])]
      exact hi k nd' hk
  · intro k nd' hk
    rcases Sys.setNode_cases hk with ⟨rfl, rfl⟩ | ⟨hkn, hk⟩
    · exact one _ nd d pos cause seen hn hl (hi _ nd hn)
    · rw [Sys.run, List.append_assoc]
      refine other _ _ k _ (hi k nd' hk) fun o ho => ?_
      rcases List.mem_append.1 ho with ho | ho
      · rw [hl.node_seen o ho]
        exact Ne.symm hkn
      · rw [Sys.node_effects ho]
        exact Ne.symm hkn

theorem Conns.congr {t : List Obs} {n : UInt32} {d d' : Daemon} (h : Conns t n d)
    (hc : d'.clients = d.clients) : Conns t n d' :=
  ⟨hc ▸ h.fds, hc ▸ h.pids, fun fd k hk => hc ▸ h.received fd k hk⟩

theorem Conns.local {s : Sys} {n : UInt32} {nd : Node} {a : Act} {d : Daemon} {pos : Nat}
    {cause : Option Nat} {seen : List Obs} (h : Conns s.trace n nd.d)
    (hl : s.Local n nd a d pos cause seen) (hn : s.nodes n = some nd) (hlib : s.LibClient a)
    (hone : s.OneConnection a) :
    Conns (s.trace ++ seen ++ Sys.effects n cause nd.d d) n d := by
  cases hl with
  | deliver => exact h.same (Daemon.grows_deliver ..).clients
  | connect hfd => exact h.connect hfd
  | @recv fd m hfd =>
    have hc := nd.d.clients_clientActivityCb fd m
    by_cases hm : m.request = .lock
    · rw [if_pos hm] at hc
      exact h.recvLock hm hfd (hlib.1 hm) (hone hm nd hn)
        (fun c hcm hf => (hlib.2 nd hn c hcm hf).1 hm) hc
    · rw [if_neg hm] at hc
      by_cases hd : m.request = .dump
      · rw [if_pos hd] at hc
        refine h.unlink hc (by simp [Obs.receivedAfter, hd]) fun f hf => ?_
        simp [Obs.receivedAfter, Ne.symm hf]
      · rw [if_neg hd] at hc
        refine ⟨hc ▸ h.fds, hc ▸ h.pids, fun f k hk => ?_⟩
        rw [received_effects, received_append] at hk
        simp only [List.foldl_cons, List.foldl_nil, Obs.receivedAfter, hm, hd, if_false,
          ite_self] at hk
        exact hc ▸ h.received f k hk
  | @close fd hfd =>
    refine h.unlink (Daemon.frame_delClient nd.d fd).clients ?_ fun f hf => ?_
    · simp [Obs.receivedAfter]
    · simp [Obs.receivedAfter, Ne.symm hf]

theorem Conns.of_ne {t l : List Obs} {n : UInt32} {d : Daemon} (h : Conns t n d)
    (hl : ∀ o ∈ l, o.node ≠ n) : Conns (t ++ l) n d := by
  refine ⟨h.fds, h.pids, fun fd k hk => ?_⟩
  rw [received_of_ne hl] at hk
  exact h.received fd k hk

theorem Runs.conns {P : Sys → Act → Prop} (hP : ∀ s a, P s a → s.LibClient a ∧ s.OneConnection a)
    {s : Sys} (h : Runs P .init s) : s.Linked := by
  refine h.invariant_of (J := Sys.Sound) (I := Sys.Linked) Runs.sound
    ⟨fun _ _ _ => rfl, by intro n nd hn; cases hn⟩ fun {s s' a} hsound _ hi hp hs => ⟨?_, ?_⟩
  · obtain ⟨members, left, join, boot, rfl, -, rfl⟩ | ⟨n, nd, m, out, rfl, hn, -, rfl⟩ |
      ⟨n, nd, d, pos, cause, seen, hn, -, hl, rfl⟩ := Sys.step_cases hs
    · intro k hk fd
      refine received_left left ?_
      by_cases hkl : k ∈ left.map (·.nodeid)
      · exact .inl hkl
      · simp only [Sys.change, Sys.nodesAfter, hkl, if_false] at hk
        split at hk
        · cases hk
        · exact .inr (hi.none k hk fd)
    · intro k hk
      simp only [Sys.orderNext, Sys.setNode] at hk
      split at hk
      · cases hk
      · exact hi.none k hk
    · intro k hk fd
      have hkn : k ≠ n := by
        rintro rfl
        simp [Sys.run, Sys.setNode] at hk
      simp only [Sys.run, Sys.setNode, if_neg hkn] at hk
      rw [Sys.run, List.append_assoc, received_of_ne fun o ho => ?_]
      · exact hi.none k hk fd
      · rcases List.mem_append.1 ho with ho | ho
        · exact hl.node_seen o ho ▸ Ne.symm hkn
        · exact Sys.node_effects ho ▸ Ne.symm hkn
  · intro n nd hn
    refine Conns.congr (Sys.traced_step (I := Conns) hs hsound.bounded (fun _ _ _ _ h => h.of_ne)
      (fun members left join boot _ hok x hx b => ?_) (fun n nd d pos cause seen hn hl hc => ?_)
      (fun n nd hn => (hi.node n nd hn).congr rfl) n nd hn) rfl
    · exact .start x b fun fd => received_left left
        (.inr (hi.none _ (hsound.nodes_join hok hx) fd))
    · have hc : Conns s.trace n nd.d := hc.congr rfl
      exact (hc.local hl hn (hP s a hp).1 (hP s a hp).2).congr rfl

end Cpglock
