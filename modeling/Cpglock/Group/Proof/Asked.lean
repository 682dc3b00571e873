import Cpglock.Group.Proof.Awake

/-!
# Every identity in the system is a client's

`Sys.Asked`: some daemon read a LOCK with this identity. Every queued request and every LOCK, GRANT
and NAK, waiting or ordered, has such an identity (`Runs.fromClients`). If clients stay, the
processes that asked stay connected (`Runs.askers_connected`).
-/

namespace Cpglock

/-- The daemon of the identity's node read its LOCK. -/
def Sys.Asked (s : Sys) (k : RequestKey) : Prop :=
  ∃ fd m, Obs.recv k.nodeid fd m ∈ s.trace ∧ m.request = .lock ∧
    { m with ownerNodeid := k.nodeid }.key = k

/-- Clients do not disconnect. -/
def Sys.ClientsStay (_ : Sys) : Act → Prop
  | .close _ _ => False
  | _ => True

instance (s : Sys) (a : Act) : Decidable (s.ClientsStay a) := by
  refine a.casesOn ?_ ?_ ?_ ?_ ?_ ?_ <;> intros <;> dsimp only [Sys.ClientsStay] <;> infer_instance

theorem Sys.Asked.mono {s s' : Sys} (ht : ∀ o ∈ s.trace, o ∈ s'.trace) {k : RequestKey}
    (h : s.Asked k) : s'.Asked k := by
  obtain ⟨fd, m, hm, h⟩ := h
  exact ⟨fd, m, ht _ hm, h⟩

/-- Identities come from clients. -/
structure Sys.FromClients (s : Sys) : Prop where
  cells : ∀ n nd, s.nodes n = some nd → ∀ r, (nd.d.cell r).All s.Asked
  log : ∀ x m, Event.msg x m ∈ s.log →
    m.request = .lock ∨ m.request = .grant ∨ m.request = .nak → s.Asked m.key

theorem Cell.All.start (x : MemberItem) (b : Boot) (r : Resource) (p : RequestKey → Prop) :
    ((Daemon.start x b).cell r).All p := by
  refine ⟨by simp [Daemon.cell, Daemon.start, Daemon.sendJoin, Daemon.sendLockMsg], fun m hm hr => ?_⟩
  have hm := (List.mem_filter.1 hm).1
  simp only [Daemon.start, Daemon.sendJoin, Daemon.sendLockMsg, List.nil_append,
    List.mem_singleton] at hm
  rw [hm] at hr
  simp [CpgLockMsg.blank] at hr

theorem Sys.mem_trace_run {s : Sys} {n : UInt32} {nd : Node} {d : Daemon} {pos : Nat}
    {cause : Option Nat} {seen : List Obs} {o : Obs} (h : o ∈ s.trace ∨ o ∈ seen) :
    o ∈ (s.run n nd d pos cause seen).trace := by
  rw [Sys.run, List.append_assoc]
  rcases h with h | h
  · exact List.mem_append_left _ h
  · exact List.mem_append_right _ (List.mem_append_left _ h)

theorem Sys.FromClients.local {s : Sys} (h : s.FromClients) (hs : s.Sound) {n : UInt32} {nd : Node}
    {a : Act} {d : Daemon} {pos : Nat} {cause : Option Nat} {seen : List Obs}
    (hn : s.nodes n = some nd) (hl : s.Local n nd a d pos cause seen) (r : Resource) :
    (d.cell r).All (s.run n nd d pos cause seen).Asked := by
  have htrace : ∀ o ∈ s.trace, o ∈ (s.run n nd d pos cause seen).trace :=
    fun o ho => Sys.mem_trace_run (.inl ho)
  have hold := ((h.cells n nd hn) r).mono fun k hk => hk.mono htrace
  cases hl with
  | @deliver e he =>
    cases e with
    | confchg members left join => exact hold.configChange
    | msg x m =>
      refine hold.step (Daemon.cellStep_deliver _ nd.pos x m) fun hm => ?_
      exact (h.log x m (List.mem_of_getElem? he) (.inl hm)).mono fun o ho => Sys.mem_trace_run (.inl ho)
  | connect => exact hold
  | @recv fd m hfd =>
    refine hold.clientActivityCb fun hm => ?_
    rw [(hs.node n nd hn).me]
    exact ⟨fd, m, Sys.mem_trace_run (.inr (List.mem_singleton_self _)), hm, rfl⟩
  | close => exact hold.delClient

theorem Sys.FromClients.step {s s' : Sys} {a : Act} (h : s.FromClients) (hs : s.Sound)
    (hstep : s.step a = some s') : s'.FromClients := by
  obtain ⟨members, left, join, boot, rfl, -, rfl⟩ | ⟨n, nd, m, out, rfl, hn, hout, rfl⟩ |
    ⟨n, nd, d, pos, cause, seen, hn, -, hl, rfl⟩ := Sys.step_cases hstep
  · have hmono : ∀ k, s.Asked k → (s.change members left join boot).Asked k :=
      fun k hk => hk.mono fun o ho => List.mem_append_left _ ho
    refine ⟨fun k nd hk r => ?_, fun x m hm hr => ?_⟩
    · obtain ⟨-, ⟨x, -, -, -, rfl⟩ | ⟨-, hk⟩⟩ := Sys.nodesAfter_cases hk
      · exact .start x (boot k) r _
      · exact (h.cells k nd hk r).mono hmono
    · refine hmono _ (h.log x m ?_ hr)
      simpa [Sys.change] using hm
  · have hcells := h.cells n nd hn
    refine ⟨fun k nd' hk r => ?_, fun x m' hm' hr => ?_⟩
    · rcases Sys.setNode_cases hk with ⟨rfl, rfl⟩ | ⟨-, hk⟩
      · exact Daemon.All.pop (hcells r) fun m' hm' => by simp [hout, hm']
      · exact h.cells k nd' hk r
    · rcases List.mem_append.1 hm' with hm' | hm'
      · exact h.log x m' hm' hr
      · obtain ⟨rfl, rfl⟩ := Event.msg.inj (List.mem_singleton.1 hm')
        exact Cell.All.of_out hcells (by simp [hout]) hr
  · refine ⟨fun k nd' hk r => ?_, fun x m hm hr => ?_⟩
    · rcases Sys.setNode_cases hk with ⟨rfl, rfl⟩ | ⟨-, hk⟩
      · exact h.local hs hn hl r
      · exact (h.cells k nd' hk r).mono fun _ hk =>
          hk.mono fun o ho => Sys.mem_trace_run (.inl ho)
    · exact (h.log x m hm hr).mono fun o ho => Sys.mem_trace_run (.inl ho)

theorem Runs.fromClients {P : Sys → Act → Prop} {s : Sys} (h : Runs P .init s) : s.FromClients :=
  h.invariant_of (J := Sys.Sound) Runs.sound ⟨by intro n nd h; simp [Sys.init] at h, by simp [Sys.init]⟩
    fun hs _ hi _ hstep => hi.step hs hstep

/-- What one daemon's step observes besides what it sends and writes. -/
theorem Sys.recv_mem_run {s : Sys} {n k : UInt32} {nd : Node} {d : Daemon} {pos : Nat}
    {cause : Option Nat} {seen : List Obs} {fd : Nat} {m : CpgLockMsg}
    (h : Obs.recv k fd m ∈ (s.run n nd d pos cause seen).trace) :
    Obs.recv k fd m ∈ s.trace ∨ Obs.recv k fd m ∈ seen := by
  simp only [Sys.run, Sys.effects, List.mem_append, List.mem_map] at h
  rcases h with (h | h) | ⟨_, -, h⟩ | ⟨_, -, h⟩
  · exact .inl h
  · exact .inr h
  · cases h
  · cases h

/-- Only a `close` disconnects a process. -/
theorem Sys.Local.connected {s : Sys} {n : UInt32} {nd : Node} {a : Act} {d : Daemon} {pos : Nat}
    {cause : Option Nat} {seen : List Obs} (hn : s.nodes n = some nd)
    (h : s.Local n nd a d pos cause seen) (hstay : s.ClientsStay a) (hlib : s.LibClient a)
    {p : UInt32} (hp : p ≠ 0) (hc : nd.d.connected p = true) : d.connected p = true := by
  cases h with
  | @deliver e he =>
    exact (Daemon.connected_of_clients (Daemon.grows_deliver nd.d nd.pos e).clients p).trans hc
  | connect =>
    obtain ⟨c, hcm, hcp⟩ := Daemon.connected_iff.1 hc
    exact Daemon.connected_iff.2 ⟨c, List.mem_append_left _ hcm, hcp⟩
  | recv => exact Daemon.connected_clientActivityCb (hlib.2 nd hn) hp hc
  | close => exact hstay.elim

/-- If nobody leaves and no client disconnects, a process whose LOCK a daemon read is connected
there. -/
theorem Runs.askers_connected {P : Sys → Act → Prop}
    (hP : ∀ s a, P s a → s.ClientsStay a ∧ s.LibClient a ∧
      ∀ members left join boot, a = .confchg members left join boot → left = [])
    {s : Sys} (h : Runs P .init s) : ∀ n fd m, Obs.recv n fd m ∈ s.trace → m.request = .lock →
      m.ownerPid ≠ 0 ∧ ∃ nd, s.nodes n = some nd ∧ nd.d.connected m.ownerPid = true := by
  refine h.invariant_of (J := Sys.Sound) (I := fun s => ∀ n fd m, Obs.recv n fd m ∈ s.trace →
    m.request = .lock → m.ownerPid ≠ 0 ∧ ∃ nd, s.nodes n = some nd ∧
      nd.d.connected m.ownerPid = true) Runs.sound (by simp [Sys.init]) ?_
  intro s s' a hs _ ih hp hstep n fd m hm hl
  obtain ⟨hstay, hlib, hleft⟩ := hP s a hp
  obtain ⟨members, left, join, boot, rfl, hok, rfl⟩ | ⟨k, nd, g, out, rfl, hn, hout, rfl⟩ |
    ⟨k, nd, d, pos, cause, seen, hn, -, hloc, rfl⟩ := Sys.step_cases hstep
  · obtain rfl := hleft members left join boot rfl
    obtain ⟨h0, nd, hn, hc⟩ := ih n fd m (by simpa [Sys.change] using hm) hl
    refine ⟨h0, nd, ?_, hc⟩
    have hj : join.find? (fun x => x.nodeid = n) = none := by
      rw [List.find?_eq_none]
      intro x hx hxn
      have := hs.nodes_join hok hx
      rw [show x.nodeid = n by simpa using hxn, hn] at this
      cases this
    simp [Sys.change, Sys.nodesAfter, hj, hn]
  · obtain ⟨h0, nd', hn', hc⟩ := ih n fd m hm hl
    by_cases hk : n = k
    · subst hk
      obtain rfl := Option.some.inj (hn.symm.trans hn')
      exact ⟨h0, _, Sys.setNode_self .., hc⟩
    · exact ⟨h0, nd', (Sys.setNode_of_ne s _ hk).trans hn', hc⟩
  · rcases Sys.recv_mem_run hm with hold | hnew
    · obtain ⟨h0, nd', hn', hc⟩ := ih n fd m hold hl
      by_cases hk : n = k
      · subst hk
        obtain rfl := Option.some.inj (hn.symm.trans hn')
        exact ⟨h0, _, Sys.setNode_self .., hloc.connected hn hstay hlib h0 hc⟩
      · exact ⟨h0, nd', (Sys.setNode_of_ne s _ hk).trans hn', hc⟩
    · cases hloc with
      | @recv fd' m' hfd =>
        obtain ⟨rfl, rfl, rfl⟩ := Obs.recv.inj (List.mem_singleton.1 hnew)
        refine ⟨hlib.1 hl, _, Sys.setNode_self .., Daemon.connected_iff.2 ?_⟩
        obtain ⟨c, hcm, hcf⟩ := List.mem_map.1 hfd
        dsimp only
        simp only [Daemon.clientActivityCb, hl]
        exact ⟨_, List.mem_map.2 ⟨c, hcm, rfl⟩, by simp [hcf]⟩
      | close => exact hstay.elim
      | _ => cases hnew

end Cpglock
