import Cpglock.Client.Proof.Process
import Cpglock.Cluster.Proof.Writes

/-!
# Programs keep the rules

In a calm run the processes are the clients that the daemons' theorems are about: the numbers of their
LOCKs are fresh, and they unlock once what they were given (`World.Inv`). So the daemons run without
failures (`World.Inv.run`), and a HELD variable stands for a lock that its connection holds.
-/

namespace Cpglock

/-- The numbers of the LOCKs of process `pid` that daemon `n` read. -/
def Sys.readTids (s : Sys) (n pid : UInt32) : List UInt32 :=
  (s.trace.filterMap (Obs.asker n)).filterMap fun q => if q.1 = pid then some q.2 else none

/-- Connection `fd` of daemon `n` holds the lock of `r` with the id `i`. -/
def Sys.Gives (s : Sys) (n : UInt32) (fd : Nat) (i : UInt64) (r : Resource) : Prop :=
  ∃ g, s.Holds n fd g ∧ g.lockid = i ∧ g.resource = r

/-! ## Steps of the daemons -/

section

variable {s s' : Sys} {a : Act} {n pid : UInt32} {fd : Nat}

theorem Sys.askers_step (hs : s.step a = some s') (hleave : s.NobodyLeaves a) (n : UInt32) :
    s'.trace.filterMap (Obs.asker n) =
      s.trace.filterMap (Obs.asker n) ++ a.seen.filterMap (Obs.asker n) := by
  obtain ⟨members, left, join, boot, rfl, -, rfl⟩ | ⟨k, nd, m, out, rfl, -, -, rfl⟩ |
    ⟨k, nd, d, pos, cause, seen, -, -, hl, rfl⟩ := Sys.step_cases hs
  · obtain rfl : left = [] := hleave
    rw [show (s.change members [] join boot).trace = s.trace from List.append_nil _]
    exact (List.append_nil _).symm
  · exact (List.append_nil _).symm
  · obtain rfl := hl.seen_eq
    rw [Sys.run, List.filterMap_append, List.filterMap_append, filterMap_asker_effects,
      List.append_nil]

/-- The numbers of a process change when a LOCK of it is read. -/
theorem Sys.readTids_step (hs : s.step a = some s') (hleave : s.NobodyLeaves a)
    (hread : ∀ f m, a = .recv n f m → m.request = .lock → m.ownerPid ≠ pid) :
    s'.readTids n pid = s.readTids n pid := by
  rw [Sys.readTids, Sys.askers_step hs hleave, List.filterMap_append]
  refine (congrArg _ (List.filterMap_eq_nil_iff.2 fun q hq => ?_)).trans (List.append_nil _)
  obtain ⟨o, ho, hoq⟩ := List.mem_filterMap.1 hq
  cases a with
  | recv k f m =>
    rw [List.mem_singleton.1 ho, Obs.asker] at hoq
    split at hoq
    · next h =>
      obtain rfl := Option.some.inj hoq
      exact if_neg (hread f m (by rw [h.1]) h.2)
    · cases hoq
  | close => rw [List.mem_singleton.1 ho] at hoq; cases hoq
  | _ => cases ho

theorem Sys.readTids_recv {m : CpgLockMsg} (hs : s.step (.recv n fd m) = some s')
    (hm : m.request = .lock) (hpid : m.ownerPid = pid) :
    s'.readTids n pid = s.readTids n pid ++ [m.ownerTid] := by
  rw [Sys.readTids, Sys.askers_step hs trivial, List.filterMap_append]
  simp [Act.seen, Obs.asker, hm, hpid, Sys.readTids]

/-- A daemon that reads a message writes nothing. -/
theorem Sys.writes_recv {k : UInt32} {f : Nat} {m : CpgLockMsg}
    (hs : s.step (.recv k f m) = some s') (n : UInt32) (fd : Nat) : s.writes s' n fd = [] := by
  obtain ⟨members, left, join, boot, he, -⟩ | ⟨k', nd, g, out, he, -⟩ |
    ⟨k', nd, d, pos, cause, seen, -, -, hl, rfl⟩ := Sys.step_cases hs
  · cases he
  · cases he
  · obtain rfl := hl.seen_eq
    cases hl with
    | recv _ =>
      rw [Sys.writes_run ((Daemon.silent_clientActivityCb ..).replies.trans (List.append_nil _).symm)]
      simp

/-- Where a daemon's connections and their pids come from. -/
theorem Sys.clients_step (hs : s.step a = some s') (hstay : s.ClientsStay a) {nd' : Node}
    (hn : s'.nodes n = some nd') {c : ClientItem} (hc : c ∈ nd'.d.clients) :
    c.pid = 0 ∨ (∃ nd, s.nodes n = some nd ∧ c ∈ nd.d.clients) ∨
      ∃ m, a = .recv n c.fd m ∧ m.request = .lock ∧ c.pid = m.ownerPid := by
  obtain ⟨members, left, join, boot, rfl, -, rfl⟩ | ⟨k, nd, m, out, rfl, hk, -, rfl⟩ |
    ⟨k, nd, d, pos, cause, seen, hk, -, hl, rfl⟩ := Sys.step_cases hs
  · obtain ⟨-, ⟨x, -, -, -, rfl⟩ | ⟨-, hn⟩⟩ := Sys.nodesAfter_cases hn
    · cases hc
    · exact .inr (.inl ⟨nd', hn, hc⟩)
  · rcases Sys.setNode_cases hn with ⟨rfl, rfl⟩ | ⟨-, hn⟩
    · exact .inr (.inl ⟨nd, hk, hc⟩)
    · exact .inr (.inl ⟨nd', hn, hc⟩)
  · rcases Sys.setNode_cases hn with ⟨rfl, rfl⟩ | ⟨-, hn⟩
    · have hc : c ∈ d.clients := hc
      cases hl with
      | @deliver e =>
        rw [(Daemon.grows_deliver nd.d nd.pos e).clients] at hc
        exact .inr (.inl ⟨nd, hk, hc⟩)
      | connect =>
        rcases List.mem_append.1 hc with hc | hc
        · exact .inr (.inl ⟨nd, hk, hc⟩)
        · exact .inl (by rw [List.mem_singleton.1 hc])
      | @recv fd m =>
        rw [Daemon.clients_clientActivityCb] at hc
        split at hc
        · next hm =>
          obtain ⟨c₀, hc₀, rfl⟩ := List.mem_map.1 hc
          by_cases hf : c₀.fd = fd
          · subst hf
            rw [if_pos rfl]
            exact .inr (.inr ⟨m, rfl, hm, rfl⟩)
          · rw [if_neg hf]
            exact .inr (.inl ⟨nd, hk, hc₀⟩)
        · split at hc
          · exact .inr (.inl ⟨nd, hk, List.mem_of_mem_eraseP hc⟩)
          · exact .inr (.inl ⟨nd, hk, hc⟩)
      | close => exact hstay.elim
    · exact .inr (.inl ⟨nd', hn, hc⟩)

/-- A connection that was just accepted has no pid. -/
theorem Sys.connect_pid (hs : s.step (.connect n fd) = some s') {nd : Node}
    (hn : s'.nodes n = some nd) {c : ClientItem} (hc : c ∈ nd.d.clients) (hf : c.fd = fd) :
    c.pid = 0 := by
  obtain ⟨members, left, join, boot, he, -⟩ | ⟨k, nd', g, out, he, -⟩ |
    ⟨k, nd', d, pos, cause, seen, -, -, hl, rfl⟩ := Sys.step_cases hs
  · cases he
  · cases he
  · cases hl with
    | connect hfd =>
      obtain rfl := Option.some.inj ((Sys.setNode_self ..).symm.trans hn)
      rcases List.mem_append.1 hc with hc | hc
      · exact absurd (List.mem_map.2 ⟨c, hc, hf⟩) hfd
      · rw [List.mem_singleton.1 hc]

end

namespace Process.Ok

variable {ι κ : Type} {p : Process ι κ} {read : List UInt32} {G : UInt64 → Resource → Prop}

/-- Every id of a process is given. -/
theorem given (h : p.Ok read G) {i : UInt64}
    (hi : i ∈ p.grantIds ++ p.unlockIds ∨ ∃ v, p.Holds v ∧ p.idOf v = i) : ∃ r, G i r := by
  rcases hi with hi | ⟨v, hv, rfl⟩
  · rcases List.mem_append.1 hi with hi | hi
    · obtain ⟨m, hm, rfl⟩ := List.mem_map.1 hi
      obtain ⟨hm, hg⟩ := List.mem_filter.1 hm
      exact ⟨_, h.grants m hm (of_decide_eq_true hg)⟩
    · exact h.unlocks i hi
  · exact ⟨_, h.held v hv⟩

/-- A step of the daemons in which none reads a message of the process. -/
theorem other {s s' : Sys} {a : Act} {n : UInt32} {fd : Nat}
    (h : p.Ok (s.readTids n p.handle.pid) (s.Gives n fd))
    (hr : Runs (fun s a => s.FailureFree a ∧ s.UnlocksHeld a) .init s)
    (hp : s.FailureFree a ∧ s.UnlocksHeld a) (hs : s.step a = some s')
    (hlock : ∀ f m, a = .recv n f m → m.request = .lock → m.ownerPid ≠ p.handle.pid)
    (hback : ∀ f m, a = .recv n f m → m.request = .unlock → f ≠ fd) (hdump : ¬a.Dumps n fd) :
    (p.receive (s.writes s' n fd)).Ok (s'.readTids n p.handle.pid) (s'.Gives n fd) := by
  obtain ⟨hleave, hstay, -, -, honce⟩ := hp.1
  obtain ⟨hwrites, hnodup⟩ := Runs.writes (fun _ _ h => h) hr hp hs n fd
  rw [Sys.readTids_step hs hleave hlock]
  have hmono : ∀ i r, s.Gives n fd i r → s'.Gives n fd i r := by
    rintro i r ⟨g, hg, rfl, rfl⟩
    refine ⟨g, hg.step hs hleave hstay (fun ht => ?_) hdump, rfl, rfl⟩
    -- the id would be that of another connection
    cases a with
    | recv k f m =>
      obtain ⟨rfl, hm, hid⟩ := ht
      obtain ⟨g', hg', hid'⟩ := Runs.holds_of_ids (fun _ _ h => h) hr (honce hm)
      exact hback f m rfl hm (Runs.holds_inj (fun _ _ h => h) hr hg' hg (hid'.trans hid)).1
    | _ => exact ht
  refine Process.Ok.receive (G := s'.Gives n fd) (h.mono fun i r hi => .inl (hmono i r hi))
    (fun m hm hg => ⟨m, (hwrites m hm hg).1, rfl, rfl⟩) hnodup fun m hm hg => ⟨fun hi => ?_, fun v hv he => ?_⟩
  · obtain ⟨r, g, hg', hid, -⟩ := h.given (.inl hi)
    exact (hwrites m hm hg).2 fd g hg' hid
  · obtain ⟨r, g, hg', hid, -⟩ := h.given (.inr ⟨v, hv, he⟩)
    exact (hwrites m hm hg).2 fd g hg' hid

end Process.Ok

/-! ## Runs -/

/-- The daemons run without failures, and every process keeps its numbers and ids apart. -/
structure World.Inv {ι κ : Type} (w : World ι κ) : Prop where
  run : Runs (fun s a => s.FailureFree a ∧ s.UnlocksHeld a) .init w.sys
  procs : ∀ n fd p, w.procs n fd = some p → p.handle.pid ≠ 0 ∧ p.handle.pid ∈ w.pids n ∧
    p.Ok (w.sys.readTids n p.handle.pid) (w.sys.Gives n fd)
  once : ∀ n fd fd' p p', w.procs n fd = some p → w.procs n fd' = some p' →
    p.handle.pid = p'.handle.pid → fd = fd'
  asked : ∀ n, ∀ q ∈ w.sys.trace.filterMap (Obs.asker n), q.1 ∈ w.pids n
  clients : ∀ n nd, w.sys.nodes n = some nd → ∀ c ∈ nd.d.clients,
    c.pid = 0 ∨ ∃ p, w.procs n c.fd = some p ∧ c.pid = p.handle.pid

namespace World.Inv

variable {ι κ : Type} {w w' : World ι κ}

theorem init : (World.init : World ι κ).Inv where
  run := .start
  procs n fd p h := by cases h
  once n fd fd' p p' h := by cases h
  asked n q h := by cases h
  clients n nd h := by cases h

/-- The daemons' step keeps the rules. -/
theorem allowed (h : w.Inv) {a : Act} (hF : w.sys.FailureFree a) :
    w.sys.FailureFree a ∧ w.sys.UnlocksHeld a :=
  ⟨hF, Runs.unlocksHeld (fun _ _ h => h) h.run hF.2.2.2.2⟩

/-- A step of the daemons that reads no message of a process. -/
theorem daemon (h : w.Inv) {a : Act} (hF : w.sys.FailureFree a)
    (hread : ∀ n f m, a = .recv n f m → m.request = .dump ∧ w.procs n f = none)
    (hw : w.daemon a = some w') : w'.Inv := by
  obtain ⟨s', hs, rfl⟩ := Option.map_eq_some_iff.1 hw
  have hp := h.allowed hF
  have hno : ∀ n f m, a = .recv n f m → m.request ≠ .lock ∧ m.request ≠ .unlock := by
    intro n f m ha
    simp [(hread n f m ha).1]
  have hproc : ∀ n fd p', (w.procs n fd).map (fun p => p.receive (w.sys.writes s' n fd)) = some p' →
      ∃ p, w.procs n fd = some p ∧ p' = p.receive (w.sys.writes s' n fd) := by
    intro n fd p' hp'
    obtain ⟨p, hp, rfl⟩ := Option.map_eq_some_iff.1 hp'
    exact ⟨p, hp, rfl⟩
  refine ⟨.next h.run hp hs, fun n fd p' hp' => ?_, fun n fd fd' p₁ p₂ h₁ h₂ he => ?_,
    fun n q hq => ?_, fun n nd hn c hc => ?_⟩
  · obtain ⟨p, hpr, rfl⟩ := hproc n fd p' hp'
    obtain ⟨h0, hmem, hok⟩ := h.procs n fd p hpr
    refine ⟨h0, hmem, hok.other h.run hp hs (fun f m ha hm => absurd hm (hno n f m ha).1)
      (fun f m ha hm => absurd hm (hno n f m ha).2) fun hd => ?_⟩
    cases a with
    | recv k f m =>
      obtain ⟨rfl, rfl, -⟩ := hd
      rw [(hread k f m rfl).2] at hpr
      cases hpr
    | _ => exact hd
  · obtain ⟨q₁, hq₁, rfl⟩ := hproc n fd p₁ h₁
    obtain ⟨q₂, hq₂, rfl⟩ := hproc n fd' p₂ h₂
    exact h.once n fd fd' q₁ q₂ hq₁ hq₂ he
  · rw [Sys.askers_step hs hF.1] at hq
    rcases List.mem_append.1 hq with hq | hq
    · exact h.asked n q hq
    · obtain ⟨o, ho, hoq⟩ := List.mem_filterMap.1 hq
      cases a with
      | recv k f m =>
        rw [List.mem_singleton.1 ho, Obs.asker, if_neg fun hm => (hno k f m rfl).1 hm.2] at hoq
        cases hoq
      | close => rw [List.mem_singleton.1 ho] at hoq; cases hoq
      | _ => cases ho
  · rcases Sys.clients_step hs hF.2.1 hn hc with h0 | ⟨nd₀, hn₀, hc₀⟩ | ⟨m, ha, hm, -⟩
    · exact .inl h0
    · refine (h.clients n nd₀ hn₀ c hc₀).imp_right ?_
      rintro ⟨p, hpr, he⟩
      exact ⟨p.receive (w.sys.writes s' n c.fd), by
        show (w.procs n c.fd).map _ = _
        rw [hpr]
        rfl, he⟩
    · exact absurd hm (hno n _ m ha).1

theorem setProc_cases {n k : UInt32} {fd f : Nat} {p q : Process ι κ}
    (hq : (w.setProc n fd p).procs k f = some q) :
    k = n ∧ f = fd ∧ q = p ∨ ¬(k = n ∧ f = fd) ∧ w.procs k f = some q := by
  have hq : (if k = n ∧ f = fd then some p else w.procs k f) = some q := hq
  split at hq
  · next hkf => exact .inl ⟨hkf.1, hkf.2, (Option.some.inj hq).symm⟩
  · next hkf => exact .inr ⟨hkf, hq⟩

section

variable {n k : UInt32} {fd f : Nat} {p p' q : Process ι κ}

/-- The process had a pid when its state changed. -/
theorem setProc_old (hpr : w.procs n fd = some p) (hpid : p'.handle.pid = p.handle.pid)
    (hq : (w.setProc n fd p').procs k f = some q) :
    ∃ q₀, w.procs k f = some q₀ ∧ q₀.handle.pid = q.handle.pid := by
  rcases setProc_cases hq with ⟨rfl, rfl, rfl⟩ | ⟨-, hq⟩
  · exact ⟨p, hpr, hpid.symm⟩
  · exact ⟨q, hq, rfl⟩

theorem setProc_new (hpr : w.procs n fd = some p) (hpid : p'.handle.pid = p.handle.pid)
    (hq : w.procs k f = some q) :
    ∃ q', (w.setProc n fd p').procs k f = some q' ∧ q'.handle.pid = q.handle.pid := by
  by_cases hkf : k = n ∧ f = fd
  · refine ⟨p', if_pos hkf, ?_⟩
    obtain ⟨rfl, rfl⟩ := hkf
    obtain rfl := Option.some.inj (hpr.symm.trans hq)
    exact hpid
  · exact ⟨q, (if_neg hkf).trans hq, rfl⟩

theorem setProc_once (h : w.Inv) (hpr : w.procs n fd = some p)
    (hpid : p'.handle.pid = p.handle.pid) {f' : Nat} {q' : Process ι κ}
    (hq : (w.setProc n fd p').procs k f = some q) (hq' : (w.setProc n fd p').procs k f' = some q')
    (he : q.handle.pid = q'.handle.pid) : f = f' := by
  obtain ⟨p₁, hp₁, he₁⟩ := setProc_old hpr hpid hq
  obtain ⟨p₂, hp₂, he₂⟩ := setProc_old hpr hpid hq'
  exact h.once k f f' p₁ p₂ hp₁ hp₂ (he₁.trans (he.trans he₂.symm))

/-- Another state of one process, with the same handle. -/
theorem setProc (h : w.Inv) (hpr : w.procs n fd = some p) (hpid : p'.handle.pid = p.handle.pid)
    (hok : p'.Ok (w.sys.readTids n p.handle.pid) (w.sys.Gives n fd)) : (w.setProc n fd p').Inv := by
  refine ⟨h.run, fun k f q hq => ?_, fun k f f' q q' hq hq' => h.setProc_once hpr hpid hq hq',
    h.asked, fun k nd hk c hc => ?_⟩
  · rcases setProc_cases hq with ⟨rfl, rfl, rfl⟩ | ⟨-, hq⟩
    · obtain ⟨h0, hmem, -⟩ := h.procs k f p hpr
      rw [hpid]
      exact ⟨h0, hmem, hok⟩
    · exact h.procs k f q hq
  · refine (h.clients k nd hk c hc).imp_right ?_
    rintro ⟨q, hq, he⟩
    obtain ⟨q', hq', he'⟩ := setProc_new hpr hpid hq
    exact ⟨q', hq', he.trans he'.symm⟩

end

/-- A step of a process. -/
theorem process (h : w.Inv) {n : UInt32} {fd : Nat} {f : Process ι κ → Option (Process ι κ)}
    (hf : ∀ p p' read G, w.procs n fd = some p → p.Ok read G → f p = some p' →
      p'.Ok read G ∧ p'.handle.pid = p.handle.pid)
    (hw : w.process n fd f = some w') : w'.Inv := by
  obtain ⟨p, hpr, hw⟩ := Option.bind_eq_some_iff.1 hw
  obtain ⟨p', hp', rfl⟩ := Option.map_eq_some_iff.1 hw
  obtain ⟨-, -, hok⟩ := h.procs n fd p hpr
  obtain ⟨hok', hpid⟩ := hf p p' _ _ hpr hok hp'
  exact h.setProc hpr hpid hok'

/-- A new process. -/
theorem enter (h : w.Inv) {n pid : UInt32} {fd : Nat} (h0 : pid ≠ 0) (hpid : pid ∉ w.pids n)
    (hfd : ∀ nd, w.sys.nodes n = some nd → ∀ c ∈ nd.d.clients, c.fd = fd → c.pid = 0) :
    ({ w.setProc n fd (.init pid) with
      pids := fun k => if k = n then pid :: w.pids k else w.pids k } : World ι κ).Inv := by
  have hsub : ∀ k, ∀ q ∈ w.pids k, q ∈ if k = n then pid :: w.pids k else w.pids k := by
    intro k q hq
    split
    · exact List.mem_cons_of_mem _ hq
    · exact hq
  -- the others have other pids
  have hother : ∀ {f q}, w.procs n f = some q → q.handle.pid ≠ pid := by
    rintro f q hq rfl
    exact hpid (h.procs n f q hq).2.1
  refine ⟨h.run, fun k f q hq => ?_, fun k f f' q₁ q₂ h₁ h₂ he => ?_,
    fun k q hq => hsub k _ (h.asked k q hq), fun k nd hk c hc => ?_⟩
  · rcases setProc_cases hq with ⟨rfl, rfl, rfl⟩ | ⟨-, hq⟩
    · have hnil : w.sys.readTids k pid = [] := by
        refine List.filterMap_eq_nil_iff.2 fun x hx => if_neg fun he => hpid ?_
        rw [← he]
        exact h.asked k x hx
      refine ⟨h0, ?_, ?_⟩
      · show pid ∈ if k = k then pid :: w.pids k else w.pids k
        rw [if_pos rfl]
        exact List.mem_cons_self
      · show (Process.init pid : Process ι κ).Ok (w.sys.readTids k pid) _
        rw [hnil]
        exact Process.init_ok
    · obtain ⟨h0, hmem, hok⟩ := h.procs k f q hq
      exact ⟨h0, hsub k _ hmem, hok⟩
  · rcases setProc_cases h₁ with ⟨rfl, rfl, rfl⟩ | ⟨-, h₁'⟩
    · rcases setProc_cases h₂ with ⟨-, rfl, -⟩ | ⟨-, h₂'⟩
      · rfl
      · exact absurd he.symm (hother h₂')
    · rcases setProc_cases h₂ with ⟨rfl, rfl, rfl⟩ | ⟨-, h₂'⟩
      · exact absurd he (hother h₁')
      · exact h.once k f f' q₁ q₂ h₁' h₂' he
  · by_cases hkf : k = n ∧ c.fd = fd
    · obtain ⟨rfl, hf⟩ := hkf
      exact .inl (hfd nd hk c hc hf)
    · refine (h.clients k nd hk c hc).imp_right ?_
      rintro ⟨q, hq, he⟩
      exact ⟨q, (if_neg hkf).trans hq, he⟩

section

variable {n : UInt32} {fd : Nat} {p : Process ι κ} {m : CpgLockMsg} {sent : List CpgLockMsg}

/-- What a process has written keeps the rules. -/
theorem sent_failureFree (h : w.Inv) (hpr : w.procs n fd = some p) (hsent : p.sent = m :: sent) :
    w.sys.FailureFree (.recv n fd m) := by
  obtain ⟨h0, -, hok⟩ := h.procs n fd p hpr
  have hm := hok.sent m (by rw [hsent]; exact List.mem_cons_self)
  refine ⟨trivial, trivial, ⟨fun hl => ?_, fun nd hn c hc hf => ⟨fun hl => ?_, fun hd => ?_⟩⟩,
    fun hl hmem => ?_, fun hu => ?_⟩
  · have hpid := (hm.resolve_right (by simp [hl])).2
    rwa [hpid]
  · have hpid := (hm.resolve_right (by simp [hl])).2
    refine (h.clients n nd hn c hc).imp_right ?_
    rintro ⟨q, hq, he⟩
    rw [hf, hpr] at hq
    obtain rfl := Option.some.inj hq
    exact he.trans hpid.symm
  · simp [hd] at hm
  · -- its number is still in the socket
    have hpid := (hm.resolve_right (by simp [hl])).2
    have hread : m.ownerTid ∈ w.sys.readTids n p.handle.pid :=
      List.mem_filterMap.2 ⟨_, hmem, if_pos hpid⟩
    have htids : m.ownerTid ∈ p.lockTids := by simp [Process.lockTids, hsent, hl]
    exact (List.nodup_append.1 hok.numbers).2.2 _ hread _ htids rfl
  · obtain ⟨r, g, hg, hid, -⟩ := hok.unlocks m.lockid (by simp [Process.unlockIds, hsent, hu])
    rw [← hid]
    exact hg.2.2

/-- The process whose message is read. -/
theorem read_ok (h : w.Inv) {s' : Sys} (hpr : w.procs n fd = some p) (hsent : p.sent = m :: sent)
    (hs : w.sys.step (.recv n fd m) = some s') :
    ({ p with sent } : Process ι κ).Ok (s'.readTids n p.handle.pid) (s'.Gives n fd) := by
  obtain ⟨hleave, hstay, -⟩ := h.sent_failureFree hpr hsent
  obtain ⟨-, -, hok⟩ := h.procs n fd p hpr
  rcases hok.sent m (by rw [hsent]; exact List.mem_cons_self) with ⟨hl, hpid⟩ | hu
  · rw [Sys.readTids_recv hs hl hpid]
    refine (hok.readLock hsent hl).mono fun i r => ?_
    rintro ⟨g, hg, rfl, rfl⟩
    refine .inl ⟨g, hg.step hs hleave hstay (fun ht => ?_) fun hd => ?_, rfl, rfl⟩
    · exact absurd (hl.symm.trans ht.2.1) (by decide)
    · exact absurd (hl.symm.trans hd.2.2) (by decide)
  · rw [Sys.readTids_step hs hleave]
    · refine hok.readUnlock hsent hu fun i r => ?_
      rintro ⟨g, hg, rfl, rfl⟩
      by_cases hid : g.lockid = m.lockid
      · exact .inr hid
      · refine .inl ⟨g, hg.step hs hleave hstay (fun ht => hid ht.2.2.symm) fun hd => ?_, rfl, rfl⟩
        exact absurd (hu.symm.trans hd.2.2) (by decide)
    · rintro f m' ⟨⟩ hl
      exact absurd (hu.symm.trans hl) (by decide)

/-- A daemon reads the next message of a process. -/
theorem read (h : w.Inv) (hpr : w.procs n fd = some p) (hsent : p.sent = m :: sent)
    (hw : (w.setProc n fd { p with sent }).daemon (.recv n fd m) = some w') : w'.Inv := by
  obtain ⟨s', hs, rfl⟩ := Option.map_eq_some_iff.1 hw
  have hs : w.sys.step (.recv n fd m) = some s' := hs
  have hp := h.allowed (h.sent_failureFree hpr hsent)
  obtain ⟨h0, hmem, hok⟩ := h.procs n fd p hpr
  have hm := hok.sent m (by rw [hsent]; exact List.mem_cons_self)
  have hpid : ({ p with sent } : Process ι κ).handle.pid = p.handle.pid := rfl
  -- nothing is written
  have hproc : ∀ {k f q}, ((w.setProc n fd { p with sent }).procs k f).map
      (fun q => q.receive (w.sys.writes s' k f)) = some q →
      (w.setProc n fd { p with sent }).procs k f = some q := by
    intro k f q hq
    obtain ⟨q₀, hq₀, rfl⟩ := Option.map_eq_some_iff.1 hq
    rw [Sys.writes_recv hs]
    simpa [Process.receive] using hq₀
  refine ⟨.next h.run hp hs, fun k f q hq => ?_, fun k f f' q q' hq hq' =>
    h.setProc_once hpr hpid (hproc hq) (hproc hq'), fun k q hq => ?_, fun k nd hk c hc => ?_⟩
  · rcases setProc_cases (hproc hq) with ⟨rfl, rfl, rfl⟩ | ⟨hkf, hq'⟩
    · exact ⟨h0, hmem, h.read_ok hpr hsent hs⟩
    · obtain ⟨hq0, hqm, hqok⟩ := h.procs k f q hq'
      have := hqok.other h.run hp hs ?_ ?_ ?_
      · rw [Sys.writes_recv hs] at this
        refine ⟨hq0, hqm, ?_⟩
        simpa [Process.receive] using this
      · rintro f' m' ⟨⟩ hl he
        have hpid := (hm.resolve_right (by simp [hl])).2
        exact hkf ⟨rfl, h.once _ _ _ _ _ hq' hpr (he.symm.trans hpid)⟩
      · rintro f' m' ⟨⟩ hu rfl
        exact hkf ⟨rfl, rfl⟩
      · rintro ⟨rfl, rfl, -⟩
        exact hkf ⟨rfl, rfl⟩
  · rw [Sys.askers_step hs trivial] at hq
    rcases List.mem_append.1 hq with hq | hq
    · exact h.asked k q hq
    · obtain ⟨o, ho, hoq⟩ := List.mem_filterMap.1 hq
      rw [List.mem_singleton.1 ho, Obs.asker] at hoq
      split at hoq
      · next hnk =>
        obtain ⟨rfl, hl⟩ := hnk
        obtain rfl := Option.some.inj hoq
        rw [(hm.resolve_right (by simp [hl])).2]
        exact hmem
      · cases hoq
  · have hset : ∀ {q}, w.procs k c.fd = some q → ∃ q', ((w.setProc n fd { p with sent }).procs k c.fd).map
        (fun q => q.receive (w.sys.writes s' k c.fd)) = some q' ∧ q'.handle.pid = q.handle.pid := by
      intro q hq
      obtain ⟨q', hq', he⟩ := setProc_new hpr hpid hq
      exact ⟨q'.receive (w.sys.writes s' k c.fd), by rw [hq']; rfl, he⟩
    rcases Sys.clients_step hs trivial hk hc with hc0 | ⟨nd₀, hn₀, hc₀⟩ | ⟨m', ha, hl, hcp⟩
    · exact .inl hc0
    · refine (h.clients k nd₀ hn₀ c hc₀).imp_right ?_
      rintro ⟨q, hq, he⟩
      obtain ⟨q', hq', he'⟩ := hset hq
      exact ⟨q', hq', he.trans he'.symm⟩
    · obtain ⟨rfl, rfl, rfl⟩ := Act.recv.inj ha
      obtain ⟨q', hq', he'⟩ := hset hpr
      exact .inr ⟨q', hq', hcp.trans ((hm.resolve_right (by simp [hl])).2.trans he'.symm)⟩

end

variable [DecidableEq ι] [DecidableEq κ]

/-- The daemons see no failure in a calm step. -/
theorem failureFree (h : w.Inv) {a : WorldAct ι κ} (hcalm : w.Calm a) (hs : w.step a = some w') :
    ∀ b ∈ w.act a, w.sys.FailureFree b := by
  intro b hb
  cases a with
  | confchg members left join boot =>
    obtain rfl := Option.some.inj hb
    exact ⟨hcalm, trivial, trivial, trivial, trivial⟩
  | dump n fd =>
    obtain rfl := Option.some.inj hb
    refine ⟨trivial, trivial, ⟨fun hl => (by cases hl), fun nd hn c hc hf =>
      ⟨fun hl => (by cases hl), fun _ => ?_⟩⟩, fun hl => (by cases hl), fun hu => (by cases hu)⟩
    simp only [World.step] at hs
    split at hs
    · cases hs
    · next hproc =>
      refine (h.clients n nd hn c hc).resolve_right ?_
      rintro ⟨p, hp, -⟩
      rw [hf] at hp
      exact hproc (by rw [hp]; rfl)
  | read n fd =>
    obtain ⟨p, hpr, hb⟩ := Option.bind_eq_some_iff.1 hb
    obtain ⟨m, hm, rfl⟩ := Option.map_eq_some_iff.1 hb
    obtain ⟨sent, hsent⟩ := List.head?_eq_some_iff.1 hm
    exact h.sent_failureFree hpr hsent
  | order => obtain rfl := Option.some.inj hb; exact ⟨trivial, trivial, trivial, trivial, trivial⟩
  | deliver => obtain rfl := Option.some.inj hb; exact ⟨trivial, trivial, trivial, trivial, trivial⟩
  | connect => obtain rfl := Option.some.inj hb; exact ⟨trivial, trivial, trivial, trivial, trivial⟩
  | init => obtain rfl := Option.some.inj hb; exact ⟨trivial, trivial, trivial, trivial, trivial⟩
  | call => cases hb
  | wake => cases hb
  | unlock => cases hb

/-- One calm step. -/
theorem step (h : w.Inv) {a : WorldAct ι κ} (hcalm : w.Calm a) (hs : w.step a = some w') :
    w'.Inv := by
  have hF := h.failureFree hcalm hs
  cases a with
  | confchg members left join boot => exact h.daemon (hF _ rfl) (by rintro n f m ⟨⟩) hs
  | order n => exact h.daemon (hF _ rfl) (by rintro n f m ⟨⟩) hs
  | deliver n => exact h.daemon (hF _ rfl) (by rintro n f m ⟨⟩) hs
  | connect n fd =>
    simp only [World.step] at hs
    split at hs
    · cases hs
    · exact h.daemon (hF _ rfl) (by rintro n f m ⟨⟩) hs
  | dump n fd =>
    simp only [World.step] at hs
    split at hs
    · cases hs
    · next hproc =>
      refine h.daemon (hF _ rfl) ?_ hs
      rintro n f m ⟨⟩
      exact ⟨rfl, by simpa using hproc⟩
  | init n fd pid =>
    obtain ⟨w₁, hw₁, rfl⟩ := Option.map_eq_some_iff.1 hs
    have h₁ := h.daemon (hF _ rfl) (by rintro n f m ⟨⟩) hw₁
    obtain ⟨s', hs', rfl⟩ := Option.map_eq_some_iff.1 hw₁
    exact h₁.enter hcalm.1 hcalm.2 fun nd hn c hc hf => Sys.connect_pid hs' hn hc hf
  | read n fd =>
    obtain ⟨p, hpr, hs⟩ := Option.bind_eq_some_iff.1 hs
    split at hs
    · cases hs
    · next m sent hsent => exact h.read hpr hsent hs
  | call n fd i getpid resource flags v write read =>
    refine h.process (fun p p' rd G hpr hok hp => ?_) hs
    obtain ⟨hfree, h0⟩ := hcalm p hpr
    exact hok.call hfree h0 hp
  | wake n fd i read => exact h.process (fun p p' rd G _ hok hp => hok.wake hp) hs
  | unlock n fd i getpid v write => exact h.process (fun p p' rd G _ hok hp => hok.unlock hp) hs

end World.Inv

namespace World

variable {ι κ : Type} [DecidableEq ι] [DecidableEq κ] {w w' : World ι κ}

theorem inv {P : World ι κ → WorldAct ι κ → Prop} (hP : ∀ w a, P w a → w.Calm a)
    (h : Transition.Run step P .init w) : w.Inv :=
  h.invariant (I := Inv) .init fun hi hp hs => hi.step (hP _ _ hp) hs

/-- A step of the world is one of the daemons, or none. -/
theorem step_act {a : WorldAct ι κ} (hs : w.step a = some w') :
    w'.sys = w.sys ∧ w.act a = none ∨ ∃ b, w.act a = some b ∧ w.sys.step b = some w'.sys := by
  have hdaemon : ∀ {w : World ι κ} {b : Act} {w' : World ι κ}, w.daemon b = some w' →
      w.sys.step b = some w'.sys := by
    intro w b w' hw
    obtain ⟨s', hs', rfl⟩ := Option.map_eq_some_iff.1 hw
    exact hs'
  have hprocess : ∀ {n : UInt32} {fd : Nat} {f : Process ι κ → Option (Process ι κ)},
      w.process n fd f = some w' → w'.sys = w.sys := by
    intro n fd f hw
    obtain ⟨p, -, hw⟩ := Option.bind_eq_some_iff.1 hw
    obtain ⟨p', -, rfl⟩ := Option.map_eq_some_iff.1 hw
    rfl
  cases a with
  | confchg => exact .inr ⟨_, rfl, hdaemon hs⟩
  | order => exact .inr ⟨_, rfl, hdaemon hs⟩
  | deliver => exact .inr ⟨_, rfl, hdaemon hs⟩
  | connect n fd =>
    simp only [step] at hs
    split at hs
    · cases hs
    · exact .inr ⟨_, rfl, hdaemon hs⟩
  | dump n fd =>
    simp only [step] at hs
    split at hs
    · cases hs
    · exact .inr ⟨_, rfl, hdaemon hs⟩
  | init n fd pid =>
    obtain ⟨w₁, hw₁, rfl⟩ := Option.map_eq_some_iff.1 hs
    exact .inr ⟨_, rfl, (hdaemon hw₁ :)⟩
  | read n fd =>
    obtain ⟨p, hpr, hs⟩ := Option.bind_eq_some_iff.1 hs
    split at hs
    · cases hs
    · next m sent hsent =>
      exact .inr ⟨.recv n fd m, by rw [act, hpr, Option.bind_some, hsent]; rfl, (hdaemon hs :)⟩
  | call => exact .inl ⟨hprocess hs, rfl⟩
  | wake => exact .inl ⟨hprocess hs, rfl⟩
  | unlock => exact .inl ⟨hprocess hs, rfl⟩

/-- The daemons of a world run by the steps it takes. -/
theorem run_sys {P : World ι κ → WorldAct ι κ → Prop} {Q : Sys → Act → Prop}
    (h : Transition.Run step P .init w)
    (hQ : ∀ w w' a b, Transition.Run step P .init w → P w a → w.step a = some w' →
      w.act a = some b → Q w.sys b) : Runs Q .init w.sys := by
  induction h with
  | start => exact .start
  | @next w w' a hr hp hs ih =>
    rcases step_act hs with ⟨he, -⟩ | ⟨b, hb, hsys⟩
    · rw [he]
      exact ih
    · exact .next ih (hQ w w' a b hr hp hs hb) hsys

end World

end Cpglock
