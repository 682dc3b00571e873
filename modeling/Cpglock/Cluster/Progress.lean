import Cpglock.Client.Proof.Waiting
import Cpglock.Cluster.CriticalSection
import Cpglock.Cluster.Proof.Answers

/-!
# Nobody waits for nothing

In a run of patient programs whose reads and writes do not fail, a thread that waits in `cpg_lock` waits for
another one: when no message is on its way, somebody is between `cpg_lock` and `cpg_unlock` for the same
resource (`cpg_lock_waits_for_holder`). The invariant is `World.Served`: every process waits as
`Process.Waits` says for what its daemon has read and written.
-/

namespace Cpglock

theorem eq_of_filterMap_nodup {α β : Type*} {f : α → Option β} {l : List α}
    (h : (l.filterMap f).Nodup) {a b : α} {c : β} (ha : a ∈ l) (hb : b ∈ l) (hac : f a = some c)
    (hbc : f b = some c) : a = b := by
  induction l with
  | nil => cases ha
  | cons x l ih =>
    rw [List.filterMap_cons] at h
    have hmem : ∀ {y}, y ∈ l → f y = some c → c ∈ l.filterMap f := fun hy hyc =>
      List.mem_filterMap.2 ⟨_, hy, hyc⟩
    rcases List.mem_cons.1 ha with rfl | ha'
    · rw [hac] at h
      exact (List.mem_cons.1 hb).elim Eq.symm fun hb => absurd (hmem hb hbc) (List.nodup_cons.1 h).1
    · rcases List.mem_cons.1 hb with rfl | hb'
      · rw [hbc] at h
        exact absurd (hmem ha' hac) (List.nodup_cons.1 h).1
      · refine ih ?_ ha' hb'
        split at h
        · exact h
        · exact (List.nodup_cons.1 h).2

/-- No failure, UNLOCKs of holders, and no FL_TRY. -/
def Sys.Granting (s : Sys) (a : Act) : Prop := (s.FailureFree a ∧ s.UnlocksHeld a) ∧ s.NoTry a

theorem Sys.connect_fresh {s s' : Sys} {n : UInt32} {fd : Nat} (hs : s.step (.connect n fd) = some s')
    {nd : Node} (hn : s.nodes n = some nd) : fd ∉ nd.d.clients.map (·.fd) := by
  obtain ⟨members, left, join, boot, he, -⟩ | ⟨k, nd', g, out, he, -⟩ |
    ⟨k, nd', d, pos, cause, seen, hk, -, hl, rfl⟩ := Sys.step_cases hs
  · cases he
  · cases he
  · cases hl with
    | connect hfd =>
      obtain rfl := Option.some.inj (hn.symm.trans hk)
      exact hfd

theorem Sys.connect_open {s s' : Sys} {n : UInt32} {fd : Nat} (hs : s.step (.connect n fd) = some s') :
    ∃ nd, s'.nodes n = some nd ∧ fd ∈ nd.d.clients.map (·.fd) := by
  obtain ⟨members, left, join, boot, he, -⟩ | ⟨k, nd', g, out, he, -⟩ |
    ⟨k, nd', d, pos, cause, seen, hk, -, hl, rfl⟩ := Sys.step_cases hs
  · cases he
  · cases he
  · cases hl with
    | connect => exact ⟨_, Sys.setNode_self .., by simp [Daemon.insertClient]⟩

namespace World

variable {ι κ : Type} {w w' : World ι κ}

/-- Every process waits for what its daemon has read and written, and every LOCK that a daemon has read is
that of a process with an open connection. -/
structure Served (w : World ι κ) : Prop where
  procs : ∀ n fd p, w.procs n fd = some p → p.Waits (fun m => .recv n fd m ∈ w.sys.trace)
    (fun g => .reply n fd g ∈ w.sys.trace) (w.sys.Holds n fd)
  reads : ∀ n fd m, .recv n fd m ∈ w.sys.trace → m.request = .lock →
    ∃ p, w.procs n fd = some p ∧ p.handle.pid = m.ownerPid
  opened : ∀ n fd p, w.procs n fd = some p →
    ∃ nd, w.sys.nodes n = some nd ∧ fd ∈ nd.d.clients.map (·.fd)

namespace Served

theorem init : (World.init : World ι κ).Served where
  procs n fd p h := by cases h
  reads n fd m h := by cases h
  opened n fd p h := by cases h

/-- The process that a GRANT on a connection is for. -/
theorem reply_proc (hinv : w.Inv) (hr : Runs Sys.Granting .init w.sys) {n : UInt32} {fd : Nat}
    {g : CpgLockMsg} (hg : .reply n fd g ∈ w.sys.trace) :
    g.request = .grant ∧ g.ownerNodeid = n ∧ n ≠ 0 ∧ w.sys.Asked g.key ∧
      ∃ p, w.procs n fd = some p ∧ p.handle.pid = g.ownerPid := by
  have hgr := Runs.reply_granted (fun _ _ h => h) hr hg
  obtain ⟨nd, hn, -, hnode, h0, hpid, hc, hasked⟩ := Runs.reply_asked (fun _ _ h => h.1) hr hg hgr
  obtain ⟨p, hp, he⟩ := (hinv.clients n nd hn _ hc).resolve_left hpid
  exact ⟨hgr, hnode, h0, hasked, p, hp, he.symm⟩

/-- A step of the daemons in which none reads a message of the process. -/
theorem other (h : w.Served) (hinv : w.Inv) (hinv' : w'.Inv) (hr : Runs Sys.Granting .init w.sys) {a : Act}
    (hp : w.sys.Granting a) (hs : w.sys.step a = some w'.sys) {n : UInt32} {fd : Nat} {p : Process ι κ}
    (hpr : w.procs n fd = some p)
    (hpr' : w'.procs n fd = some (p.receive (w.sys.writes w'.sys n fd)))
    (hread : ∀ f m, a = .recv n f m → f ≠ fd) :
    (p.receive (w.sys.writes w'.sys n fd)).Waits (fun m => .recv n fd m ∈ w'.sys.trace)
      (fun g => .reply n fd g ∈ w'.sys.trace) (w'.sys.Holds n fd) := by
  have hleave := hp.1.1.1
  have hr' := Transition.Run.next hr hp hs
  have hrecv : (fun m => .recv n fd m ∈ w'.sys.trace) = fun m => Obs.recv n fd m ∈ w.sys.trace := by
    funext m
    refine propext ((Sys.recv_step hs hleave).trans (or_iff_left ?_))
    rintro rfl
    exact hread fd m rfl rfl
  have hpid : ∀ g, .reply n fd g ∈ w'.sys.trace → g.ownerPid = p.handle.pid := by
    intro g hg
    obtain ⟨-, -, -, -, q, hq, he⟩ := reply_proc hinv' hr' hg
    obtain rfl := Option.some.inj (hq.symm.trans hpr')
    exact he.symm
  have hmem : ∀ g ∈ w.sys.writes w'.sys n fd, .reply n fd g ∈ w'.sys.trace := fun g hg =>
    (Sys.reply_step hs hleave).2 (.inr hg)
  obtain ⟨hnumbers, hnew⟩ := Runs.writes_numbers (fun _ _ h => h) hr hp hs n fd
  rw [hrecv]
  refine (h.procs n fd p hpr).receive (fun g => Sys.reply_step hs hleave) (fun g hg => ?_)
    (fun g hg => ?_) ?_ fun g hg g' hg' he => ?_
  · exact (Runs.holds_back (fun _ _ h => h.1) hr hp hs hg).imp_left And.left
  · obtain ⟨hgr, hnode, h0, ⟨f, m, hm, hl, hkey⟩, -⟩ := reply_proc hinv' hr' (hmem g hg)
    have hn : g.key.nodeid = n := hnode
    rw [hn] at hm hkey
    have hm' : .recv n f m ∈ w.sys.trace := by
      refine ((Sys.recv_step hs hleave).1 hm).resolve_right ?_
      -- a daemon that reads a message writes nothing
      rintro rfl
      rw [Sys.writes_recv hs] at hg
      cases hg
    obtain ⟨q, hq, hqm⟩ := h.reads n f m hm' hl
    have hmp : m.ownerPid = g.ownerPid := congrArg RequestKey.pid hkey
    have hf := hinv.once n f fd q p hq hpr (hqm.trans (hmp.trans (hpid g (hmem g hg))))
    rw [hf] at hm'
    refine ⟨hgr, hnode ▸ h0, m, hm', hl, ?_⟩
    exact ⟨congrArg RequestKey.resource hkey, congrArg RequestKey.tid hkey⟩
  · refine List.Nodup.map_on (fun g hg g' hg' he => ?_) (List.Nodup.of_map _ hnumbers)
    refine List.inj_on_of_nodup_map hnumbers hg hg' ?_
    exact Prod.ext ((hpid g (hmem g hg)).trans (hpid g' (hmem g' hg')).symm) he
  · refine hnew g hg g' hg' (Prod.ext ?_ he)
    exact (hpid g' ((Sys.reply_step hs hleave).2 (.inl hg'))).trans (hpid g (hmem g hg)).symm

/-- The daemons' step reads no message of a process. -/
theorem daemon (h : w.Served) (hinv : w.Inv) (hinv' : w'.Inv) (hr : Runs Sys.Granting .init w.sys) {a : Act}
    (hp : w.sys.Granting a)
    (hread : ∀ n f m, a = .recv n f m → m.request = .dump ∧ w.procs n f = none)
    (hw : w.daemon a = some w') : w'.Served := by
  obtain ⟨s', hs, rfl⟩ := Option.map_eq_some_iff.1 hw
  have hleave := hp.1.1.1
  refine ⟨fun n fd p' hp' => ?_, fun n fd m hm hl => ?_, fun n fd p' hp' => ?_⟩
  · obtain ⟨p, hpr, rfl⟩ := Option.map_eq_some_iff.1 hp'
    refine h.other hinv hinv' hr hp hs hpr hp' ?_
    rintro f m ha rfl
    rw [(hread n f m ha).2] at hpr
    cases hpr
  · have hm := ((Sys.recv_step hs hleave).1 hm).resolve_right fun ha => by
      rw [(hread n fd m ha).1] at hl
      cases hl
    obtain ⟨p, hpr, he⟩ := h.reads n fd m hm hl
    exact ⟨p.receive (w.sys.writes s' n fd), congrArg (Option.map _) hpr, he⟩
  · obtain ⟨p, hpr, -⟩ := Option.map_eq_some_iff.1 hp'
    obtain ⟨nd, hn, hfd⟩ := h.opened n fd p hpr
    refine Sys.stays_step (Runs.sound hr) hs hleave hp.1.1.2.1 (fun hd => ?_) hn hfd
    cases a with
    | recv k f m =>
      obtain ⟨rfl, rfl, -⟩ := hd
      rw [(hread k f m rfl).2] at hpr
      cases hpr
    | _ => exact hd

/-- A new process on a connection that was just accepted. -/
theorem enter (h : w'.Served) (hr' : Runs Sys.Granting .init w'.sys) {n pid : UInt32} {fd : Nat}
    (hnone : w'.procs n fd = none)
    (hopen : ∃ nd, w'.sys.nodes n = some nd ∧ fd ∈ nd.d.clients.map (·.fd))
    (hfd : ∀ nd, w'.sys.nodes n = some nd → ∀ c ∈ nd.d.clients, c.fd = fd → c.pid = 0)
    (pids : UInt32 → List UInt32) :
    ({ w'.setProc n fd (.init pid) with pids } : World ι κ).Served := by
  have hreply : ∀ g, .reply n fd g ∉ w'.sys.trace := by
    intro g hg
    obtain ⟨nd, hn, -, -, -, hpid, hc, -⟩ := Runs.reply_asked (fun _ _ h => h.1) hr' hg
      (Runs.reply_granted (fun _ _ h => h) hr' hg)
    exact hpid (hfd nd hn _ hc rfl)
  have hrecv : ∀ m, .recv n fd m ∈ w'.sys.trace → m.request ≠ .lock := by
    intro m hm hl
    obtain ⟨p, hpr, -⟩ := h.reads n fd m hm hl
    rw [hnone] at hpr
    cases hpr
  refine ⟨fun k f q hq => ?_, fun k f m hm hl => ?_, fun k f q hq => ?_⟩
  · rcases Inv.setProc_cases hq with ⟨rfl, rfl, rfl⟩ | ⟨-, hq⟩
    · exact Process.init_waits hrecv hreply fun g hg => hreply g hg.1
    · exact h.procs k f q hq
  · obtain ⟨q, hq, he⟩ := h.reads k f m hm hl
    refine ⟨q, (if_neg ?_).trans hq, he⟩
    rintro ⟨rfl, rfl⟩
    exact hrecv m hm hl
  · rcases Inv.setProc_cases hq with ⟨rfl, rfl, -⟩ | ⟨-, hq⟩
    · exact hopen
    · exact h.opened k f q hq

/-- A daemon reads the next message of a process. -/
theorem read (h : w.Served) (hinv : w.Inv) (hinv' : w'.Inv) (hr : Runs Sys.Granting .init w.sys) {n : UInt32}
    {fd : Nat} {p : Process ι κ} {m : CpgLockMsg} {sent : List CpgLockMsg}
    (hp : w.sys.Granting (.recv n fd m)) (hpr : w.procs n fd = some p) (hsent : p.sent = m :: sent)
    (hw : (w.setProc n fd { p with sent }).daemon (.recv n fd m) = some w') : w'.Served := by
  obtain ⟨s', hs, rfl⟩ := Option.map_eq_some_iff.1 hw
  have hs : w.sys.step (.recv n fd m) = some s' := hs
  have hnil : ∀ k f, w.sys.writes s' k f = [] := Sys.writes_recv hs
  have hm := (hinv.procs n fd p hpr).2.2.sent m (by rw [hsent]; exact List.mem_cons_self)
  -- nothing is written
  have hreceive : ∀ q : Process ι κ, q.receive [] = q := by
    intro q
    simp [Process.receive]
  have hprocs : ∀ k f, ((w.setProc n fd { p with sent }).procs k f).map
      (fun q => q.receive (w.sys.writes s' k f)) = (w.setProc n fd { p with sent }).procs k f := by
    intro k f
    simp only [hnil, hreceive]
    exact Option.map_id'
  refine ⟨fun k f q hq => ?_, fun k f m' hm' hl => ?_, fun k f q hq => ?_⟩
  · rcases Inv.setProc_cases ((hprocs k f).symm.trans hq) with ⟨rfl, rfl, rfl⟩ | ⟨hkf, hq'⟩
    · have hgot : (fun g => .reply k f g ∈ s'.trace) = fun g => Obs.reply k f g ∈ w.sys.trace := by
        funext g
        refine propext ((Sys.reply_step hs trivial).trans (or_iff_left ?_))
        rw [hnil]
        exact List.not_mem_nil
      show ({ p with sent } : Process ι κ).Waits _ (fun g => .reply k f g ∈ s'.trace) _
      rw [hgot]
      refine (h.procs k f p hpr).readOne hsent (fun g => ?_) fun g hg => ?_
      · refine (Sys.recv_step hs trivial).trans (or_congr_right ?_)
        simp [eq_comm]
      · rcases Runs.holds_back (fun _ _ h => h.1) hr hp hs hg with ⟨hg, hback⟩ | hg
        · exact ⟨hg, fun hu he => hback ⟨rfl, hu, he.symm⟩⟩
        · rw [hnil] at hg
          cases hg
    · have hq'' : ((w.setProc n fd { p with sent }).procs k f).map
          (fun q => q.receive (w.sys.writes s' k f)) = some (q.receive (w.sys.writes s' k f)) :=
        hq.trans (congrArg some (by rw [hnil, hreceive]))
      have := h.other hinv hinv' hr hp hs hq' hq'' (by
        rintro f' m' ⟨⟩ rfl
        exact hkf ⟨rfl, rfl⟩)
      rw [hnil, hreceive] at this
      exact this
  · have hq : ∃ q, w.procs k f = some q ∧ q.handle.pid = m'.ownerPid := by
      rcases (Sys.recv_step hs trivial).1 hm' with hm' | ha
      · exact h.reads k f m' hm' hl
      · obtain ⟨rfl, rfl, rfl⟩ := Act.recv.inj ha
        exact ⟨p, hpr, (hm.resolve_right (by simp [hl])).2.symm⟩
    obtain ⟨q, hq, he⟩ := hq
    have hpid : ({ p with sent } : Process ι κ).handle.pid = p.handle.pid := rfl
    obtain ⟨q', hq', he'⟩ := Inv.setProc_new hpr hpid hq
    exact ⟨q', (hprocs k f).trans hq', he'.trans he⟩
  · have hpid : ({ p with sent } : Process ι κ).handle.pid = p.handle.pid := rfl
    obtain ⟨q₀, hq₀, -⟩ := Inv.setProc_old hpr hpid ((hprocs k f).symm.trans hq)
    obtain ⟨nd, hn, hfd⟩ := h.opened k f q₀ hq₀
    refine Sys.stays_step (Runs.sound hr) hs trivial trivial ?_ hn hfd
    rintro ⟨-, -, hd⟩
    simp [hd] at hm

/-- A step of a process. -/
theorem process (h : w.Served) {n : UInt32} {fd : Nat} {f : Process ι κ → Option (Process ι κ)}
    (hf : ∀ p p', w.procs n fd = some p → f p = some p' →
      p'.Waits (fun m => .recv n fd m ∈ w.sys.trace) (fun g => .reply n fd g ∈ w.sys.trace)
        (w.sys.Holds n fd) ∧ p'.handle.pid = p.handle.pid)
    (hw : w.process n fd f = some w') : w'.Served := by
  obtain ⟨p, hpr, hw⟩ := Option.bind_eq_some_iff.1 hw
  obtain ⟨p', hp', rfl⟩ := Option.map_eq_some_iff.1 hw
  obtain ⟨hwaits, hpid⟩ := hf p p' hpr hp'
  refine ⟨fun k f q hq => ?_, fun k f m hm hl => ?_, fun k f q hq => ?_⟩
  · rcases Inv.setProc_cases hq with ⟨rfl, rfl, rfl⟩ | ⟨-, hq⟩
    · exact hwaits
    · exact h.procs k f q hq
  · obtain ⟨q, hq, he⟩ := h.reads k f m hm hl
    obtain ⟨q', hq', he'⟩ := Inv.setProc_new hpr hpid hq
    exact ⟨q', hq', he'.trans he⟩
  · obtain ⟨q₀, hq₀, -⟩ := Inv.setProc_old hpr hpid hq
    exact h.opened k f q₀ hq₀

end Served

variable [DecidableEq ι] [DecidableEq κ]

/-- The rules of a run without failures in which nobody uses FL_TRY. -/
def Undisturbed (w : World ι κ) (a : WorldAct ι κ) : Prop := w.Calm a ∧ w.Patient a ∧ w.Steady a

omit [DecidableEq ι] in
instance [Fintype ι] (w : World ι κ) (a : WorldAct ι κ) : Decidable (w.Undisturbed a) := by
  unfold Undisturbed
  infer_instance

theorem granting (h : Transition.Run step Undisturbed .init w) : Runs Sys.Granting .init w.sys := by
  refine run_sys h fun w w' a b hr hp hs hb => ?_
  have hinv := inv (fun w a hp => hp.1) hr
  obtain ⟨hF, -, hno⟩ := orderly_act hinv (noTry (fun w a hp => hp.2.1) hr) ⟨hp.1, hp.2.1⟩ hs hb
  exact ⟨hinv.allowed hF, hno⟩

/-- One step. -/
theorem Served.step (h : w.Served) (hinv : w.Inv) (hinv' : w'.Inv) (hno : w.NoTry)
    (hr : Runs Sys.Granting .init w.sys) {a : WorldAct ι κ} (hp : w.Undisturbed a)
    (hs : w.step a = some w') : w'.Served := by
  obtain ⟨hcalm, hpatient, hsteady⟩ := hp
  have hact : ∀ {b}, w.act a = some b → w.sys.Granting b := fun hb =>
    ⟨hinv.allowed (hinv.failureFree hcalm hs _ hb), (orderly_act hinv hno ⟨hcalm, hpatient⟩ hs hb).2.2⟩
  have htids : ∀ {n fd p}, w.procs n fd = some p → ∀ m, .recv n fd m ∈ w.sys.trace →
      m.request = .lock → m.ownerTid ∈ w.sys.readTids n p.handle.pid := by
    intro n fd p hpr m hm hl
    obtain ⟨q, hq, he⟩ := h.reads n fd m hm hl
    obtain rfl := Option.some.inj (hpr.symm.trans hq)
    refine List.mem_filterMap.2 ⟨(m.ownerPid, m.ownerTid), List.mem_filterMap.2 ⟨_, hm, ?_⟩, if_pos he.symm⟩
    exact if_pos ⟨rfl, hl⟩
  cases a with
  | confchg => exact h.daemon hinv hinv' hr (hact rfl) (by rintro n f m ⟨⟩) hs
  | order => exact h.daemon hinv hinv' hr (hact rfl) (by rintro n f m ⟨⟩) hs
  | deliver => exact h.daemon hinv hinv' hr (hact rfl) (by rintro n f m ⟨⟩) hs
  | connect n fd =>
    simp only [World.step] at hs
    split at hs
    · cases hs
    · exact h.daemon hinv hinv' hr (hact rfl) (by rintro n f m ⟨⟩) hs
  | dump n fd =>
    simp only [World.step] at hs
    split at hs
    · cases hs
    · next hproc =>
      refine h.daemon hinv hinv' hr (hact rfl) ?_ hs
      rintro n f m ⟨⟩
      exact ⟨rfl, by simpa using hproc⟩
  | init n fd pid =>
    obtain ⟨w₁, hw₁, rfl⟩ := Option.map_eq_some_iff.1 hs
    obtain ⟨s', hs', rfl⟩ := Option.map_eq_some_iff.1 hw₁
    have hnone : w.procs n fd = none := by
      cases hpr : w.procs n fd with
      | none => rfl
      | some p =>
        obtain ⟨nd, hn, hfd⟩ := h.opened n fd p hpr
        exact absurd hfd (Sys.connect_fresh hs' hn)
    have hserved := h.daemon hinv (hinv.daemon (hact rfl).1.1 (by rintro n f m ⟨⟩) hw₁) hr (hact rfl)
      (by rintro n f m ⟨⟩) hw₁
    refine hserved.enter (.next hr (hact rfl) hs') ?_ (Sys.connect_open hs')
      (fun nd hn c hc hf => Sys.connect_pid hs' hn hc hf) _
    show (w.procs n fd).map _ = none
    rw [hnone]
    rfl
  | read n fd =>
    obtain ⟨p, hpr, hs⟩ := Option.bind_eq_some_iff.1 hs
    split at hs
    · cases hs
    · next m sent hsent =>
      refine h.read hinv hinv' hr (hact ?_) hpr hsent hs
      rw [World.act, hpr, Option.bind_some, hsent]
      rfl
  | call n fd i getpid resource flags v write read =>
    obtain ⟨rfl, hin⟩ := hsteady
    refine h.process (fun p p' hpr hp => ?_) hs
    obtain ⟨-, -, hok⟩ := hinv.procs n fd p hpr
    obtain ⟨hfree, h0⟩ := hcalm p hpr
    exact ⟨(h.procs n fd p hpr).call hok (htids hpr) hfree h0 hin hp, (hok.call hfree h0 hp).2⟩
  | wake n fd i read =>
    refine h.process (fun p p' hpr hp => ?_) hs
    obtain ⟨-, -, hok⟩ := hinv.procs n fd p hpr
    exact ⟨(h.procs n fd p hpr).wake hok hsteady hp, (hok.wake hp).2⟩
  | unlock n fd i getpid v write =>
    obtain rfl : write = none := hsteady
    refine h.process (fun p p' hpr hp => ?_) hs
    obtain ⟨-, -, hok⟩ := hinv.procs n fd p hpr
    exact ⟨(h.procs n fd p hpr).unlock hp, (hok.unlock hp).2⟩

theorem served (h : Transition.Run step Undisturbed .init w) : w.Served := by
  refine h.invariant_of (J := Transition.Run step Undisturbed .init) (I := Served) id .init ?_
  intro w w' a hr hr' hi hp hs
  exact hi.step (inv (fun _ _ hp => hp.1) hr) (inv (fun _ _ hp => hp.1) hr')
    (noTry (fun _ _ hp => hp.2.1) hr) (granting hr) hp hs

/-- No message is on its way, and no thread finds its reply. -/
structure Settled (w : World ι κ) : Prop where
  sys : w.sys.Quiescent
  sent : ∀ n fd p, w.procs n fd = some p → p.sent = []
  unread : ∀ n fd p, w.procs n fd = some p → p.handle.unread = []
  pending : ∀ n fd p, w.procs n fd = some p → ∀ i l r v, p.threads i = .waiting l r v →
    ∀ m ∈ p.handle.pending, ¬l.Answers m

omit [DecidableEq ι] [DecidableEq κ] in
/-- With no message on its way no GRANT waits for its thread. -/
theorem Settled.no_reply (h : w.Settled) (hserved : w.Served) {n : UInt32} {fd : Nat}
    {p : Process ι κ} (hpr : w.procs n fd = some p) (g : CpgLockMsg) : g ∉ p.handle.waiting := by
  intro hg
  obtain ⟨i, l, r, v, hi, hans⟩ := (hserved.procs n fd p hpr).taken g hg
  have hg : g ∈ p.handle.unread ++ p.handle.pending := hg
  rw [h.unread n fd p hpr] at hg
  exact h.pending n fd p hpr i l r v hi g hg hans

omit [DecidableEq ι] [DecidableEq κ] in
/-- With no message on its way the LOCK of a thread that waits is ordered. -/
theorem Settled.locked (h : w.Settled) (hserved : w.Served) (hr : Runs Sys.Granting .init w.sys)
    {n : UInt32} {fd : Nat} {p : Process ι κ} (hpr : w.procs n fd = some p) {i : ι}
    {l r : CpgLockMsg} {v : κ} (hi : p.threads i = .waiting l r v) :
    l.ownerPid = p.handle.pid ∧ ∃ k ∈ lockOrder l.resource w.sys.log, k.nodeid = n ∧
      k.pid = l.ownerPid ∧ k.tid = l.ownerTid := by
  have hF : ∀ (s : Sys) a, s.Granting a → s.FailureFree a := fun _ _ h => h.1.1
  obtain ⟨hl, hread⟩ := (hserved.procs n fd p hpr).lock i l r v hi
  rw [h.sent n fd p hpr] at hread
  replace hread := hread.resolve_left List.not_mem_nil
  obtain ⟨q, hq, hpid⟩ := hserved.reads n fd l hread hl
  obtain rfl := Option.some.inj (hpr.symm.trans hq)
  refine ⟨hpid.symm, ?_⟩
  have hasker : Obs.asker n (.recv n fd l) = some (l.ownerPid, l.ownerTid) := if_pos ⟨rfl, hl⟩
  have hmem : (l.ownerPid, l.ownerTid) ∈ w.sys.trace.filterMap (Obs.asker n) :=
    List.mem_filterMap.2 ⟨_, hread, hasker⟩
  have hnodup := Runs.asker_nodup hF hr n
  rw [hr.numbers hF] at hmem
  obtain ⟨nd, hn, -⟩ := hserved.opened n fd p hpr
  have hwaits : ((w.sys.nodes n).map fun nd => nd.d.lockNumbers).getD [] = [] := by
    rw [hn, Option.map_some, Option.getD_some, Daemon.lockNumbers, (h.sys n nd hn).1]
    rfl
  rw [Sys.numbers, hwaits, List.append_nil] at hmem
  obtain ⟨k, hk, hnum⟩ := List.mem_map.1 hmem
  obtain ⟨hlock, hkn⟩ := List.mem_filter.1 hk
  obtain rfl : k.nodeid = n := of_decide_eq_true hkn
  obtain ⟨hkpid, hktid⟩ := Prod.mk.inj hnum
  refine ⟨k, mem_lockOrder.2 ⟨locked_iff.2 hlock, ?_⟩, rfl, hkpid, hktid⟩
  -- the LOCK with this number is the thread's
  obtain ⟨x, m, hm, hml, rfl⟩ := mem_keysOf.1 hlock
  obtain ⟨f, m', hm', hl', hkey⟩ := (Runs.fromClients hr).log x m hm (.inl hml)
  have hnum' : Obs.asker m.key.nodeid (.recv m.key.nodeid f m') = some (l.ownerPid, l.ownerTid) := by
    rw [Obs.asker, if_pos ⟨rfl, hl'⟩, Option.some.injEq, Prod.mk.injEq, ← hkpid, ← hktid, ← hkey]
    exact ⟨rfl, rfl⟩
  have hsame := eq_of_filterMap_nodup hnodup hm' hread hnum' hasker
  obtain ⟨-, -, rfl⟩ := Obs.recv.inj hsame
  exact (congrArg RequestKey.resource hkey).symm

end World

/-- The request of a thread that waits. -/
def InLock.request {κ : Type} : InLock κ → Option CpgLockMsg
  | .out => none
  | .waiting l _ _ => some l

/-- A process has written nothing that is unread, and none of its threads finds its reply. -/
def Process.Still {ι κ : Type} (p : Process ι κ) : Prop :=
  p.sent = [] ∧ p.handle.unread = [] ∧ ∀ i, ∀ l ∈ (p.threads i).request, ∀ m ∈ p.handle.pending,
    ¬l.Answers m

instance {ι κ : Type} [Fintype ι] (p : Process ι κ) : Decidable p.Still := by
  unfold Process.Still
  infer_instance

/-- It is enough to look at the connections. -/
theorem World.Served.settled {ι κ : Type} {w : World ι κ} (h : w.Served) (hs : w.sys.Sound)
    (hq : ∀ x ∈ w.sys.group, ∀ nd ∈ w.sys.nodes x.nodeid, (nd.d.out = [] ∧
      nd.pos = w.sys.log.length) ∧ ∀ c ∈ nd.d.clients, ∀ p ∈ w.procs x.nodeid c.fd, p.Still) :
    w.Settled := by
  have hstill : ∀ n fd p, w.procs n fd = some p → p.Still := by
    intro n fd p hpr
    obtain ⟨nd, hn, hfd⟩ := h.opened n fd p hpr
    obtain ⟨c, hc, rfl⟩ := List.mem_map.1 hfd
    exact (hq ⟨n, nd.d.myPid⟩ ((hs.group _).2 ⟨nd, hn, rfl⟩) nd hn).2 c hc p hpr
  refine ⟨hs.quiescent fun x hx nd hn => (hq x hx nd hn).1, fun n fd p hpr => (hstill n fd p hpr).1,
    fun n fd p hpr => (hstill n fd p hpr).2.1, fun n fd p hpr i l r v hi => (hstill n fd p hpr).2.2 i l ?_⟩
  rw [hi]
  rfl

end Cpglock
