import Cpglock.Group.LockIds
import Cpglock.Group.Proof.Owed

/-!
# Replies go to the connection that asked

A daemon finds the connection for a reply by the pid alone. So replies go to the connection that
asked if a process has one connection at a time and opens the next when its requests on the last one
are gone, and if no request is granted twice (`replies_to_asker`). With two connections the first one
gets the replies of both (`reply_to_other`).
-/

namespace Cpglock

/-- Every reply answers a request asked on its connection, and no request received on another open
connection. -/
def RepliesToAsker (t : List Obs) : Prop :=
  ∀ t₁ n fd g t₂, t = t₁ ++ .reply n fd g :: t₂ →
    g.key ∈ asked t₁ n fd ∧ ∀ fd', fd' ≠ fd → g.key ∉ received t₁ n fd'

/-- The promises: connections of the library, one at a time for a process, and no second grant of a
request. -/
def Sys.OneAtATime (s : Sys) (a : Act) : Prop :=
  (s.LibClient a ∧ s.OneConnection a) ∧ s.FreshStart a ∧ s.GrantsQueued a

instance (s : Sys) (a : Act) : Decidable (s.OneAtATime a) := by
  unfold Sys.OneAtATime
  infer_instance

namespace RepliesToAsker

variable {t l : List Obs}

theorem append (h : RepliesToAsker t) (hl : ∀ n fd g, Obs.reply n fd g ∉ l) :
    RepliesToAsker (t ++ l) := by
  intro t₁ n fd g t₂ he
  rcases List.append_eq_append_iff.1 he with ⟨u, -, hu⟩ | ⟨u, hu, hu'⟩
  · refine absurd ?_ (hl n fd g)
    rw [hu]
    simp
  · cases u with
    | nil =>
      refine absurd ?_ (hl n fd g)
      rw [← show Obs.reply n fd g :: t₂ = l from hu']
      exact List.mem_cons_self
    | cons o u =>
      obtain ⟨rfl, rfl⟩ := List.cons.inj (show Obs.reply n fd g :: t₂ = o :: (u ++ l) from hu')
      exact h t₁ n fd g u hu

theorem snoc (h : RepliesToAsker t) {n : UInt32} {fd : Nat} {g : CpgLockMsg}
    (hg : g.key ∈ asked t n fd ∧ ∀ fd', fd' ≠ fd → g.key ∉ received t n fd') :
    RepliesToAsker (t ++ [.reply n fd g]) := by
  intro t₁ k f g' t₂ he
  rcases List.eq_nil_or_concat t₂ with rfl | ⟨t₂, o, rfl⟩
  · obtain ⟨rfl, ho⟩ := List.append_inj' he rfl
    obtain ⟨⟨rfl, rfl, rfl⟩, -⟩ := List.cons.inj ho
    exact hg
  · have he' : t ++ [Obs.reply n fd g] = (t₁ ++ .reply k f g' :: t₂) ++ [o] := by
      simpa using he
    obtain ⟨rfl, -⟩ := List.append_inj' he' rfl
    exact h t₁ k f g' t₂ rfl

end RepliesToAsker

/-- A reply that is due goes to the asker. -/
theorem Conns.routed {t : List Obs} {n : UInt32} {v : Daemon} (h : Conns t n v) {fd : Nat}
    {k : RequestKey} (h0 : k.pid ≠ 0) (hc : ⟨fd, k.pid⟩ ∈ v.clients) :
    ∀ fd', fd' ≠ fd → k ∉ Cpglock.received t n fd' := by
  intro fd' hne hr
  obtain ⟨-, -, hc'⟩ := h.received fd' _ hr
  exact hne (congrArg ClientItem.fd (h.pids _ hc' _ hc h0 rfl))

theorem Owed.step {s : Sys} {t' : List Obs} {n : UInt32} {nd : Node} {a : Act} {v' : Daemon}
    {pos' : Nat} {rs : List (Nat × CpgLockMsg)}
    (hs : ViewStep s.log n (nd.view s.log n) nd.pos a v' pos') (hn : s.nodes n = some nd)
    (h : Owed s.trace n (nd.view s.log n)) (hconn : Conns s.trace n nd.d) (hme : nd.d.myNodeId = n)
    (hown : Ordered OwnLock s.log) (hreal : Ordered RealMsg s.log) (hp : s.OneAtATime a)
    (hrs : v'.replies = nd.d.replies ++ rs)
    (ht : ∀ f, asked t' n f = rs.foldl (fun ks p => if p.1 = f then ks.erase p.2.key else ks)
      (asked (s.trace ++ a.seen) n f)) :
    Owed t' n v' ∧ (rs = [] ∨ a.seen = [] ∧ Due s.trace n (nd.view s.log n) rs) := by
  have hconn' : Conns s.trace n (nd.view s.log n) := ⟨hconn.fds, hconn.pids, hconn.received⟩
  have hsilent : v'.replies = nd.d.replies → rs = [] := by
    intro he
    have := hrs.symm.trans he
    simpa using this
  obtain ⟨⟨hlib, hone⟩, hfresh, hqueued⟩ := hp
  cases hs with
  | @msg x m out he hout =>
    simp only [Act.seen, List.append_nil] at ht
    exact (h.message hconn' hme hout (hown _ x m he) (hreal _ x m he) (hqueued nd hn _ he) hrs ht).imp
      id fun hd => .inr ⟨rfl, hd⟩
  | @change members left join he =>
    obtain rfl := hsilent (Daemon.silent_cpgConfigChange (nd.view s.log n) _ left join).replies
    simp only [Act.seen, List.append_nil, List.foldl_nil] at ht
    refine ⟨h.mono (fun c hc _ => ?_) (fun k => Daemon.claims_configChange k) fun c _ => ht c.fd, .inl rfl⟩
    rwa [← (Daemon.grows_deliver (nd.view s.log n) nd.pos (.confchg members left join)).clients]
  | @connect fd hfd =>
    obtain rfl := hsilent rfl
    simp only [Act.seen, List.append_nil, List.foldl_nil] at ht
    refine ⟨h.mono (fun c hc h0 => ?_) (fun k => Nat.le_refl _) fun c _ => ht c.fd, .inl rfl⟩
    rcases List.mem_append.1 hc with hc | hc
    · exact hc
    · rw [List.mem_singleton.1 hc] at h0
      exact absurd rfl h0
  | @recv fd m hfd =>
    obtain rfl := hsilent (Daemon.silent_clientActivityCb (nd.view s.log n) fd m).replies
    refine ⟨?_, .inl rfl⟩
    simp only [Act.seen, List.foldl_nil] at ht
    by_cases hm : m.request = .lock
    · exact h.recvLock hme hm (hone hm nd hn)
        (fun c hc hf => (hlib.2 nd hn c hc hf).1 hm) (fun c hc hf h0 => hfresh hm nd hn c hc hf h0) ht
    · have hclaims : ∀ k : RequestKey, (((nd.view s.log n).clientActivityCb fd m).cell
          k.resource).claims k ≤ ((nd.view s.log n).cell k.resource).claims k := by
        intro k
        rw [Daemon.claims_clientActivityCb, if_neg fun ha => hm ha.1]
        exact Nat.le_refl _
      have hcl := Daemon.clients_clientActivityCb (nd.view s.log n) fd m
      rw [if_neg hm] at hcl
      by_cases hd : m.request = .dump
      · rw [if_pos hd] at hcl
        refine h.mono (fun c hc _ => ?_) hclaims fun c hc => ?_
        · rw [hcl] at hc
          exact List.mem_of_mem_eraseP hc
        · rw [hcl, mem_eraseP_fd hconn'.fds] at hc
          rw [ht, asked_append]
          simp [Obs.askedAfter, Obs.receivedAfter, Ne.symm hc.2]
      · rw [if_neg hd] at hcl
        refine h.mono (fun c hc _ => hcl ▸ hc) hclaims fun c _ => ?_
        rw [ht, asked_append]
        simp [Obs.askedAfter, Obs.receivedAfter, hm, hd]
  | @close fd hfd =>
    obtain rfl := hsilent (Daemon.silent_delClient (nd.view s.log n) fd).replies
    refine ⟨?_, .inl rfl⟩
    simp only [Act.seen, List.foldl_nil] at ht
    have hcl : ((nd.view s.log n).delClient fd).clients =
        (nd.view s.log n).clients.eraseP fun c => c.fd = fd :=
      (Daemon.frame_delClient (nd.view s.log n) fd).clients
    refine h.mono (fun c hc _ => ?_) (fun k => Daemon.claims_delClient fd k) fun c hc => ?_
    · rw [hcl] at hc
      exact List.mem_of_mem_eraseP hc
    · rw [hcl, mem_eraseP_fd hconn'.fds] at hc
      rw [ht, asked_append]
      simp [Obs.askedAfter, Obs.receivedAfter, Ne.symm hc.2]

/-- What the promises are worth in a state. -/
structure Sys.Routed (s : Sys) : Prop where
  owed : ∀ n nd, s.nodes n = some nd → Owed s.trace n (nd.view s.log n)
  replies : RepliesToAsker s.trace

theorem Owed.of_ne {t l : List Obs} {n : UInt32} {v : Daemon} (h : Owed t n v)
    (hl : ∀ o ∈ l, o.node ≠ n) : Owed (t ++ l) n v :=
  h.mono (fun _ hc _ => hc) (fun _ => Nat.le_refl _) fun _ _ => asked_of_ne hl

/-- The facts about a state that need no new induction. -/
structure Sys.Base (s : Sys) : Prop where
  sound : s.Sound
  linked : s.Linked
  real : Ordered RealMsg s.log
  own : Ordered OwnLock s.log

theorem Runs.base {P : Sys → Act → Prop} (hP : ∀ s a, P s a → s.OneAtATime a) {s : Sys}
    (h : Runs P .init s) : s.Base :=
  ⟨h.sound, h.conns fun s a hp => (hP s a hp).1,
    (h.plain fun s a hp => (hP s a hp).1.1.hasPid).1, h.ownLock⟩

/-- A step's replies. -/
theorem Sys.Local.replies {s : Sys} {n : UInt32} {nd : Node} {a : Act} {d : Daemon} {pos : Nat}
    {cause : Option Nat} {seen : List Obs} (h : s.Local n nd a d pos cause seen) :
    ∃ rs, d.replies = nd.d.replies ++ rs := by
  cases h with
  | deliver => exact (Daemon.grows_deliver ..).replies
  | connect => exact ⟨[], by simp [Daemon.insertClient]⟩
  | recv => exact ⟨[], by simp [(Daemon.silent_clientActivityCb ..).replies]⟩
  | close => exact ⟨[], by simp [(Daemon.silent_delClient ..).replies]⟩

theorem Sys.Routed.local {s : Sys} (h : s.Routed) (hb : s.Base) {n : UInt32} {nd : Node} {a : Act}
    {d : Daemon} {pos : Nat} {cause : Option Nat} {seen : List Obs} (hn : s.nodes n = some nd)
    (hl : s.Local n nd a d pos cause seen) (hp : s.OneAtATime a) :
    Owed (s.trace ++ seen ++ effects n cause nd.d d) n (Node.view s.log n { nd with d, pos }) ∧
      RepliesToAsker (s.trace ++ seen ++ effects n cause nd.d d) := by
  obtain ⟨rs, hrs⟩ := hl.replies
  have hconn := hb.linked.node n nd hn
  obtain rfl := hl.seen_eq
  obtain ⟨howed, hdue⟩ := Owed.step hl.viewStep hn
    (h.owed n nd hn) hconn (hb.sound.node n nd hn).me hb.own hb.real hp hrs fun f =>
      asked_effects hrs
  refine ⟨howed, ?_⟩
  -- the messages multicast, then at most one reply
  have hmcast : ∀ k fd g, Obs.reply k fd g ∉
      (d.out.drop nd.d.out.length).map (Obs.mcast n cause) := by
    intro k fd g hm
    obtain ⟨m, -, hm⟩ := List.mem_map.1 hm
    cases hm
  have hseen : ∀ k fd g, Obs.reply k fd g ∉ a.seen := by
    intro k fd g hm
    cases a <;> simp [Act.seen] at hm
  simp only [effects, hrs, List.drop_left]
  rw [← List.append_assoc]
  have hbefore := (h.replies.append hseen).append hmcast
  rcases hdue with rfl | ⟨hnil, rfl | ⟨fd, g, rfl, hask, h0, hc⟩⟩
  · simpa using hbefore
  · simpa using hbefore
  · rw [hnil, List.append_nil] at hbefore ⊢
    have hsame : ∀ {α : Type} {f : α → Obs → α} {x : α},
        (∀ m, f x (.mcast n cause m) = x) →
          ((d.out.drop nd.d.out.length).map (Obs.mcast n cause)).foldl f x = x := by
      intro α f x hf
      refine foldl_eq_self fun o ho => ?_
      obtain ⟨m, -, rfl⟩ := List.mem_map.1 ho
      exact hf m
    refine hbefore.snoc ⟨?_, fun fd' hne => ?_⟩
    · rw [asked_append, hsame fun _ => rfl]
      exact hask
    · rw [received_append, hsame fun _ => rfl]
      exact hconn.routed h0 hc fd' hne

theorem Runs.routed {P : Sys → Act → Prop} (hP : ∀ s a, P s a → s.OneAtATime a) {s : Sys}
    (h : Runs P .init s) : s.Routed := by
  refine h.invariant_of (J := Sys.Base) (I := Sys.Routed) (fun h => Runs.base hP h) ⟨?_, ?_⟩
    fun {s s' a} hb _ hi hp hs => ⟨?_, ?_⟩
  · intro n nd hn
    cases hn
  · intro t₁ n fd g t₂ he
    simp [Sys.init] at he
  · refine Sys.traced_step (I := Owed) hs hb.sound.bounded (fun _ _ _ _ h => h.of_ne)
      (fun _ _ _ _ _ _ x _ b c hc => ?_) (fun n nd d pos cause seen hn hl _ => ?_) hi.owed
    · cases hc
    · exact (hi.local hb hn hl (hP s a hp)).1
  · obtain ⟨members, left, join, boot, rfl, -, rfl⟩ | ⟨n, nd, m, out, rfl, hn, -, rfl⟩ |
      ⟨n, nd, d, pos, cause, seen, hn, -, hl, rfl⟩ := Sys.step_cases hs
    · refine hi.replies.append fun n fd g hm => ?_
      obtain ⟨x, -, hx⟩ := List.mem_map.1 hm
      cases hx
    · exact hi.replies
    · exact (hi.local hb hn hl (hP s _ hp)).2

theorem replies_to_asker {P : Sys → Act → Prop} (hP : ∀ s a, P s a → s.OneAtATime a) {s : Sys}
    (h : Runs P .init s) : RepliesToAsker s.trace := (h.routed hP).replies

/-- The single daemon's one GRANT. -/
theorem replies_to_asker_one : ∃ s : Sys,
    .reply 1 5 { CpgLockMsg.blank .grant with
      resource := ⟨[97], by decide, by decide⟩, ownerNodeid := 1, ownerPid := 100, ownerTid := 1,
      lockid := 1 } ∈ s.trace ∧ RepliesToAsker s.trace := by
  have h : (Transition.exec Sys.step (fun (s : Sys) (a : Act) => decide (s.OneAtATime a)) .init
      oneGrant).any (fun (s : Sys) => decide (.reply 1 5 { CpgLockMsg.blank .grant with
        resource := ⟨[97], by decide, by decide⟩, ownerNodeid := 1, ownerPid := 100, ownerTid := 1,
        lockid := 1 } ∈ s.trace)) = true := by decide +kernel
  obtain ⟨s, hs, h⟩ := Transition.Run.of_check (P := fun (s : Sys) (a : Act) => s.OneAtATime a)
    (fun _ _ h => of_decide_eq_true h) h
  exact ⟨s, of_decide_eq_true h, replies_to_asker (fun _ _ h => h) hs⟩

/-- Process 100 asks for the lock `b` on a second connection. -/
def secondConnection : List Act :=
  oneGrant ++ [.connect 1 6, .recv 1 6 (.lockMsg .b 100 1 0), .order 1,
    .deliver 1, .order 1, .deliver 1]

/-- The observation is a message written to a connection on which, after `t`, nothing is asked that it
answers. -/
def Obs.unasked (t : List Obs) : Obs → Bool
  | .reply n fd g => decide (g.key ∉ asked t n fd)
  | _ => false

/-- The GRANT of `b` goes to the connection of `a`, on which nothing is asked. -/
theorem reply_to_other : ¬∀ s : Sys, Runs (fun (s : Sys) (a : Act) => s.LibClient a) .init s →
    RepliesToAsker s.trace := by
  intro hall
  have h : (Transition.exec Sys.step (fun (s : Sys) (a : Act) => decide (s.LibClient a)) .init
      secondConnection).any (fun (s : Sys) =>
        s.trace.getLast?.any (Obs.unasked s.trace.dropLast)) = true := by decide +kernel
  obtain ⟨s, hs, h⟩ := Transition.Run.of_check (P := fun (s : Sys) (a : Act) => s.LibClient a)
    (fun _ _ h => of_decide_eq_true h) h
  obtain ⟨o, ho, hno⟩ := (Option.any_eq_true _ _).1 h
  obtain ⟨t, ht⟩ := List.getLast?_eq_some_iff.1 ho
  rw [ht, List.dropLast_concat] at hno
  cases o with
  | reply n fd g => exact of_decide_eq_true hno (hall s hs t n fd g [] ht).1
  | _ => cases hno

end Cpglock
