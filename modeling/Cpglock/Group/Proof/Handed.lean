import Cpglock.Group.LockIds
import Cpglock.Group.ReplyRouting
import Cpglock.Group.Proof.Written

/-!
# Lock ids in the hands of clients

`Handed`: the ids that clients were given and have not unlocked are those of the entries that their node
holds and does not pass on, and the holder of any other own entry has sent its UNLOCK. So clients that unlock
once what they were given unlock what they hold (`Runs.unlocksHeld`): every run without failures is one
in which UNLOCKs come from holders (`Runs.disciplined`).
-/

namespace Cpglock

/-- The ids that connection `fd` of daemon `n` was given and has not unlocked, as observed. -/
def given (t : List Obs) (n : UInt32) (fd : Nat) : List UInt64 := t.foldl (Obs.idsAfter n fd) []

/-- The GRANT of `k` was written to its client, and an UNLOCK with the same id read. -/
def Unlocked (t : List Obs) (k : RequestKey) : Prop :=
  ∃ fd g f m, Obs.reply k.nodeid fd g ∈ t ∧ g.request = .grant ∧ g.key = k ∧
    Obs.recv k.nodeid f m ∈ t ∧ m.request = .unlock ∧ m.lockid = g.lockid

theorem Unlocked.append {t : List Obs} {k : RequestKey} (h : Unlocked t k) (l : List Obs) :
    Unlocked (t ++ l) k := by
  obtain ⟨fd, g, f, m, hg, h1, h2, hm, h3⟩ := h
  exact ⟨fd, g, f, m, List.mem_append_left _ hg, h1, h2, List.mem_append_left _ hm, h3⟩

/-! ## Observations -/

section

variable {t l : List Obs} {n : UInt32} {fd : Nat} {i : UInt64} {cause : Option Nat} {d d' : Daemon}
  {rs : List (Nat × CpgLockMsg)}

theorem given_append : given (t ++ l) n fd = l.foldl (Obs.idsAfter n fd) (given t n fd) :=
  List.foldl_append

theorem Obs.idsAfter_of_ne {o : Obs} (h : o.node ≠ n) (ids : List UInt64) :
    o.idsAfter n fd ids = ids := by
  cases o <;> simp_all [Obs.idsAfter, Obs.node]

theorem given_of_ne (h : ∀ o ∈ l, o.node ≠ n) : given (t ++ l) n fd = given t n fd := by
  rw [given_append]
  exact foldl_eq_self fun o ho => Obs.idsAfter_of_ne (h o ho) _

/-- The GRANTs that a step writes to a connection give it their ids. -/
theorem mem_given_effects (h : d'.replies = d.replies ++ rs) :
    i ∈ given (t ++ Sys.effects n cause d d') n fd ↔
      i ∈ given t n fd ∨ ∃ g, (fd, g) ∈ rs ∧ g.request = .grant ∧ g.lockid = i := by
  have hmcast : ((d'.out.drop d.out.length).map (Obs.mcast n cause)).foldl (Obs.idsAfter n fd)
      (given t n fd) = given t n fd := by
    refine foldl_eq_self fun o ho => ?_
    obtain ⟨m, -, rfl⟩ := List.mem_map.1 ho
    rfl
  rw [given_append, Sys.effects, List.foldl_append, hmcast, h, List.drop_left, List.foldl_map]
  generalize given t n fd = ids
  clear h hmcast
  induction rs generalizing ids with
  | nil => simp
  | cons p rs ih =>
    rw [List.foldl_cons]
    refine (ih _).trans ?_
    obtain ⟨f, g⟩ := p
    simp only [Obs.idsAfter, true_and]
    by_cases hf : f = fd ∧ g.request = .grant
    · obtain ⟨rfl, hg⟩ := hf
      simp only [hg, and_self, if_true, List.mem_append, List.mem_cons, List.not_mem_nil, or_false,
        Prod.mk.injEq, true_and]
      constructor
      · rintro ((h | rfl) | ⟨g', h, h'⟩)
        · exact .inl h
        · exact .inr ⟨g, .inl rfl, hg, rfl⟩
        · exact .inr ⟨g', .inr h, h'⟩
      · rintro (h | ⟨g', rfl | h, h', rfl⟩)
        · exact .inl (.inl h)
        · exact .inl (.inr rfl)
        · exact .inr ⟨g', h, h', rfl⟩
    · rw [if_neg hf]
      refine or_congr_right (Iff.intro ?_ ?_)
      · rintro ⟨g', h, h'⟩
        exact ⟨g', List.mem_cons_of_mem _ h, h'⟩
      rintro ⟨g', h, h', rfl⟩
      rcases List.mem_cons.1 h with h | h
      · obtain ⟨rfl, rfl⟩ := Prod.mk.inj h
        exact absurd ⟨rfl, h'⟩ hf
      · exact ⟨g', h, h', rfl⟩

theorem reply_mem_effects {g : CpgLockMsg} (h : d'.replies = d.replies ++ rs) :
    Obs.reply n fd g ∈ Sys.effects n cause d d' ↔ (fd, g) ∈ rs := by
  rw [Sys.effects, h, List.drop_left]
  simp only [List.mem_append, List.mem_map]
  constructor
  · rintro (⟨_, -, h⟩ | ⟨p, hp, h⟩)
    · cases h
    · obtain ⟨-, rfl, rfl⟩ := Obs.reply.inj h
      exact hp
  · exact fun h => .inr ⟨_, h, rfl⟩

theorem recv_notMem_effects {k : UInt32} {m : CpgLockMsg} :
    Obs.recv k fd m ∉ Sys.effects n cause d d' := by
  simp only [Sys.effects, List.mem_append, List.mem_map]
  rintro (⟨_, -, h⟩ | ⟨_, -, h⟩) <;> cases h

end

/-! ## Cells -/

namespace Daemon

variable {d d' : Daemon} {r : Resource} {now : Nat} {m : CpgLockMsg} {c : Cell} {l : CpgLock}

/-- A HELD entry is given up by GRANTs and UNLOCKs for it only. -/
theorem CellMove.held_stays (h : d.CellMove r now m c) (hl : (d.cell r).lock = some l)
    (hs : l.state = .held) (hp : ¬m.Passes r) :
    c.lock = some l ∧ ((d.cell r).Still r → c.Still r) := by
  cases h with
  | same => exact ⟨hl, id⟩
  | asks => exact ⟨by simp [hl], id⟩
  | refused _ _ _ hl' _ _ _ =>
    refine ⟨hl' ▸ hl, fun hstill g hg => ?_⟩
    rcases List.mem_append.1 hg with hg | hg
    · exact hstill g hg
    · rw [List.mem_singleton.1 hg]
      simp [CpgLockMsg.Passes]
  | granted _ _ _ hfree _ =>
    rcases hfree with ⟨hl', -, hfree⟩ | ⟨hl', -, -⟩
    · obtain rfl := Option.some.inj (hl.symm.trans hl')
      exact absurd (hs.symm.trans hfree) (by decide)
    · exact absurd (hl.symm.trans hl') (by simp)
  | taken _ hm hr _ => exact absurd ⟨.inl hm, hr⟩ hp
  | learnt _ hm hr _ _ => exact absurd ⟨.inl hm, hr⟩ hp
  | dropped => exact ⟨hl, id⟩
  | stale => exact ⟨hl, id⟩
  | freed _ hm hr _ _ _ _ _ => exact absurd ⟨.inr hm, hr⟩ hp
  | passed _ hm hr _ _ _ _ _ _ => exact absurd ⟨.inr hm, hr⟩ hp

/-- A HELD entry that is not passed on was so before, but for GRANTs and UNLOCKs. -/
theorem CellMove.held_back (h : d.CellMove r now m c) (hp : ¬m.Passes r)
    (hl : (d.cell r).lock = some l) {l' : CpgLock} (hl' : c.lock = some l') (hs : l'.state = .held)
    (hstill : c.Still r) : l.state = .held ∧ (d.cell r).Still r := by
  have hsame : c.lock = (d.cell r).lock → l.state = .held := by
    intro he
    obtain rfl := Option.some.inj (hl'.symm.trans (he.trans hl))
    exact hs
  cases h with
  | same => exact ⟨hsame rfl, hstill⟩
  | asks => exact ⟨hsame (by simp [hl]), hstill⟩
  | refused _ _ _ hl'' _ _ _ =>
    exact ⟨hsame hl''.symm, fun g hg => hstill g (List.mem_append_left _ hg)⟩
  | granted =>
    obtain rfl := Option.some.inj hl'
    cases hs
  | taken _ hm hr _ => exact absurd ⟨.inl hm, hr⟩ hp
  | learnt _ hm hr _ _ => exact absurd ⟨.inl hm, hr⟩ hp
  | dropped => exact ⟨hsame rfl, hstill⟩
  | stale => exact ⟨hsame rfl, hstill⟩
  | freed _ hm hr _ _ _ _ _ => exact absurd ⟨.inr hm, hr⟩ hp
  | passed _ hm hr _ _ _ _ _ _ => exact absurd ⟨.inr hm, hr⟩ hp

/-- The holder's UNLOCK gives up the entry. -/
theorem CellMove.released (h : d.CellMove r now m c) (hj : d.joined = true)
    (hm : m.request = .unlock) (hr : m.resource = r) (hl : (d.cell r).lock = some l)
    (howner : l.state = .held → l.ownerNodeid = m.ownerNodeid ∧ l.ownerPid = m.ownerPid) :
    ∀ l', c.lock = some l' → l'.state ≠ .held := by
  intro l' hl' hs
  cases h with
  | same hsame => exact (hsame hj hr).2.2.2 hm
  | stale _ _ _ hno =>
    obtain rfl := Option.some.inj (hl.symm.trans hl')
    exact hno l hl hs (howner hs)
  | freed =>
    obtain rfl := Option.some.inj hl'
    cases hs
  | passed =>
    obtain rfl := Option.some.inj hl'
    cases hs
  | _ => simp_all

/-- A known lock's own GRANT takes the entry. -/
theorem CellMove.eq_taken (h : d.CellMove r now m c) (hj : d.joined = true)
    (hm : m.request = .grant) (hr : m.resource = r) (hl : (d.cell r).lock = some l) :
    c.lock = some { Daemon.granted m l with
      localId := if m.ownerNodeid = d.myNodeId then d.localLockid + 1 else l.localId } ∧
      c.sent = (d.cell r).sent := by
  cases h with
  | same hs => exact absurd hm (hs hj hr).2.1
  | taken _ _ _ hl' =>
    obtain rfl := Option.some.inj (hl.symm.trans hl')
    exact ⟨rfl, rfl⟩
  | learnt _ _ _ hl' _ => exact absurd (hl.symm.trans hl') (by simp)
  | _ => simp_all

/-- What is not passed on after a client's message was not so before. -/
theorem CellWrite.still_back (h : d.CellWrite r m c) (hs : c.Still r) : (d.cell r).Still r := by
  have hsub : ∀ g ∈ (d.cell r).sent, g ∈ c.sent := by
    intro g hg
    rcases h.sent_cases with heq | ⟨-, -, heq⟩ | ⟨q, heq, -⟩ | ⟨u, -, -, heq⟩
    all_goals
      rw [heq]
      simp [hg]
  exact fun g hg => hs g (hsub g hg)

/-- An UNLOCK passes the entry of its id on. -/
theorem CellWrite.passes (h : d.CellWrite r m c) (hm : m.request = .unlock)
    (hl : (d.cell r).lock = some l) (hid : l.localId = m.lockid)
    (hdistinct : ∀ r' l', d.locks.get r' = some l' → l'.localId = m.lockid → r' = r) :
    ¬c.Still r := by
  intro hs
  cases h with
  | same _ hother =>
    obtain ⟨r', l', hne, hl', hid'⟩ := hother hm l hl hid
    exact hne (hdistinct r' l' hl' hid')
  | asks hlock _ => exact absurd (hm.symm.trans hlock) (by decide)
  | passed _ _ _ hq =>
    exact absurd ⟨.inl rfl, CellStep.mem_waiting hq.mem⟩ (hs (grantMsg _) (by simp))
  | @freed _ u _ _ _ _ hu hr _ _ => exact absurd ⟨.inr hu, hr⟩ (hs u (by simp [Cell.send]))

/-- A client's message leaves the cells of other ids alone, but for its LOCK. -/
theorem CellWrite.still (h : d.CellWrite r m c)
    (hne : m.request = .unlock → ∀ l, (d.cell r).lock = some l → l.localId ≠ m.lockid)
    (hs : (d.cell r).Still r) : c.Still r := by
  cases h with
  | same => exact hs
  | asks hm _ =>
    intro g hg
    rcases List.mem_append.1 hg with hg | hg
    · exact hs g hg
    · rw [List.mem_singleton.1 hg]
      simp [CpgLockMsg.Passes, hm]
  | passed hm hl hid _ => exact absurd hid (hne hm _ hl)
  | freed hm hl hid _ _ _ _ _ => exact absurd hid (hne hm _ hl)

/-- A GRANT that is written is the delivered one, for a connected process. -/
theorem Writes.new_reply (h : Writes d m d') {rs : List (Nat × CpgLockMsg)}
    (hrs : d'.replies = d.replies ++ rs) {fd : Nat} {g : CpgLockMsg} (hg : (fd, g) ∈ rs)
    (hgr : g.request = .grant) : d.joined = true ∧ m.request = .grant ∧
      m.ownerNodeid = d.myNodeId ∧ d.locks.get m.resource ≠ none ∧ g = d.grantReply m ∧
      d'.localLockid = d.localLockid + 1 ∧ ∃ c ∈ d.clients, c.fd = fd ∧ c.pid = m.ownerPid := by
  cases h with
  | silent hs =>
    have hrep := hs.replies
    rw [hrs, List.append_right_eq_self] at hrep
    rw [hrep] at hg
    cases hg
  | grant hj hm hme hl _ hcount hrep =>
    rw [hrs, List.append_right_inj] at hrep
    rw [hrep] at hg
    refine ⟨hj, hm, hme, hl, mem_written hg, hcount, ?_⟩
    obtain ⟨c, hc, he⟩ := List.mem_map.1 hg
    have hc := Option.mem_toList.1 hc
    exact ⟨c, List.mem_of_find?_eq_some hc, congrArg Prod.fst he, by simpa using List.find?_some hc⟩
  | nak _ _ _ _ _ _ hrep =>
    rw [hrs, List.append_right_inj] at hrep
    rw [hrep] at hg
    rw [mem_written hg] at hgr
    cases hgr

/-- The own GRANT that numbers an entry is written to its connected process. -/
theorem Writes.written_of_number (h : Writes d m d') (hm : m.request = .grant) (hnum : d.Numbered)
    (hlt : d.localLockid.toNat < 2 ^ 64 - 1) (hid : d'.lockId r = d.localLockid + 1)
    (hc : d.connected m.ownerPid = true) {rs : List (Nat × CpgLockMsg)}
    (hrs : d'.replies = d.replies ++ rs) : ∃ fd, (fd, d.grantReply m) ∈ rs := by
  have hnew : ∀ i : UInt64, i.toNat ≤ d.localLockid.toNat → i ≠ d.localLockid + 1 := by
    rintro i hi rfl
    have := UInt64.toNat_add d.localLockid 1
    rw [UInt64.toNat_one] at this
    omega
  cases h with
  | silent hs => exact absurd ((hs.lockId r).symm.trans hid) (hnew _ (hnum.bound r))
  | grant _ _ _ _ _ _ hrep =>
    rw [hrs, List.append_right_inj] at hrep
    obtain ⟨c, hcf⟩ := Option.isSome_iff_exists.1 hc
    exact ⟨c.fd, by rw [hrep]; simp [written, hcf]⟩
  | nak _ hn _ _ _ _ _ => exact absurd (hm.symm.trans hn) (by decide)

end Daemon

/-! ## What clients hold -/

/-- Id `i`, written to connection `fd`, is that of an own HELD entry that is not passed on. -/
def Daemon.HeldFor (v : Daemon) (n : UInt32) (fd : Nat) (i : UInt64) : Prop :=
  ∃ r l g, (v.cell r).lock = some l ∧ l.localId = i ∧ l.state = .held ∧ l.ownerNodeid = n ∧
    (v.cell r).Still r ∧ (fd, g) ∈ v.replies ∧ g.request = .grant ∧ g.key = l.key r ∧ g.lockid = i

structure Handed (t : List Obs) (n : UInt32) (v : Daemon) : Prop where
  replies : ∀ fd g, Obs.reply n fd g ∈ t ↔ (fd, g) ∈ v.replies
  held : ∀ fd, ∀ i ∈ given t n fd, v.HeldFor n fd i
  pids : ∀ fd, ∀ i ∈ given t n fd, ∃ c ∈ v.clients, c.fd = fd ∧ c.pid ≠ 0
  read : ∀ f m, Obs.recv n f m ∈ t → m.request = .unlock →
    m.lockid.toNat ≤ v.localLockid.toNat ∧ ∀ fd, m.lockid ∉ given t n fd
  due : ∀ r l, (v.cell r).lock = some l → l.ownerNodeid = n → Unlocked t (l.key r) ∨
    l.state = .held ∧ (v.cell r).Still r ∧ ∃ fd, l.localId ∈ given t n fd
  kept : ∀ r l, (v.cell r).lock = some l → l.ownerNodeid = n → l.state = .held →
    (v.cell r).Still r → ∃ fd, l.localId ∈ given t n fd

namespace Handed

variable {t l : List Obs} {n : UInt32} {v : Daemon}

theorem of_ne (h : Handed t n v) (hl : ∀ o ∈ l, o.node ≠ n) : Handed (t ++ l) n v := by
  have hg : ∀ fd, given (t ++ l) n fd = given t n fd := fun fd => given_of_ne hl
  have hmem : ∀ o : Obs, o.node = n → (o ∈ t ++ l ↔ o ∈ t) := by
    intro o ho
    rw [List.mem_append, or_iff_left fun h => hl o h ho]
  refine ⟨fun fd g => (hmem _ rfl).trans (h.replies fd g), fun fd => ?_, fun fd => ?_, ?_, ?_, ?_⟩
  · rw [hg]
    exact h.held fd
  · rw [hg]
    exact h.pids fd
  · intro f m hm hu
    obtain ⟨hle, hno⟩ := h.read f m ((hmem _ rfl).1 hm) hu
    exact ⟨hle, fun fd => by rw [hg]; exact hno fd⟩
  · intro r l' hl' hn
    refine (h.due r l' hl' hn).imp (·.append l) fun ⟨hs, hstill, fd, hid⟩ => ⟨hs, hstill, fd, ?_⟩
    rwa [hg]
  · intro r l' hl' hn hs hstill
    obtain ⟨fd, hid⟩ := h.kept r l' hl' hn hs hstill
    exact ⟨fd, by rwa [hg]⟩

theorem start (x : MemberItem) (b : Boot) (h : ∀ o ∈ t, o.node ≠ x.nodeid) :
    Handed t x.nodeid (.start x b) := by
  have hg : ∀ fd, given t x.nodeid fd = [] := fun fd =>
    foldl_eq_self fun o ho => Obs.idsAfter_of_ne (h o ho) _
  refine ⟨fun fd g => ⟨fun hm => absurd rfl (h _ hm), fun hm => by cases hm⟩, fun fd i hi => ?_,
    fun fd i hi => ?_, fun f m hm => absurd rfl (h _ hm), fun r l hl => (by cases hl),
    fun r l hl => (by cases hl)⟩
  · rw [hg] at hi
    cases hi
  · rw [hg] at hi
    cases hi

/-- Ids that were given are not 0. -/
theorem id_ne_zero (h : Handed t n v) (hnum : v.Numbered) {fd : Nat} {i : UInt64}
    (hi : i ∈ given t n fd) : i ≠ 0 := by
  obtain ⟨-, -, g, -, -, -, -, -, hg, hgr, -, rfl⟩ := h.held fd i hi
  exact (hnum.given fd g hg hgr).1

/-- Lock ids are those of one entry. -/
theorem unique (h : Handed t n v) (hnum : v.Numbered) {fd : Nat} {i : UInt64}
    (hi : i ∈ given t n fd) {r : Resource} {l : CpgLock} (hl : (v.cell r).lock = some l)
    (hid : l.localId = i) : l.state = .held ∧ l.ownerNodeid = n ∧ (v.cell r).Still r ∧
      ∃ g, (fd, g) ∈ v.replies ∧ g.request = .grant ∧ g.key = l.key r ∧ g.lockid = i := by
  have h0 := h.id_ne_zero hnum hi
  obtain ⟨r', l', g, hl', hid', hs, hn, hstill, hg, hgr, hkey, hgi⟩ := h.held fd i hi
  have hlid : v.lockId r = i := (Daemon.lockId_of_get hl).trans hid
  have hlid' : v.lockId r' = i := (Daemon.lockId_of_get hl').trans hid'
  obtain rfl := hnum.distinct r r' (by rwa [hlid]) (hlid.trans hlid'.symm)
  obtain rfl := Option.some.inj (hl.symm.trans hl')
  exact ⟨hs, hn, hstill, g, hg, hgr, hkey, hgi⟩

/-- Nothing is read from or written to clients. -/
theorem same {t' : List Obs} {v' : Daemon} (h : Handed t n v)
    (hcell : ∀ r, v'.cell r = v.cell r) (hrep : v'.replies = v.replies)
    (hclients : ∀ c ∈ v.clients, c ∈ v'.clients) (hcount : v'.localLockid = v.localLockid)
    (hgiven : ∀ fd i, i ∈ given t' n fd ↔ i ∈ given t n fd)
    (hreply : ∀ fd g, Obs.reply n fd g ∈ t' ↔ Obs.reply n fd g ∈ t)
    (hrecv : ∀ f g, Obs.recv n f g ∈ t' → Obs.recv n f g ∈ t)
    (hunlocked : ∀ k, Unlocked t k → Unlocked t' k) : Handed t' n v' := by
  refine ⟨fun fd g => ?_, fun fd i hi => ?_, fun fd i hi => ?_, fun f g hg hu => ?_,
    fun r l hl hn => ?_, fun r l hl hn hs hstill => ?_⟩
  · rw [hreply, hrep, h.replies]
  · obtain ⟨r, l, g, hl, hid, hs, hn, hstill, hg, hrest⟩ := h.held fd i ((hgiven fd i).1 hi)
    exact ⟨r, l, g, hcell r ▸ hl, hid, hs, hn, hcell r ▸ hstill, hrep ▸ hg, hrest⟩
  · obtain ⟨c, hc, hcf, hcp⟩ := h.pids fd i ((hgiven fd i).1 hi)
    exact ⟨c, hclients c hc, hcf, hcp⟩
  · obtain ⟨hle, hno⟩ := h.read f g (hrecv f g hg) hu
    exact ⟨hcount ▸ hle, fun fd hi => hno fd ((hgiven fd _).1 hi)⟩
  · rw [hcell r] at hl ⊢
    refine (h.due r l hl hn).imp (hunlocked _) fun ⟨hs, hstill, fd, hid⟩ => ⟨hs, hstill, fd, ?_⟩
    exact (hgiven fd _).2 hid
  · rw [hcell r] at hl hstill
    obtain ⟨fd, hid⟩ := h.kept r l hl hn hs hstill
    exact ⟨fd, (hgiven fd _).2 hid⟩

/-- The delivery of a message; `rs` is what it writes to clients. -/
theorem message {t' : List Obs} {out : List CpgLockMsg} {now : Nat} {x : MemberItem} {m : CpgLockMsg}
    {rs : List (Nat × CpgLockMsg)} (h : Handed t n v) (hnum : v.Numbered)
    (hlt : v.localLockid.toNat < 2 ^ 64 - 1) (hme : v.myNodeId = n) (h0 : n ≠ 0)
    (hmove : ∀ r, ({ v with out } : Daemon).CellMove r now m
      ((({ v with out } : Daemon).deliver now (.msg x m)).cell r))
    (hpass : ∀ r, m.Passes r → (({ v with out } : Daemon).cell r).Still r)
    (hno : ∀ r, m.Passes r → (v.cell r).Acts n → ¬(v.cell r).Still r)
    (hout : v.out = if x.nodeid = n then m :: out else out)
    (hjoin : v.joined = false → ∀ r, (v.cell r).lock = none)
    (howner : m.request = .unlock → ∀ l, (v.cell m.resource).lock = some l → l.ownerNodeid = n →
      l.ownerNodeid = m.ownerNodeid ∧ l.ownerPid = m.ownerPid)
    (hconn : m.request = .grant → m.ownerNodeid = n → v.connected m.ownerPid = true)
    (hreal : m.request = .grant → m.ownerPid ≠ 0)
    (hrs : (({ v with out } : Daemon).deliver now (.msg x m)).replies = v.replies ++ rs)
    (hgiven : ∀ fd i, i ∈ given t' n fd ↔
      i ∈ given t n fd ∨ ∃ g, (fd, g) ∈ rs ∧ g.request = .grant ∧ g.lockid = i)
    (hreply : ∀ fd g, Obs.reply n fd g ∈ t' ↔ Obs.reply n fd g ∈ t ∨ (fd, g) ∈ rs)
    (hrecv : ∀ f g, Obs.recv n f g ∈ t' → Obs.recv n f g ∈ t)
    (hunlocked : ∀ k, Unlocked t k → Unlocked t' k) :
    Handed t' n (({ v with out } : Daemon).deliver now (.msg x m)) := by
  have hw := Daemon.writes_deliver ({ v with out } : Daemon) now x m
  have hclients := (Daemon.grows_deliver ({ v with out } : Daemon) now (.msg x m)).clients
  -- an entry in a client's hands is not passed on by the message
  have hstay : ∀ r l, (v.cell r).lock = some l → l.state = .held → l.ownerNodeid = n →
      (v.cell r).Still r →
      (((({ v with out } : Daemon).deliver now (.msg x m)).cell r).lock = some l ∧
        ((({ v with out } : Daemon).deliver now (.msg x m)).cell r).Still r) := by
    intro r l hl hs hn hstill
    have hp : ¬m.Passes r := fun hp => hno r hp ⟨l, hl, .inl hn⟩ hstill
    obtain ⟨hl', hst⟩ := (hmove r).held_stays hl hs hp
    refine ⟨hl', hst fun g hg => hstill g ?_⟩
    obtain ⟨hg, hc⟩ := List.mem_filter.1 hg
    exact List.mem_filter.2 ⟨mem_of_popped hout g hg, hc⟩
  -- the GRANT of an own entry is written to its client
  have hwritten : ∀ r l, ((({ v with out } : Daemon).deliver now (.msg x m)).cell r).lock = some l →
      m.request = .grant → m.ownerNodeid = n → l.localId = v.localLockid + 1 →
      ∃ fd, l.localId ∈ given t' n fd := by
    intro r l hl hm hown hid
    obtain ⟨fd, hg⟩ := hw.written_of_number (r := r) hm
      ⟨hnum.bound, hnum.distinct, hnum.given⟩ hlt ((Daemon.lockId_of_get hl).trans hid)
      (hconn hm hown) hrs
    exact ⟨fd, (hgiven fd _).2 (.inr ⟨_, hg, rfl, hid.symm⟩)⟩
  refine ⟨fun fd g => ?_, fun fd i hi => ?_, fun fd i hi => ?_, fun f g hg hu => ?_,
    fun r l' hl' hn => ?_, fun r l' hl' hn hs' hstill' => ?_⟩
  · rw [hreply, hrs, List.mem_append, h.replies]
  · rcases (hgiven fd i).1 hi with hi | ⟨g, hg, hgr, rfl⟩
    · obtain ⟨r, l, g, hl, hid, hs, hn, hstill, hg, hrest⟩ := h.held fd i hi
      obtain ⟨hl', hstill'⟩ := hstay r l hl hs hn hstill
      exact ⟨r, l, g, hl', hid, hs, hn, hstill', hrs ▸ List.mem_append_left _ hg, hrest⟩
    · obtain ⟨hj, hm, hown, hl, rfl, -, -⟩ := hw.new_reply hrs hg hgr
      obtain ⟨l, hl⟩ := Option.ne_none_iff_exists'.1 hl
      obtain ⟨hl', hsent⟩ := (hmove m.resource).eq_taken hj hm rfl hl
      rw [if_pos hown] at hl'
      refine ⟨m.resource, _, _, hl', rfl, rfl, hown.trans hme, ?_, hrs ▸ List.mem_append_right _ hg,
        rfl, ?_, rfl⟩
      · rw [Cell.Still, hsent]
        exact hpass m.resource ⟨.inl hm, rfl⟩
      · exact Daemon.grantReply_key hown
  · rw [hclients]
    rcases (hgiven fd i).1 hi with hi | ⟨g, hg, hgr, rfl⟩
    · exact h.pids fd i hi
    · obtain ⟨-, hm, -, -, -, -, c, hc, hcf, hcp⟩ := hw.new_reply hrs hg hgr
      exact ⟨c, hc, hcf, by rw [hcp]; exact hreal hm⟩
  · obtain ⟨hle, hold⟩ := h.read f g (hrecv f g hg) hu
    have hcount : v.localLockid.toNat ≤
        (({ v with out } : Daemon).deliver now (.msg x m)).localLockid.toNat := by
      cases hw with
      | silent hs => rw [hs.counter]
      | nak _ _ _ _ _ hc _ => rw [hc]
      | grant _ _ _ _ _ hc _ =>
        have := UInt64.toNat_add v.localLockid 1
        rw [UInt64.toNat_one] at this
        rw [show _ = v.localLockid + 1 from hc]
        omega
    refine ⟨hle.trans hcount, fun fd hi => ?_⟩
    rcases (hgiven fd _).1 hi with hi | ⟨g', hg', hgr, hid⟩
    · exact hold fd hi
    · -- the new id is greater than the ids that were read
      obtain ⟨-, -, -, -, rfl, -, -⟩ := hw.new_reply hrs hg' hgr
      have hid : v.localLockid + 1 = g.lockid := hid
      have := UInt64.toNat_add v.localLockid 1
      rw [UInt64.toNat_one, hid] at this
      omega
  · rcases (hmove r).own_entry (hme ▸ h0) hl' (hn.trans hme.symm) with
      ⟨l, hl, hown, hkey, -, -⟩ | ⟨hm, hr, hown, rfl, hsent⟩
    · rw [hkey]
      rcases h.due r l hl (hown.trans hme) with hu | ⟨hs, hstill, fd, hid⟩
      · exact .inl (hunlocked _ hu)
      · obtain ⟨hl₀, hstill'⟩ := hstay r l hl hs (hown.trans hme) hstill
        obtain rfl := Option.some.inj (hl'.symm.trans hl₀)
        exact .inr ⟨hs, hstill', fd, (hgiven fd _).2 (.inl hid)⟩
    · refine .inr ⟨rfl, ?_, hwritten r _ hl' hm (hown.trans hme) rfl⟩
      rw [Cell.Still, hsent]
      exact hpass r ⟨.inl hm, hr⟩
  · rcases (hmove r).own_entry (hme ▸ h0) hl' (hn.trans hme.symm) with
      ⟨l, hl, hown, -, hid, hng⟩ | ⟨hm, hr, hown, rfl, -⟩
    · have hj : v.joined = true := by
        by_contra hj
        exact absurd ((hjoin (Bool.eq_false_iff.2 hj) r).symm.trans hl) (by simp)
      have hno : ¬m.Passes r := by
        rintro ⟨hm | hm, hr⟩
        · exact hng ⟨hj, hm, hr⟩
        · exact (hmove r).released hj hm hr hl (fun _ => howner hm l (hr ▸ hl) (hown.trans hme)) l' hl' hs'
      obtain ⟨hs, hstill⟩ := (hmove r).held_back hno hl hl' hs' hstill'
      have hstill : (v.cell r).Still r := by
        rw [cell_pop hout r]
        intro g hg hgp
        rcases List.mem_append.1 hg with hg | hg
        · split at hg
          · exact hno (List.mem_singleton.1 hg ▸ hgp)
          · cases hg
        · exact hstill g hg hgp
      obtain ⟨fd, hg⟩ := h.kept r l hl (hown.trans hme) hs hstill
      exact ⟨fd, (hgiven fd _).2 (.inl (hid ▸ hg))⟩
    · exact hwritten r _ hl' hm (hown.trans hme) rfl

/-- A client's message. -/
theorem client {t' : List Obs} {fd : Nat} {m : CpgLockMsg} (h : Handed t n v) (hnum : v.Numbered)
    (hpid : m.request = .lock → m.ownerPid ≠ 0)
    (hdump : m.request = .dump → ∀ c ∈ v.clients, c.fd = fd → c.pid = 0)
    (honce : m.request = .unlock → m.lockid ∈ given t n fd)
    (hgiven : ∀ f i, i ∈ given t' n f ↔ i ∈ given (t ++ [.recv n fd m]) n f)
    (hreply : ∀ f g, Obs.reply n f g ∈ t' ↔ Obs.reply n f g ∈ t)
    (hrecv : ∀ f g, Obs.recv n f g ∈ t' ↔ Obs.recv n f g ∈ t ∨ f = fd ∧ g = m)
    (hunlocked : ∀ k, Unlocked t k → Unlocked t' k) :
    Handed t' n (v.clientActivityCb fd m) := by
  have hs := Daemon.silent_clientActivityCb v fd m
  have hw := fun r => Daemon.cellWrite_clientActivityCb v r fd m
  have hgiven : ∀ f i, i ∈ given t' n f ↔ i ∈ given t n f ∧
      ¬(m.request = .unlock ∧ i = m.lockid) ∧ ¬(m.request = .dump ∧ f = fd) := by
    intro f i
    rw [hgiven, given_append]
    simp only [List.foldl_cons, List.foldl_nil, Obs.idsAfter, true_and]
    by_cases hu : m.request = .unlock
    · simp [hu]
    · by_cases hd : m.request = .dump ∧ f = fd
      · simp [hd]
      · have hd' : ¬(fd = f ∧ m.request = .dump) := fun h => hd ⟨h.2, h.1.symm⟩
        simp [hu, hd, hd']
  have hsame : ∀ r l, (v.cell r).lock = some l → ¬(m.request = .unlock ∧ l.localId = m.lockid) →
      (v.cell r).Still r → ((v.clientActivityCb fd m).cell r).Still r := by
    intro r l hl hne hstill
    refine (hw r).still (fun hu l' hl' hid => ?_) hstill
    obtain rfl := Option.some.inj (hl.symm.trans hl')
    exact hne ⟨hu, hid⟩
  -- no DUMP comes on a connection with ids
  have hkeep : ∀ f, ∀ i ∈ given t n f, ¬(m.request = .dump ∧ f = fd) := by
    rintro f i hi ⟨hd, rfl⟩
    obtain ⟨c, hc, hcf, hcp⟩ := h.pids f i hi
    exact hcp (hdump hd c hc hcf)
  refine ⟨fun f g => ?_, fun f i hi => ?_, fun f i hi => ?_, fun f g hg hu => ?_, fun r l hl hn => ?_,
    fun r l hl hn hst hstill => ?_⟩
  · rw [hreply, hs.replies, h.replies]
  · obtain ⟨hi, hne, -⟩ := (hgiven f i).1 hi
    obtain ⟨r, l, g, hl, rfl, hst, hn, hstill, hg, hrest⟩ := h.held f i hi
    exact ⟨r, l, g, (hw r).lock.trans hl, rfl, hst, hn, hsame r l hl hne hstill,
      hs.replies ▸ hg, hrest⟩
  · obtain ⟨hi, -, hnd⟩ := (hgiven f i).1 hi
    obtain ⟨c, hc, hcf, hcp⟩ := h.pids f i hi
    rw [Daemon.clients_clientActivityCb]
    split
    · next hl =>
      refine ⟨if c.fd = fd then { c with pid := m.ownerPid } else c,
        List.mem_map.2 ⟨c, hc, rfl⟩, ?_, ?_⟩
      · split <;> exact hcf
      · split
        · exact hpid hl
        · exact hcp
    · split
      · next hd =>
        have hne : c.fd ≠ fd := fun he => hnd ⟨hd, hcf.symm.trans he⟩
        exact ⟨c, (List.mem_eraseP_of_neg (by simpa using hne)).2 hc, hcf, hcp⟩
      · exact ⟨c, hc, hcf, hcp⟩
  · rw [hs.counter]
    rcases (hrecv f g).1 hg with hg | ⟨rfl, rfl⟩
    · obtain ⟨hle, hno⟩ := h.read f g hg hu
      exact ⟨hle, fun f' hi => hno f' ((hgiven f' _).1 hi).1⟩
    · obtain ⟨r, l, -, hl, hid, -⟩ := h.held f _ (honce hu)
      refine ⟨?_, fun f' hi => ((hgiven f' _).1 hi).2.1 ⟨hu, rfl⟩⟩
      have := hnum.bound r
      rwa [Daemon.lockId_of_get hl, hid] at this
  · rw [(hw r).lock] at hl
    rcases h.due r l hl hn with hu | ⟨hst, hstill, f, hid⟩
    · exact .inl (hunlocked _ hu)
    · by_cases hun : m.request = .unlock ∧ l.localId = m.lockid
      · obtain ⟨-, -, -, g, hg, hgr, hkey, hgi⟩ := h.unique hnum (honce hun.1) hl hun.2
        refine .inl ⟨fd, g, fd, m, ?_, hgr, hkey, ?_, hun.1, hgi.symm⟩
        · rw [show (l.key r).nodeid = n from hn, hreply, h.replies]
          exact hg
        · rw [show (l.key r).nodeid = n from hn, hrecv]
          exact .inr ⟨rfl, rfl⟩
      · exact .inr ⟨hst, hsame r l hl hun hstill, f, (hgiven f _).2 ⟨hid, hun, hkeep f _ hid⟩⟩
  · rw [(hw r).lock] at hl
    obtain ⟨f, hid⟩ := h.kept r l hl hn hst ((hw r).still_back hstill)
    refine ⟨f, (hgiven f _).2 ⟨hid, fun hun => ?_, hkeep f _ hid⟩⟩
    -- the entry of the id that is unlocked is passed on
    refine (hw r).passes hun.1 hl hun.2 (fun r' l' hl' hid' => ?_) hstill
    have h0 := h.id_ne_zero hnum hid
    have hlid : v.lockId r = l.localId := Daemon.lockId_of_get hl
    have hlid' : v.lockId r' = l.localId := (Daemon.lockId_of_get hl').trans (hid'.trans hun.2.symm)
    exact hnum.distinct r' r (by rwa [hlid']) (hlid'.trans hlid.symm)

end Handed

/-! ## Runs -/

section

variable {P : Sys → Act → Prop} (hP : ∀ s a, P s a → s.FailureFree a ∧ s.UnlocksHeld a)
include hP

/-- Lock ids are distinct numbers. -/
theorem Runs.numbered_of {s : Sys} (h : Runs P .init s) {n : UInt32} {nd : Node}
    (hn : s.nodes n = some nd) : nd.d.Numbered := by
  have hs : Runs (fun s a => P s a ∧ s.CountsOn a) .init s :=
    h.strengthen fun s a hr _ => Runs.countsOn (fun s a hp => hP s a hp.1) hr a
  exact Runs.numbered (fun s a hp => hp.2) hs n nd hn

theorem Runs.handed_local {s : Sys} (h : Runs P .init s) {n : UInt32} {nd : Node} {a : Act}
    {d : Daemon} {pos : Nat} {cause : Option Nat} {seen : List Obs} (hp : P s a)
    (hn : s.nodes n = some nd) (hl : s.Local n nd a d pos cause seen)
    (hh : Handed s.trace n (nd.view s.log n)) :
    Handed (s.trace ++ seen ++ Sys.effects n cause nd.d d) n
      (Node.view s.log n { nd with d, pos }) := by
  have hF := fun s a hp => (hP s a hp).1
  obtain ⟨rs, hrs⟩ := hl.replies
  have hv := hl.viewStep
  have hvr : (Node.view s.log n { nd with d, pos }).replies = (nd.view s.log n).replies ++ rs := hrs
  obtain rfl := hl.seen_eq
  have hnum : (nd.view s.log n).Numbered := by
    have := Runs.numbered_of hP h hn
    exact ⟨this.bound, this.distinct, this.given⟩
  have hplain := (h.plain_of hF).2 n nd hn
  have hgiven : ∀ fd i, i ∈ given (s.trace ++ a.seen ++ Sys.effects n cause nd.d d) n fd ↔
      i ∈ given (s.trace ++ a.seen) n fd ∨ ∃ g, (fd, g) ∈ rs ∧ g.request = .grant ∧ g.lockid = i :=
    fun fd i => mem_given_effects hrs
  have hunlocked : ∀ k, Unlocked s.trace k →
      Unlocked (s.trace ++ a.seen ++ Sys.effects n cause nd.d d) k :=
    fun k hk => (hk.append _).append _
  have hreply : ∀ fd g, Obs.reply n fd g ∈ s.trace ++ a.seen ++ Sys.effects n cause nd.d d ↔
      Obs.reply n fd g ∈ s.trace ∨ (fd, g) ∈ rs := by
    intro fd g
    have hno : Obs.reply n fd g ∉ a.seen := by cases a <;> simp [Act.seen]
    rw [List.mem_append, reply_mem_effects hrs, List.mem_append, or_iff_left hno]
  have hrecv : ∀ f g, Obs.recv n f g ∈ s.trace ++ a.seen ++ Sys.effects n cause nd.d d ↔
      Obs.recv n f g ∈ s.trace ∨ Obs.recv n f g ∈ a.seen := by
    intro f g
    rw [List.mem_append, or_iff_left recv_notMem_effects, List.mem_append]
  have hsilent : (Node.view s.log n { nd with d, pos }).replies = (nd.view s.log n).replies →
      rs = [] := by
    intro he
    have := hvr.symm.trans he
    simpa using this
  generalize Node.view s.log n { nd with d, pos } = v' at hv hvr hsilent ⊢
  cases hv with
  | @msg x m out he hout =>
    obtain ⟨hlog, hheard⟩ := Runs.heard hF h
    have hsmooth := h.smooth_of hF hlog (hheard n nd hn) hn he
    simp only [Act.seen, List.append_nil, List.not_mem_nil, or_false] at *
    exact hh.message hnum (Runs.counter_lt hP h hn) hplain.me hplain.pos (h.cellMove hF hn he out)
      (fun r => (Runs.popped hP h hn he hout r).1) (fun r => Runs.not_passed hP h hn he hout)
      hout hplain.empty (fun hm l => Runs.unlock_owner hP h hn he hout hm) (fun hg hown => hsmooth.connected (.inl hg) (hown.trans hplain.me.symm))
      (fun hg => (hsmooth.real hg).1) hvr hgiven hreply (fun f g => (hrecv f g).1) hunlocked
  | @change members left join he =>
    obtain rfl := h.nobody_left (fun s a hp => (hF s a hp).1) _ _ _ (List.mem_of_getElem? he)
    obtain rfl := hsilent rfl
    simp only [Act.seen, List.append_nil, List.not_mem_nil, or_false, false_and, exists_false] at *
    exact hh.same (fun r => rfl) rfl (fun c hc => hc) rfl hgiven hreply
      (fun f g => (hrecv f g).1) hunlocked
  | @connect fd hfd =>
    obtain rfl := hsilent rfl
    simp only [Act.seen, List.append_nil, List.not_mem_nil, or_false, false_and, exists_false] at *
    exact hh.same (fun r => rfl) rfl (fun c hc => List.mem_append_left _ hc) rfl hgiven hreply
      (fun f g => (hrecv f g).1) hunlocked
  | @recv fd m hfd =>
    obtain rfl := hsilent (Daemon.silent_clientActivityCb (nd.view s.log n) fd m).replies
    simp only [Act.seen, List.not_mem_nil, or_false, false_and, exists_false, List.mem_singleton,
      Obs.recv.injEq, true_and] at *
    obtain ⟨-, -, hlib, -, honce⟩ := hF _ _ hp
    exact hh.client hnum hlib.1 (fun hd c hc hcf => (hlib.2 nd hn c hc hcf).2 hd) honce hgiven
      hreply hrecv hunlocked
  | close => exact ((hF _ _ hp).2.1 : False).elim

theorem Runs.handed {s : Sys} (h : Runs P .init s) :
    (∀ n, s.nodes n = none → ∀ o ∈ s.trace, o.node ≠ n) ∧
      ∀ n nd, s.nodes n = some nd → Handed s.trace n (nd.view s.log n) := by
  have hF := fun s a hp => (hP s a hp).1
  refine h.invariant_of (J := Runs P .init) (I := fun s =>
    (∀ n, s.nodes n = none → ∀ o ∈ s.trace, o.node ≠ n) ∧
      ∀ n nd, s.nodes n = some nd → Handed s.trace n (nd.view s.log n)) id
    ⟨by simp [Sys.init], by intro n nd hn; cases hn⟩ ?_
  intro s s' a hr _ hi hp hstep
  obtain ⟨hnone, hhanded⟩ := hi
  have hs := Runs.sound hr
  refine ⟨?_, ?_⟩
  · intro n hn o ho
    obtain ⟨members, left, join, boot, rfl, -, rfl⟩ | ⟨k, nd, m, out, rfl, hk, -, rfl⟩ |
      ⟨k, nd, d, pos, cause, seen, hk, -, hl, rfl⟩ := Sys.step_cases hstep
    · obtain rfl : left = [] := (hF _ _ hp).1
      rw [show (s.change members [] join boot).trace = s.trace from List.append_nil _] at ho
      refine hnone n ?_ o ho
      have hn : s.nodesAfter [] join boot n = none := hn
      simp only [Sys.nodesAfter, List.map_nil, List.not_mem_nil, if_false] at hn
      split at hn
      · cases hn
      · exact hn
    · have hne : n ≠ k := by
        rintro rfl
        exact absurd ((Sys.setNode_self ..).symm.trans hn) (by simp)
      exact hnone n ((Sys.setNode_of_ne s _ hne).symm.trans hn) o ho
    · have hne : n ≠ k := by
        rintro rfl
        exact absurd ((Sys.setNode_self ..).symm.trans hn) (by simp)
      rcases List.mem_append.1 ho with ho | ho
      · rcases List.mem_append.1 ho with ho | ho
        · exact hnone n ((Sys.setNode_of_ne s _ hne).symm.trans hn) o ho
        · rw [hl.node_seen o ho]
          exact hne.symm
      · rw [Sys.node_effects ho]
        exact hne.symm
  · refine Sys.traced_step (I := Handed) hstep hs.bounded (fun _ _ _ _ h => h.of_ne) ?_ ?_ hhanded
    · rintro members left join boot rfl hok x hx b
      obtain rfl : left = [] := (hF _ _ hp).1
      rw [List.map_nil, List.append_nil]
      exact .start x b (hnone _ (hs.nodes_join hok hx))
    · exact fun n nd d pos cause seen hn hl hh => Runs.handed_local hP hr hp hn hl hh

/-- Clients that unlock once what they were given unlock what they hold. -/
theorem Runs.unlocksHeld {s : Sys} (h : Runs P .init s) {a : Act} (honce : s.UnlocksOnce a) :
    s.UnlocksHeld a := by
  cases a with
  | recv n fd m =>
    intro hm nd hn r l hl hid
    obtain ⟨hs, hown, hstill, -⟩ := ((Runs.handed hP h).2 n nd hn).unique
      (by
        have := Runs.numbered_of hP h hn
        exact ⟨this.bound, this.distinct, this.given⟩) (honce hm) hl hid
    exact ⟨hs, hown, hstill⟩
  | _ => trivial

end

/-- In a run without failures UNLOCKs come from holders. -/
theorem Runs.disciplined {P : Sys → Act → Prop} (hP : ∀ s a, P s a → s.FailureFree a) {s : Sys}
    (h : Runs P .init s) : Runs (fun s a => P s a ∧ s.UnlocksHeld a) .init s :=
  h.strengthen fun s a hr hp =>
    Runs.unlocksHeld (fun s a hp => ⟨hP s a hp.1, hp.2⟩) hr (hP s a hp).2.2.2.2

end Cpglock
