import Cpglock.Group.Proof.Survivors

/-!
# The two branches of `del_node`

When the survivors have the same tables, the head's `del_node` acts on the entries of the departed
node and the others' only rewrites their owner, so the tables differ until the head's messages are
delivered. With LOCKs in any order among them, the tables are the same again whenever nothing is in
flight (`del_node_agrees`): every survivor then has what the order says, starting from the entries
with the rewritten owners.
-/

namespace Cpglock

/-! ## `del_node` on one resource -/

/-- The entry in the hands of `top` if it was in those of `gone`. -/
def CpgLock.moved (gone : UInt32) (top : MemberItem) (l : CpgLock) : CpgLock :=
  if l.ownerNodeid = gone then { l with ownerNodeid := top.nodeid, ownerPid := top.pid } else l

section

variable {top : MemberItem} {gone : UInt32} {r : Resource} {l l' : CpgLock} {c c' : Cell}

theorem CpgLock.moved_state : (l.moved gone top).state = l.state := by
  unfold moved
  split <;> rfl

theorem CpgLock.moved_owner (h : top.nodeid ≠ gone) : (l.moved gone top).ownerNodeid ≠ gone := by
  unfold moved
  split
  · exact h
  · assumption

theorem CpgLock.moved_shared (h : l.shared = l'.shared) :
    (l.moved gone top).shared = (l'.moved gone top).shared := by
  simp only [shared, Prod.mk.injEq] at h
  obtain ⟨hs, hn, hp, ht⟩ := h
  unfold moved
  rw [hn]
  split
  · simp [shared, hs, ht]
  · simp [shared, hs, hn, hp, ht]

namespace Cell

/-- `grant_next` on unmarked requests, either way. -/
theorem grantNextElse_cases {k : Cell → Cell} (hw : Pending c.waiting)
    (hr : ∀ q ∈ c.waiting, q.resource = r) : c.waiting = [] ∧ c.grantNextElse r k = k c ∨
      ∃ q w, c.waiting = q :: w ∧ c.grantNextElse r k = { c with
        waiting := { q with state := .held } :: w, sent := c.sent ++ [Daemon.grantMsg q] } := by
  rcases grantNext_pending hw hr with ⟨hnil, hg⟩ | ⟨q, w, hc, hg⟩
  · exact .inl ⟨hnil, by rw [grantNextElse, hg, Option.getD_none]⟩
  · exact .inr ⟨q, w, hc, by rw [grantNextElse, hg, Option.getD_some]⟩

theorem reassign_lock (c : Cell) : (c.reassign gone top).lock = c.lock.map (·.moved gone top) := by
  unfold reassign
  cases hl : c.lock with
  | none => simp [hl]
  | some l =>
    dsimp only
    split
    · next h => simp [hl, CpgLock.moved, h]
    · next h => simp [hl, CpgLock.moved, h]

theorem reassign_waiting (c : Cell) : (c.reassign gone top).waiting = c.waiting ∧
    (c.reassign gone top).sent = c.sent := by
  unfold reassign
  split
  · split <;> exact ⟨rfl, rfl⟩
  · exact ⟨rfl, rfl⟩

/-- From `c` to `c'` at most one message is sent, about `r` and no GRANT to `gone`. -/
def SendsOne (r : Resource) (gone : UInt32) (c c' : Cell) : Prop :=
  ∃ ms : List CpgLockMsg, c'.sent = c.sent ++ ms ∧ ms.length ≤ 1 ∧
    ∀ m ∈ ms, m.OfEntry ∧ m.resource = r ∧ (m.request = .grant → m.ownerNodeid ≠ gone)

theorem SendsOne.same (h : c'.sent = c.sent) : SendsOne r gone c c' :=
  ⟨[], by simp [h], by simp, by simp⟩

theorem SendsOne.one {m : CpgLockMsg} (h : c'.sent = c.sent ++ [m]) (ho : m.OfEntry)
    (hr : m.resource = r) (hg : m.request = .grant → m.ownerNodeid ≠ gone) :
    SendsOne r gone c c' :=
  ⟨[m], h, by simp, fun m' hm' => by rw [List.mem_singleton.1 hm']; exact ⟨ho, hr, hg⟩⟩

/-- `grant_next` where no request of `gone` waits. -/
theorem SendsOne.grantNextElse {c₁ : Cell} {k : Cell → Cell}
    (hw : ∀ q ∈ c₁.waiting, q.ownerNodeid ≠ gone) (hs : c₁.sent = c.sent)
    (hk : SendsOne r gone c (k c₁)) : SendsOne r gone c (c₁.grantNextElse r k) := by
  refine grantNextElse_induction (fun c' h => ?_) fun _ => hk
  obtain ⟨q, hq, hr, -, hsent⟩ := grantNext_sent h
  exact .one (hsent.trans (congrArg (· ++ _) hs)) (.inl rfl) hr fun _ => hw q hq

theorem waiting_purge (c : Cell) : ∀ q ∈ (c.purge gone 0).waiting, q.ownerNodeid ≠ gone :=
  fun q hq => by simpa using (List.mem_filter.1 hq).2

/-- The head's `del_node` sends the PURGE and then about an entry at most one message, no GRANT to
the departed node. -/
theorem recoverNode_sends (c : Cell) (me myPid : UInt32) :
    SendsOne r gone ((c.purge gone 0).send (purgeMsg gone 0)) (c.recoverNode r me myPid gone) := by
  unfold recoverNode
  dsimp only
  split
  · split
    · exact .grantNextElse (waiting_purge c) rfl (.one (m := { CpgLockMsg.blank .unlock with
        resource := r, ownerNodeid := me, ownerPid := myPid }) rfl (.inr (.inr rfl)) rfl
        (by simp [CpgLockMsg.blank]))
    · split
      · exact .grantNextElse (waiting_purge c) rfl (.same rfl)
      · exact .same rfl
  · exact .same rfl

theorem recoverNode_none {c : Cell} (hl : c.lock = none) (me myPid : UInt32) :
    c.recoverNode r me myPid gone = (c.purge gone 0).send (purgeMsg gone 0) := by
  unfold recoverNode
  dsimp only
  split
  · next hl' => exact absurd (hl'.symm.trans hl) (by simp)
  · rfl

theorem recoverNode_some {c : Cell} {l : CpgLock} (hl : c.lock = some l) (me myPid : UInt32) :
    c.recoverNode r me myPid gone =
      if l.ownerNodeid = gone ∧ l.state = .held then
        (((c.purge gone 0).send (purgeMsg gone 0)).setState .free).grantNextElse r fun c =>
          (c.take me myPid).send
            { CpgLockMsg.blank .unlock with resource := r, ownerNodeid := me, ownerPid := myPid }
      else if l.ownerNodeid = gone ∧ l.state = .free then
        ((c.purge gone 0).send (purgeMsg gone 0)).grantNextElse r (·.take me myPid)
      else (c.purge gone 0).send (purgeMsg gone 0) := by
  unfold recoverNode
  dsimp only
  split
  · next l' hl' =>
    obtain rfl := Option.some.inj (hl.symm.trans hl')
    rfl
  · next hl' => exact absurd (hl'.symm.trans hl) (by simp)

/-- The head after `del_node`: it grants the departed node's locks, or gives them back. -/
theorem recoverNode_rejoins (hw : Pending c.waiting) (hr : ∀ q ∈ c.waiting, q.resource = r)
    (hs : c.sent = []) (hst : ∀ l, c.lock = some l → l.state ≠ .pending) (htop : top.nodeid ≠ gone) :
    Rejoins top gone top.nodeid r (c.lock.map (·.moved gone top))
      (c.recoverNode r top.nodeid top.pid gone)
      (c.recoverNode r top.nodeid top.pid gone).rulings := by
  let c₁ := (c.purge gone 0).send (purgeMsg gone 0)
  have hw₁ : Pending c₁.waiting := hw.sublist List.filter_sublist
  have hr₁ : ∀ q ∈ c₁.waiting, q.resource = r := fun q hq => hr q (List.mem_filter.1 hq).1
  have hrul : c₁.rulings = [] := by
    simp [rulings, c₁, send, purge, hs, CpgLockMsg.OfEntry, purgeMsg, CpgLockMsg.blank]
  -- the first request that waits is granted, the entry free and still the departed node's
  have hgrant : ∀ {c' : Cell} {l t : CpgLock} {q : RequestItem} {w : List RequestItem},
      c₁.waiting = q :: w → c'.waiting = { q with state := .held } :: w →
      c'.sent = c₁.sent ++ [Daemon.grantMsg q] → c'.lock = some l → l.state = .free →
      l.ownerNodeid = gone → t.ownerNodeid = top.nodeid → t.state ≠ .pending →
      Rejoins top gone top.nodeid r (some t) c' c'.rulings := by
    intro c' l t q w hc hw' hs' hl hst ho ht htp
    have hq : q ∈ c₁.waiting := by rw [hc]; exact List.mem_cons_self
    have hrul' : c'.rulings = [Daemon.grantMsg q] := by
      have : c'.rulings = c₁.rulings ++ [Daemon.grantMsg q] := by
        simp [rulings, hs', CpgLockMsg.OfEntry]
      rw [this, hrul]
      rfl
    rw [hrul']
    refine ⟨l, hl, .regranting rfl hst ho (.inl ht) htp rfl (waiting_purge c q hq) (.inr ?_)⟩
    refine ⟨_, w, hw', rfl, fun q' hq' => hw₁ q' ?_⟩
    rw [hc]
    exact List.mem_cons_of_mem _ hq'
  cases hl : c.lock with
  | none =>
    rw [recoverNode_none hl]
    exact ⟨hl, hrul, hw₁⟩
  | some l =>
    rw [recoverNode_some hl]
    by_cases ho : l.ownerNodeid = gone
    · have hmoved : l.moved gone top =
          { l with ownerNodeid := top.nodeid, ownerPid := top.pid } := if_pos ho
      rw [Option.map_some, hmoved]
      by_cases hheld : l.state = .held
      · rw [if_pos ⟨ho, hheld⟩]
        rcases grantNextElse_cases (c := c₁.setState .free) (r := r) (k := fun c =>
          (c.take top.nodeid top.pid).send { CpgLockMsg.blank .unlock with
            resource := r, ownerNodeid := top.nodeid, ownerPid := top.pid }) hw₁ hr₁ with
          ⟨hnil, hk⟩ | ⟨q, w, hc, hk⟩
        · rw [hk, rulings_send (.inr (.inr rfl)),
            show ((c₁.setState .free).take top.nodeid top.pid).rulings = [] from hrul]
          refine ⟨{ l with state := .free, ownerNodeid := top.nodeid, ownerPid := top.pid }, ?_,
            .unlocking rfl rfl rfl ⟨hheld, rfl, rfl⟩ ⟨rfl, rfl, rfl⟩ hw₁⟩
          simp [take, c₁, purge, send, set, setState, hl]
        · rw [hk]
          refine hgrant (l := { l with state := .free }) hc rfl rfl ?_ rfl ho rfl (by simp [hheld])
          simp [c₁, purge, send, setState, set, hl]
      · have hfree : l.state = .free := by
          cases hst' : l.state with
          | free => rfl
          | pending => exact absurd hst' (hst l hl)
          | held => exact absurd hst' hheld
        rw [if_neg fun h => hheld h.2, if_pos ⟨ho, hfree⟩]
        rcases grantNextElse_cases (c := c₁) (r := r) (k := (·.take top.nodeid top.pid)) hw₁ hr₁ with
          ⟨hnil, hk⟩ | ⟨q, w, hc, hk⟩
        · rw [hk, show (c₁.take top.nodeid top.pid).rulings = [] from hrul]
          refine ⟨{ l with ownerNodeid := top.nodeid, ownerPid := top.pid }, ?_,
            .idle rfl (by simp [hfree]) (fun _ => htop) (by simp) (fun _ _ => rfl) hw₁⟩
          simp [take, c₁, purge, send, set, hl]
        · rw [hk]
          exact hgrant hc rfl rfl hl hfree ho rfl (by simp [hfree])
    · rw [if_neg fun h => ho h.1, if_neg fun h => ho h.1, hrul, Option.map_some,
        show l.moved gone top = l from if_neg ho]
      exact ⟨l, hl, .idle rfl (hst l hl) (fun _ => ho) (by simp) (fun _ _ => rfl) hw₁⟩

end Cell

end

/-! ## The survivors -/

/-- The same tables, up to the lock ids of the daemons' own clients and the times at which the
requests came in. -/
def Daemon.SameTables (d d' : Daemon) : Prop :=
  d.requests.map (fun q => (q.key, q.state)) = d'.requests.map (fun q => (q.key, q.state)) ∧
    ∀ r, (d.locks.get r).map CpgLock.shared = (d'.locks.get r).map CpgLock.shared

/-- The daemon of node `n`, one of the members `G` that stay when `gone` leaves. -/
structure Survivor (gone : UInt32) (G : List MemberItem) (n : UInt32) (d : Daemon) : Prop where
  me : d.myNodeId = n
  listed : ⟨n, d.myPid⟩ ∈ G
  joined : d.joined = true
  members : d.groupMembers = G
  settled : ∀ r l, d.locks.get r = some l → l.state = .held ∨ l.state = .free
  pending : ∀ q ∈ d.requests, q.state = .pending
  known : ∀ q ∈ d.requests,
    q.ownerPid ≠ 0 ∧ (q.ownerNodeid ∈ G.map (·.nodeid) ∨ q.ownerNodeid = gone)
  clients : ∀ q ∈ d.requests, q.ownerNodeid = n → d.connected q.ownerPid = true

/-- The live daemons are survivors of the leave of `gone` with the same tables, and no message is in
flight. -/
structure Sys.Survivors (s : Sys) (gone : UInt32) (G : List MemberItem) : Prop where
  quiescent : s.Quiescent
  nonempty : G ≠ []
  live : ∀ n, (s.nodes n).isSome = true ↔ n ∈ G.map (·.nodeid)
  nodup : (G.map (·.nodeid)).Nodup
  nonzero : gone ≠ 0 ∧ 0 ∉ G.map (·.nodeid)
  departed : gone ∉ G.map (·.nodeid)
  node : ∀ n nd, s.nodes n = some nd → Survivor gone G n nd.d
  same : ∀ n nd n' nd', s.nodes n = some nd → s.nodes n' = some nd' → nd.d.SameTables nd'.d

/-- All daemons run `del_node`. -/
def Sys.delNode (s : Sys) (gone : UInt32) : Sys :=
  { s with nodes := fun n => (s.nodes n).map fun nd => { nd with d := nd.d.delNode gone } }

/-- The GRANTs for `r` that wait at the daemons of `G`. -/
def Sys.grants (s : Sys) (G : List MemberItem) (r : Resource) : List CpgLockMsg :=
  G.flatMap fun x => ((s.nodes x.nodeid).map fun nd =>
    nd.d.out.filter fun m => m.request = .grant ∧ m.resource = r).getD []

section

variable {s s' : Sys} {gone : UInt32} {G : List MemberItem} {n n' : UInt32} {nd nd' : Node}
  {r : Resource} {top : MemberItem}

theorem Daemon.SameTables.keys {d d' : Daemon} (h : d.SameTables d') : d.keys = d'.keys := by
  have := congrArg (List.map Prod.fst) h.1
  rwa [List.map_map, List.map_map] at this

/-- The same identities, none of them marked. -/
theorem Daemon.sameTables_of_keys {d d' : Daemon} (hk : d.keys = d'.keys) (hp : Pending d.requests)
    (hp' : Pending d'.requests)
    (hl : ∀ r, (d.locks.get r).map CpgLock.shared = (d'.locks.get r).map CpgLock.shared) :
    d.SameTables d' := by
  have hmap : ∀ {d : Daemon}, Pending d.requests →
      d.requests.map (fun q => (q.key, q.state)) = d.keys.map fun k => (k, LockState.pending) := by
    intro d hp
    rw [Daemon.keys, List.map_map]
    exact List.map_congr_left fun q hq => by simp [hp q hq]
  exact ⟨by rw [hmap hp, hmap hp', hk], hl⟩

/-- The daemon of a listed member. -/
theorem Sys.Survivors.member (h : s.Survivors gone G) {x : MemberItem} (hx : x ∈ G) :
    ∃ nd, s.nodes x.nodeid = some nd ∧ nd.d.myPid = x.pid := by
  obtain ⟨nd, hnd⟩ := Option.isSome_iff_exists.1 ((h.live x.nodeid).2 (List.mem_map_of_mem hx))
  refine ⟨nd, hnd, ?_⟩
  have hlisted := (h.node _ nd hnd).listed
  have heq := List.inj_on_of_nodup_map h.nodup hlisted hx rfl
  rw [← heq]

/-- The leave that the order goes on from: the owners are rewritten. -/
def Sys.leave (s : Sys) (gone : UInt32) (G : List MemberItem) (top : MemberItem) (d : Daemon) :
    Leave where
  members := G
  top := top
  gone := gone
  tables := { queue := d.keys, lock := fun r => (d.locks.get r).map (·.moved gone top) }
  base := s.log.length

theorem Sys.Survivors.ok (h : s.Survivors gone G) (ht : G.head? = some top) (d : Daemon) :
    (s.leave gone G top d).Ok where
  head := ht
  alive k hk := ⟨fun h0 => h.nonzero.2 (h0 ▸ hk), fun hg : k = gone => h.departed (hg ▸ hk)⟩
  gone := h.nonzero.1

/-! ## Their daemons after `del_node` -/

namespace Daemon

theorem keys_delNode (d : Daemon) (gone : UInt32) : (d.delNode gone).keys =
    if d.getOldestNode.nodeid ≠ d.myNodeId then d.keys
    else d.keys.filter fun k => k.nodeid ≠ gone := by
  unfold delNode
  split
  · refine keys_iter _ fun d r l => ?_
    unfold reassignLock
    split <;> rfl
  · refine (keys_iter _ fun d r l => ?_).trans ?_
    · unfold recoverNodeLock
      dsimp only
      split
      · exact keys_grantNextElse _ _ rfl
      · split
        · exact keys_grantNextElse _ _ rfl
        · rfl
    · rw [keys_sendLockMsg, keys_purgeRequests]
      exact List.filter_congr fun k _ => by simp

/-- What `del_node` sends: nothing if the daemon is not the oldest. -/
theorem mem_out_delNode {d : Daemon} (hout : d.out = []) {m : CpgLockMsg}
    (hm : m ∈ (d.delNode gone).out) : d.getOldestNode.nodeid = d.myNodeId ∧
      (m = Cell.purgeMsg gone 0 ∨
        m.OfEntry ∧ (m.request = .grant → m.ownerNodeid ≠ gone)) := by
  have hsent : (d.cell m.resource).sent = [] := by simp [cell, hout]
  have hm := mem_cell hm
  rw [cell_delNode] at hm
  unfold Cell.delNode at hm
  split at hm
  · rw [(Cell.reassign_waiting _).2, hsent] at hm
    cases hm
  · next ho =>
    refine ⟨not_not.1 ho, ?_⟩
    have hsends : Cell.SendsOne m.resource gone _ _ :=
      Cell.recoverNode_sends (d.cell m.resource) d.myNodeId d.myPid
    obtain ⟨ms, hms, -, hall⟩ := hsends
    rw [hms] at hm
    rcases List.mem_append.1 hm with hm | hm
    · refine .inl (List.mem_singleton.1 ?_)
      simpa [Cell.send, Cell.purge, hsent] using hm
    · exact .inr ⟨(hall m hm).1, (hall m hm).2.2⟩

end Daemon

theorem Survivor.oldest {d : Daemon} (h : Survivor gone G n d) (ht : G.head? = some top) :
    d.getOldestNode = top := by
  rw [Daemon.getOldestNode, h.members, ht, Option.getD_some]

theorem Sys.Survivors.cell (h : s.Survivors gone G) (ht : G.head? = some top) {hd : Node}
    (hh : s.nodes top.nodeid = some hd) (hn : s.nodes n = some nd) (r : Resource) :
    Rejoins top gone n r ((hd.d.locks.get r).map (·.moved gone top)) ((nd.d.delNode gone).cell r)
      ((nd.d.delNode gone).cell r).rulings := by
  have hv := h.node n nd hn
  have hout := (h.quiescent n nd hn).1
  have hw : Pending (nd.d.cell r).waiting := fun q hq => hv.pending q (List.mem_filter.1 hq).1
  have hsent : (nd.d.cell r).sent = [] := by simp [Daemon.cell, hout]
  have hst : ∀ l, (nd.d.cell r).lock = some l → l.state ≠ .pending := fun l hl => by
    rcases hv.settled r l hl with hs | hs <;> simp [hs]
  have htop : top.nodeid ≠ gone := fun hg =>
    h.departed (hg ▸ List.mem_map_of_mem (List.mem_of_mem_head? ht))
  rw [Daemon.cell_delNode, hv.oldest ht, hv.me]
  unfold Cell.delNode
  split
  · next hne =>
    -- the entry is the head's up to the lock id
    have hsame := (h.same n nd _ hd hn hh).2 r
    have hwait : ((nd.d.cell r).reassign gone top).waiting = (nd.d.cell r).waiting :=
      (Cell.reassign_waiting _).1
    have hs : ((nd.d.cell r).reassign gone top).sent = (nd.d.cell r).sent :=
      (Cell.reassign_waiting _).2
    have hrul : ((nd.d.cell r).reassign gone top).rulings = [] := by
      simp [Cell.rulings, hs, hsent]
    rw [hrul]
    cases hl : nd.d.locks.get r with
    | none =>
      rw [hl, Option.map_none, eq_comm, Option.map_eq_none_iff] at hsame
      rw [hsame]
      refine ⟨?_, rfl, hwait ▸ hw⟩
      rw [Cell.reassign_lock, show (nd.d.cell r).lock = none from hl]
      rfl
    | some l =>
      rw [hl, Option.map_some, eq_comm, Option.map_eq_some_iff] at hsame
      obtain ⟨l₀, hl₀, hsh⟩ := hsame
      rw [hl₀]
      refine ⟨l.moved gone top, ?_, .idle (CpgLock.moved_shared hsh.symm) ?_
        (fun htn => absurd htn.symm hne) (by simp) (fun _ _ => rfl) (hwait ▸ hw)⟩
      · rw [Cell.reassign_lock, show (nd.d.cell r).lock = some l from hl]
        rfl
      · rw [CpgLock.moved_state, show l₀.state = l.state from congrArg Prod.fst hsh]
        exact hst l hl
  · next heq =>
    obtain rfl : top.nodeid = n := not_not.1 heq
    obtain rfl : nd = hd := Option.some.inj (hn.symm.trans hh)
    have hpid : nd.d.myPid = top.pid := by
      obtain ⟨nd', hn', hp⟩ := h.member (List.mem_of_mem_head? ht)
      rwa [Option.some.inj (hn.symm.trans hn')]
    rw [hpid]
    exact Cell.recoverNode_rejoins hw (fun q hq => by simpa using (List.mem_filter.1 hq).2) hsent hst
      htop

theorem Sys.Survivors.view (h : s.Survivors gone G) (ht : G.head? = some top) {hd : Node}
    (hh : s.nodes top.nodeid = some hd) (hn : s.nodes n = some nd) :
    (s.leave gone G top hd.d).View s.log n (nd.d.delNode gone) := by
  have hv := h.node n nd hn
  have hout := (h.quiescent n nd hn).1
  have hframe := Daemon.frame_delNode nd.d gone
  have holdest := hv.oldest ht
  have hafter : (s.leave gone G top hd.d).after s.log = (s.leave gone G top hd.d).tables := by
    simp [Leave.after, Sys.leave]
  have hkeys : nd.d.keys = hd.d.keys := (h.same n nd _ hd hn hh).keys
  have hasked : ∀ {k}, (s.leave gone G top hd.d).Asked s.log k → k ∈ nd.d.keys := by
    rintro k (hk | ⟨x, m, hm, -⟩)
    · rw [hkeys]
      exact hk
    · simp [Sys.leave] at hm
  have hall : ∀ {p : RequestKey → Prop} {r : Resource}, (∀ q ∈ nd.d.requests, p q.key) →
      ((nd.d.delNode gone).cell r).All p := by
    intro p r hp
    rw [Daemon.cell_delNode]
    refine Cell.All.delNode ⟨fun q hq => hp q (List.mem_filter.1 hq).1, fun m hm => ?_⟩ _ _ _ _
    simp [Daemon.cell, hout] at hm
  have hme : (nd.d.delNode gone).myNodeId = n := by
    rw [hframe.membership]
    exact hv.me
  refine ⟨(h.live n).1 (by simp [hn]), hme, ?_, ?_, ?_, fun htn => .inl ?_, fun r => ?_,
    fun m hm hg hgone => ?_, fun r => hall fun q hq => ⟨⟨(hv.known q hq).1, ?_⟩, (hv.known q hq).2⟩,
    fun r => hall fun q hq => .inr (.inl ?_), fun k hk hkn hp => ?_, fun m hm => ?_,
    fun m hm hl => ?_, fun m hm hp => ?_⟩
  · rw [hframe.membership]
    exact hv.joined
  · rw [hframe.membership]
    exact hv.members
  · rw [Daemon.keys_delNode, holdest, hv.me, hafter, hkeys]
    by_cases htn : n = top.nodeid
    · rw [if_neg (not_not.2 htn.symm)]
      exact (if_pos htn).symm
    · rw [if_pos (Ne.symm htn)]
      exact (if_neg htn).symm
  · have hdel : nd.d.delNode gone = nd.d.recoverNode gone := by
      rw [Daemon.delNode, holdest, hv.me]
      exact if_neg (not_not.2 htn.symm)
    rw [hdel]
    exact Daemon.purge_mem_recoverNode nd.d gone
  · rw [hafter]
    exact h.cell ht hh hn r
  · rcases (Daemon.mem_out_delNode hout hm).2 with rfl | ⟨-, hno⟩
    · cases hg
    · exact absurd hgone (hno hg)
  · rintro h0
    rcases (hv.known q hq).2 with hin | hin
    · exact h.nonzero.2 (h0 ▸ hin)
    · exact h.nonzero.1 (hin.symm.trans h0)
  · change q.key ∈ hd.d.keys
    rw [← hkeys]
    exact List.mem_map_of_mem hq
  · obtain ⟨q, hq, rfl⟩ := List.mem_map.1 (hasked hk)
    have := hv.clients q hq hkn
    rwa [Daemon.connected, Daemon.findClient, hframe.clients]
  · rcases (Daemon.mem_out_delNode hout hm).2 with rfl | ⟨ho, -⟩
    · exact .inr (.inl rfl)
    · exact .inr (.inr ho)
  · rcases (Daemon.mem_out_delNode hout hm).2 with rfl | ⟨ho, -⟩
    · cases hl
    · simp [CpgLockMsg.OfEntry, hl] at ho
  · rcases (Daemon.mem_out_delNode hout hm).2 with rfl | ⟨ho, -⟩
    · exact ⟨rfl, rfl, rfl⟩
    · simp [CpgLockMsg.OfEntry, hp] at ho

theorem Sys.Survivors.inv (h : s.Survivors gone G) (ht : G.head? = some top) {hd : Node}
    (hh : s.nodes top.nodeid = some hd) : (s.leave gone G top hd.d).Inv (s.delNode gone) := by
  have hnode : ∀ {n nd}, (s.delNode gone).nodes n = some nd →
      ∃ nd₀, s.nodes n = some nd₀ ∧ nd = { nd₀ with d := nd₀.d.delNode gone } ∧
        nd.pos = s.log.length := by
    intro n nd hn
    obtain ⟨nd₀, hn₀, rfl⟩ := Option.map_eq_some_iff.1 hn
    exact ⟨nd₀, hn₀, rfl, (h.quiescent n nd₀ hn₀).2⟩
  refine ⟨fun n nd hn => ?_, fun n nd hn => ?_, ⟨{ hd with d := hd.d.delNode gone }, ?_⟩,
    fun k e hk he => ?_, fun n nd hn => ?_⟩
  · obtain ⟨-, -, -, hpos⟩ := hnode hn
    exact hpos.le
  · obtain ⟨-, -, -, hpos⟩ := hnode hn
    exact hpos.ge
  · exact Option.map_eq_some_iff.2 ⟨hd, hh, rfl⟩
  · have := (List.getElem?_eq_some_iff.1 he).1
    exact absurd this (Nat.not_lt.2 hk)
  · obtain ⟨nd₀, hn₀, rfl, hpos⟩ := hnode hn
    have hview : Node.view s.log n { nd₀ with d := nd₀.d.delNode gone } = nd₀.d.delNode gone := by
      rw [Node.view, coming, hpos, List.drop_length]
      rfl
    change (s.leave gone G top hd.d).View (s.log.take _) n _
    rw [show (s.delNode gone).log = s.log from rfl, hview, hpos, List.take_length]
    exact h.view ht hh hn₀

/-- `del_node` sends at most one GRANT for a resource, none to the departed node. -/
theorem Sys.Survivors.grants (h : s.Survivors gone G) (r : Resource) :
    ((s.delNode gone).grants G r).length ≤ 1 ∧
      ∀ m ∈ (s.delNode gone).grants G r, m.ownerNodeid ≠ gone := by
  have hnode : ∀ x ∈ G, ∃ nd, s.nodes x.nodeid = some nd ∧
      ((s.delNode gone).nodes x.nodeid) = some { nd with d := nd.d.delNode gone } := by
    intro x hx
    obtain ⟨nd, hn, -⟩ := h.member hx
    exact ⟨nd, hn, by simp [Sys.delNode, hn]⟩
  refine ⟨?_, fun m hm => ?_⟩
  · cases hG : G with
    | nil => simp [Sys.grants]
    | cons top rest =>
      have ht : G.head? = some top := by rw [hG]; rfl
      -- only the head sends
      have hrest : ∀ x ∈ rest, (((s.delNode gone).nodes x.nodeid).map fun nd =>
          nd.d.out.filter fun m => m.request = .grant ∧ m.resource = r).getD [] = [] := by
        intro x hx
        obtain ⟨nd, hn, hdn⟩ := hnode x (hG ▸ List.mem_cons_of_mem _ hx)
        have hne : top.nodeid ≠ x.nodeid := fun he => by
          have hnd := h.nodup
          rw [hG, List.map_cons, List.nodup_cons] at hnd
          exact hnd.1 (he ▸ List.mem_map_of_mem hx)
        rw [hdn, Option.map_some, Option.getD_some, List.filter_eq_nil_iff]
        intro m hm
        have := (Daemon.mem_out_delNode (h.quiescent _ nd hn).1 hm).1
        rw [(h.node _ nd hn).oldest ht, (h.node _ nd hn).me] at this
        exact absurd this hne
      obtain ⟨hd, hh, hdh⟩ := hnode top (hG ▸ List.mem_cons_self)
      rw [Sys.grants, List.flatMap_cons, List.flatMap_eq_nil_iff.2 hrest, List.append_nil, hdh,
        Option.map_some, Option.getD_some]
      have hv := h.node _ hd hh
      have hsent : (hd.d.cell r).sent = [] := by simp [Daemon.cell, (h.quiescent _ hd hh).1]
      have hsends : Cell.SendsOne r gone _ _ :=
        Cell.recoverNode_sends (hd.d.cell r) hd.d.myNodeId hd.d.myPid
      obtain ⟨ms, hms, hlen, -⟩ := hsends
      have hcell : ((hd.d.delNode gone).cell r).sent = Cell.purgeMsg gone 0 :: ms := by
        rw [Daemon.cell_delNode, hv.oldest ht, Cell.delNode, if_neg (not_not.2 hv.me.symm), hms]
        simp [Cell.send, Cell.purge, hsent]
      have hfilter : (hd.d.delNode gone).out.filter (fun m => m.request = .grant ∧ m.resource = r) =
          ms.filter fun m => m.request = .grant ∧ m.resource = r := by
        have : (hd.d.delNode gone).out.filter (fun m => m.request = .grant ∧ m.resource = r) =
            ((hd.d.delNode gone).cell r).sent.filter
              fun m => m.request = .grant ∧ m.resource = r := by
          rw [Daemon.cell, List.filter_filter]
          refine List.filter_congr fun m _ => ?_
          by_cases hr : m.resource = r <;> simp [CpgLockMsg.concerns, hr]
        rw [this, hcell]
        simp [Cell.purgeMsg, CpgLockMsg.blank]
      rw [hfilter]
      exact (List.length_filter_le _ _).trans hlen
  · obtain ⟨x, hx, hm⟩ := List.mem_flatMap.1 hm
    obtain ⟨nd, hn, hdn⟩ := hnode x hx
    rw [hdn, Option.map_some, Option.getD_some] at hm
    obtain ⟨hm, hg⟩ := List.mem_filter.1 hm
    simp only [decide_eq_true_eq] at hg
    rcases (Daemon.mem_out_delNode (h.quiescent _ nd hn).1 hm).2 with rfl | ⟨-, hno⟩
    · cases hg.1
    · exact hno hg.1

/-- After a run among the survivors it is enough to look at these. -/
theorem Sys.Survivors.quiescent_of {P : Sys → Act → Prop} (hP : ∀ s a, P s a → s.OnlyLocks a)
    (h : s.Survivors gone G) (hr : Runs P (s.delNode gone) s')
    (hg : ∀ x ∈ G, ∀ nd ∈ s'.nodes x.nodeid, nd.d.out = [] ∧ nd.pos = s'.log.length) :
    s'.Quiescent := by
  obtain ⟨top, ht⟩ : ∃ top, G.head? = some top := Option.isSome_iff_exists.1 (by simpa using h.nonempty)
  obtain ⟨hd, hh, -⟩ := h.member (List.mem_of_mem_head? ht)
  intro n nd hn
  obtain ⟨x, hx, rfl⟩ :=
    List.mem_map.1 (((h.inv ht hh).run hP (h.ok ht hd.d) hr).views n nd hn).member
  exact hg x hx nd hn

/-- A daemon that knows process 301 of node 3 as the holder of the lock `a`, with a process of node 3
and process 200 of node 2 waiting. -/
def survivor (n pid : UInt32) : Daemon :=
  let a : Resource := .a
  { Membership.init n pid with
    groupMembers := [⟨1, 10⟩, ⟨2, 20⟩]
    joined := true
    totalMembers := 2
    requests := [⟨a, 3, 300, 2, .pending, 0⟩, ⟨a, 2, 200, 1, .pending, 0⟩]
    clients := [⟨5, 200⟩]
    locks := SortedMap.empty.insert a ⟨.held, 3, 301, 1, 0⟩
    localLockid := 0
    history := { messages := [], messageCount := 0, maxSavedMsgs := 0 }
    stray := ⟨0, 0⟩
    out := []
    replies := [] }

def twoSurvivors : Sys where
  group := [⟨1, 10⟩, ⟨2, 20⟩]
  log := []
  nodes n :=
    if n = 1 then some { d := survivor 1 10, since := 0, pos := 0 }
    else if n = 2 then some { d := survivor 2 20, since := 0, pos := 0 } else none
  trace := []

theorem twoSurvivors_cases (h : twoSurvivors.nodes n = some nd) :
    n = 1 ∧ nd = { d := survivor 1 10, since := 0, pos := 0 } ∨
      n = 2 ∧ nd = { d := survivor 2 20, since := 0, pos := 0 } := by
  simp only [twoSurvivors] at h
  split at h
  · exact .inl ⟨‹_›, (Option.some.inj h).symm⟩
  · split at h
    · exact .inr ⟨‹_›, (Option.some.inj h).symm⟩
    · cases h

theorem survivor_of {pid : UInt32} (hn : n = 1 ∧ pid = 10 ∨ n = 2 ∧ pid = 20) :
    Survivor 3 [⟨1, 10⟩, ⟨2, 20⟩] n (survivor n pid) where
  me := rfl
  listed := by rcases hn with ⟨rfl, rfl⟩ | ⟨rfl, rfl⟩ <;> decide
  joined := rfl
  members := rfl
  settled r l hl := by
    simp only [survivor, SortedMap.get_insert, SortedMap.get_empty] at hl
    split at hl
    · obtain rfl := Option.some.inj hl
      exact .inl rfl
    · cases hl
  pending q hq := by
    simp only [survivor, List.mem_cons, List.not_mem_nil, or_false] at hq
    rcases hq with rfl | rfl <;> rfl
  known q hq := by
    simp only [survivor, List.mem_cons, List.not_mem_nil, or_false] at hq
    rcases hq with rfl | rfl <;> simp
  clients q hq hqn := by
    simp only [survivor, List.mem_cons, List.not_mem_nil, or_false] at hq
    rcases hq with rfl | rfl
    · rcases hn with ⟨rfl, -⟩ | ⟨rfl, -⟩ <;> cases hqn
    · rfl

theorem twoSurvivors_survive : twoSurvivors.Survivors 3 [⟨1, 10⟩, ⟨2, 20⟩] where
  quiescent n nd h := by
    rcases twoSurvivors_cases h with ⟨-, rfl⟩ | ⟨-, rfl⟩ <;> exact ⟨rfl, rfl⟩
  nonempty := by simp
  live n := by
    simp only [twoSurvivors, List.map_cons, List.map_nil, List.mem_cons, List.not_mem_nil, or_false]
    by_cases h1 : n = 1
    · simp [h1]
    · by_cases h2 : n = 2 <;> simp [h1, h2]
  nodup := by decide
  nonzero := by decide
  departed := by decide
  node n nd h := by
    rcases twoSurvivors_cases h with ⟨rfl, rfl⟩ | ⟨rfl, rfl⟩
    · exact survivor_of (.inl ⟨rfl, rfl⟩)
    · exact survivor_of (.inr ⟨rfl, rfl⟩)
  same n nd n' nd' h h' := by
    rcases twoSurvivors_cases h with ⟨-, rfl⟩ | ⟨-, rfl⟩ <;>
      rcases twoSurvivors_cases h' with ⟨-, rfl⟩ | ⟨-, rfl⟩ <;> exact ⟨rfl, fun _ => rfl⟩

end

end Cpglock
