import Cpglock.Group.Proof.Departure
import Cpglock.Group.Proof.Purges
import Cpglock.Group.Proof.Recovery

/-!
# Runs after `del_node`

`Leave.Msg`: what a message that is ordered after the leave is like at its place in the order, and
`Leave.View`: what a survivor's daemon is like at its place. The sender of a GRANT or UNLOCK acts for
the entry when the message is ordered, because no other daemon's ruling can have come in between
(`lock_fold`).
-/

namespace Cpglock

/-- A leave: the members that stay, the first of them, the node that has left, the tables that the
order from position `base` on starts from. -/
structure Leave where
  members : List MemberItem
  top : MemberItem
  gone : UInt32
  tables : Replica
  base : Nat

/-- The entry is free, and neither nobody's nor the head's. -/
def CpgLock.Fresh (top : MemberItem) (t : CpgLock) : Prop :=
  t.state = .free ∧ t.ownerNodeid ≠ 0 ∧ t.ownerNodeid ≠ top.nodeid

namespace Leave

variable (E : Leave)

/-- The node ids of the members. -/
def ids : List UInt32 := E.members.map (·.nodeid)

structure Ok : Prop where
  head : E.members.head? = some E.top
  alive : ∀ n ∈ E.ids, n ≠ 0 ∧ n ≠ E.gone
  gone : E.gone ≠ 0

/-- The tables after a part of the order. -/
def after (done : List Event) : Replica := (done.drop E.base).foldl Replica.step E.tables

/-- The request is in the queue at the leave or was asked for since. -/
def Asked (done : List Event) (k : RequestKey) : Prop :=
  k ∈ E.tables.queue ∨ ∃ x m, Event.msg x m ∈ done.drop E.base ∧ m.request = .lock ∧ m.key = k

/-- A process of a member or of the departed node. -/
def Known (k : RequestKey) : Prop := k.Real ∧ (k.nodeid ∈ E.ids ∨ k.nodeid = E.gone)

/-- A member's request for `r` is queued. -/
def Others (T : Replica) (r : Resource) : Prop :=
  ∃ k ∈ T.queue, k.resource = r ∧ k.nodeid ≠ E.gone

/-- A message of node `x` that is ordered after `done`. -/
structure Msg (done : List Event) (x : UInt32) (m : CpgLockMsg) : Prop where
  member : x ∈ E.ids
  kind : m.request = .lock ∨ m.request = .purge ∨ m.OfEntry
  lock : m.request = .lock → m.ownerNodeid = x
  purge : m.request = .purge → m.PurgesNode E.gone
  known : m.request = .lock ∨ m.request = .grant ∨ m.request = .nak → E.Known m.key
  asked : m.request = .grant ∨ m.request = .nak → m.ownerNodeid = x ∨ E.Asked done m.key
  entry : m.OfEntry → (E.after done).lock m.resource ≠ none
  acts : m.request = .grant ∨ m.request = .unlock →
    Acts E.top E.gone x ((E.after done).lock m.resource)
  unlock : m.request = .unlock → x = E.top.nodeid ∧ m.GivesBack E.top ∧
    ∀ t, (E.after done).lock m.resource = some t → t.Taken E.top
  handed : m.request = .grant → m.ownerNodeid = E.gone →
    (∀ t, (E.after done).lock m.resource = some t → t.state = .free) ∧
      E.Others (E.after done) m.resource
  nak : m.request = .nak → ∀ t, (E.after done).lock m.resource = some t → ¬t.Fresh E.top

/-- A member's daemon, its own undelivered messages waiting, after `done`. -/
structure View (done : List Event) (n : UInt32) (v : Daemon) : Prop where
  member : n ∈ E.ids
  me : v.myNodeId = n
  joined : v.joined = true
  members : v.groupMembers = E.members
  queue : v.keys = if n = E.top.nodeid then
    (E.after done).queue.filter (fun k => k.nodeid ≠ E.gone) else (E.after done).queue
  purge : n = E.top.nodeid →
    (∃ m ∈ v.out, m.PurgesNode E.gone) ∨ ∀ k ∈ (E.after done).queue, k.nodeid ≠ E.gone
  cell : ∀ r, Rejoins E.top E.gone n r ((E.after done).lock r) (v.cell r) (v.cell r).rulings
  others : ∀ m ∈ v.out, m.request = .grant → m.ownerNodeid = E.gone →
    E.Others (E.after done) m.resource
  known : ∀ r, (v.cell r).All E.Known
  asked : ∀ r, (v.cell r).All fun k =>
    k.nodeid = n ∧ k.pid ≠ 0 ∧ v.connected k.pid = true ∨ E.Asked done k
  live : ∀ k, E.Asked done k → k.nodeid = n → k.pid ≠ 0 → v.connected k.pid = true
  kind : ∀ m ∈ v.out, m.request = .lock ∨ m.request = .purge ∨ m.OfEntry
  mine : ∀ m ∈ v.out, m.request = .lock → m.ownerNodeid = n
  purges : ∀ m ∈ v.out, m.request = .purge → m.PurgesNode E.gone

/-- The order from `base` on. -/
def Log (log : List Event) : Prop :=
  ∀ k e, E.base ≤ k → log[k]? = some e → ∃ x m, e = .msg x m ∧ E.Msg (log.take k) x.nodeid m

end Leave

/-! ## The order -/

section

variable {E : Leave} {log done : List Event} {r : Resource} {x n : UInt32} {m : CpgLockMsg}
  {T : Replica}

namespace Leave

theorem after_append (h : E.base ≤ done.length) (e : Event) :
    E.after (done ++ [e]) = (E.after done).step e := by
  simp [after, List.drop_append_of_le_length h]

theorem after_take_succ {k : Nat} (hb : E.base ≤ k) {e : Event} (h : log[k]? = some e) :
    E.after (log.take (k + 1)) = (E.after (log.take k)).step e := by
  have hlt := (List.getElem?_eq_some_iff.1 h).1
  rw [List.take_add_one, h]
  exact after_append (by rw [List.length_take]; omega) e

theorem Asked.append (h : E.base ≤ done.length) {k : RequestKey} (hk : E.Asked done k)
    (e : Event) : E.Asked (done ++ [e]) k := by
  refine hk.imp_right fun ⟨y, m, hm, hr⟩ => ⟨y, m, ?_, hr⟩
  rw [List.drop_append_of_le_length h]
  exact List.mem_append_left _ hm

theorem Asked.lock (h : E.base ≤ done.length) {y : MemberItem} (hm : m.request = .lock) :
    E.Asked (done ++ [.msg y m]) m.key := by
  refine .inr ⟨y, m, ?_, hm, rfl⟩
  rw [List.drop_append_of_le_length h]
  exact List.mem_append_right _ (List.mem_singleton_self _)

theorem asked_append (h : E.base ≤ done.length) {y : MemberItem} {k : RequestKey}
    (hk : E.Asked (done ++ [.msg y m]) k) : E.Asked done k ∨ m.request = .lock ∧ m.key = k := by
  rcases hk with hk | ⟨y', m', hm, hr⟩
  · exact .inl (.inl hk)
  · rw [List.drop_append_of_le_length h] at hm
    rcases List.mem_append.1 hm with hm | hm
    · exact .inl (.inr ⟨y', m', hm, hr⟩)
    · obtain ⟨rfl, rfl⟩ := Event.msg.inj (List.mem_singleton.1 hm)
      exact .inr hr

theorem Log.append (h : E.Log log) {y : MemberItem} (hm : E.Msg log y.nodeid m) :
    E.Log (log ++ [.msg y m]) := by
  intro k e hb hk
  by_cases hlt : k < log.length
  · rw [List.getElem?_append_left hlt] at hk
    rw [List.take_append_of_le_length hlt.le]
    exact h k e hb hk
  · have hk' := (List.getElem?_eq_some_iff.1 hk).1
    simp only [List.length_append, List.length_singleton] at hk'
    obtain rfl : k = log.length := by omega
    obtain rfl : Event.msg y m = e := by simpa using hk
    rw [List.take_left]
    exact ⟨y, m, rfl, hm⟩

/-- The GRANTs and UNLOCKs for `r`. -/
def decisions (r : Resource) (l : List CpgLockMsg) : List CpgLockMsg :=
  l.filter fun m => (m.request = .grant ∨ m.request = .unlock) ∧ m.resource = r

theorem relock_of_not {o : Option CpgLock} (ho : o ≠ none)
    (h : ¬(m.request = .grant ∨ m.request = .unlock)) : m.relock o = o := by
  unfold CpgLockMsg.relock
  split
  · cases o with
    | none => exact absurd rfl ho
    | some t => rfl
  · exact absurd (.inl ‹_›) h
  · exact absurd (.inr ‹_›) h
  · rfl

/-- While the node that acts for an entry is `x`, the entry changes by its messages alone. -/
theorem Log.lock_fold (hlog : E.Log log) (hE : E.Ok) (hx : x ∈ E.ids) {p : Nat} (hb : E.base ≤ p)
    (hne : (E.after (log.take p)).lock r ≠ none) {k : Nat} (hpk : p ≤ k) (hk : k ≤ log.length)
    (hacts : ∀ D, D <+: decisions r (coming (log.take k) x p) →
      Acts E.top E.gone x (D.foldl (fun o m => m.relock o) ((E.after (log.take p)).lock r))) :
    (E.after (log.take k)).lock r = (decisions r (coming (log.take k) x p)).foldl
      (fun o m => m.relock o) ((E.after (log.take p)).lock r) := by
  induction k, hpk using Nat.le_induction with
  | base => simp [coming, decisions]
  | succ k hpk ih =>
    obtain ⟨e, he⟩ : ∃ e, log[k]? = some e := ⟨_, List.getElem?_eq_getElem (by omega)⟩
    obtain ⟨y, m, rfl, hm⟩ := hlog k e (by omega) he
    have hcoming : coming (log.take (k + 1)) x p =
        coming (log.take k) x p ++ ((Event.msg y m).own x).toList := by
      rw [List.take_add_one, he]
      exact coming_append (by rw [List.length_take]; omega) x _
    have hdec : decisions r (coming (log.take (k + 1)) x p) =
        decisions r (coming (log.take k) x p) ++ decisions r ((Event.msg y m).own x).toList := by
      rw [hcoming, decisions, List.filter_append]
      rfl
    have hpre : decisions r (coming (log.take k) x p) <+:
        decisions r (coming (log.take (k + 1)) x p) := by
      rw [hdec]
      exact List.prefix_append ..
    have ih := ih (by omega) fun D hD => hacts D (hD.trans hpre)
    have hnone : (E.after (log.take k)).lock r ≠ none := by
      rw [ih]
      have : ∀ (l : List CpgLockMsg) (o : Option CpgLock), o ≠ none →
          l.foldl (fun o m => m.relock o) o ≠ none := by
        intro l
        induction l with
        | nil => exact fun _ h => h
        | cons m l ih => exact fun o ho => ih _ (Replica.relock_ne_none ho)
      exact this _ _ hne
    rw [after_take_succ (by omega) he, hdec, List.foldl_append, ← ih]
    simp only [Replica.step, Replica.deliver]
    by_cases hd : (m.request = .grant ∨ m.request = .unlock) ∧ m.resource = r
    · obtain ⟨hd, rfl⟩ := hd
      -- the sender acts for the entry, so it is `x`
      have hyx : y.nodeid = x := by
        refine (hm.acts hd).unique ?_ (hE.alive _ hm.member) (hE.alive _ hx)
        rw [ih]
        exact hacts _ hpre
      simp [Event.own, hyx, decisions, hd]
    · have hnil : decisions r ((Event.msg y m).own x).toList = [] := by
        unfold decisions Event.own
        dsimp only
        split
        · simp [hd]
        · rfl
      rw [hnil, List.foldl_nil]
      split
      · next hr => exact relock_of_not hnone fun h => hd ⟨h, hr⟩
      · rfl

/-- An entry is not fresh again after a GRANT. -/
theorem Log.not_fresh (hlog : E.Log log) {p : Nat} (hb : E.base ≤ p) {k : Nat} (hpk : p ≤ k)
    (hk : k ≤ log.length)
    (h : (∀ t, (E.after (log.take p)).lock r = some t → ¬t.Fresh E.top) ∨
      ∃ m ∈ coming (log.take k) x p, m.request = .grant ∧ m.resource = r) :
    ∀ t, (E.after (log.take k)).lock r = some t → ¬t.Fresh E.top := by
  induction k, hpk using Nat.le_induction with
  | base =>
    refine h.resolve_right ?_
    rintro ⟨m, hm, -⟩
    simp [coming] at hm
  | succ k hpk ih =>
    obtain ⟨e, he⟩ : ∃ e, log[k]? = some e := ⟨_, List.getElem?_eq_getElem (by omega)⟩
    obtain ⟨y, m, rfl, hm⟩ := hlog k e (by omega) he
    have hcoming : coming (log.take (k + 1)) x p =
        coming (log.take k) x p ++ ((Event.msg y m).own x).toList := by
      rw [List.take_add_one, he]
      exact coming_append (by rw [List.length_take]; omega) x _
    rw [after_take_succ (by omega) he]
    simp only [Replica.step, Replica.deliver]
    -- a GRANT holds the entry, whatever was before
    have hgrant : m.request = .grant → m.resource = r →
        ∀ t, m.relock ((E.after (log.take k)).lock r) = some t → ¬t.Fresh E.top := by
      intro hg hr t ht hf
      simp only [CpgLockMsg.relock, hg, Option.map_eq_some_iff] at ht
      obtain ⟨t₀, -, rfl⟩ := ht
      simp [CpgLock.Fresh, Daemon.granted] at hf
    by_cases hg : m.request = .grant ∧ m.resource = r
    · rw [if_pos hg.2]
      exact hgrant hg.1 hg.2
    · have hold : ∀ a ∈ coming (log.take (k + 1)) x p, a.request = .grant ∧ a.resource = r →
          a ∈ coming (log.take k) x p := by
        intro a ha har
        rw [hcoming] at ha
        refine (List.mem_append.1 ha).resolve_right fun ha => hg ?_
        unfold Event.own at ha
        dsimp only at ha
        split at ha
        · rw [List.mem_singleton.1 ha] at har
          exact har
        · cases ha
      have ih := ih (by omega) (h.imp_right fun h => h.imp fun a ha => ⟨hold a ha.1 ha.2, ha.2⟩)
      split
      · next hr =>
        intro t ht hf
        unfold CpgLockMsg.relock at ht
        split at ht
        · obtain rfl := Option.some.inj ht
          cases ho : (E.after (log.take k)).lock r with
          | none => rw [ho] at hf; exact hf.2.1 rfl
          | some t₀ => rw [ho] at hf; exact ih t₀ ho hf
        · exact hg ⟨‹_›, hr⟩
        · next hu =>
          obtain ⟨t₀, ht₀, rfl⟩ := Option.map_eq_some_iff.1 ht
          split at hf
          · have := (hm.unlock hu).2.2 t₀ (hr ▸ ht₀)
            exact hf.2.2 this.2.1
          · exact ih t₀ ht₀ hf
        · exact ih t ht hf
      · exact ih

/-- A member's request stays queued unless it is answered. -/
theorem Others.deliver (h : E.Others T r) (hm : m.resource = r → m.request ≠ .grant ∧
    m.request ≠ .nak) (hp : m.request = .purge → m.PurgesNode E.gone) :
    E.Others (T.deliver m) r := by
  obtain ⟨k, hk, hr, hg⟩ := h
  refine ⟨k, ?_, hr, hg⟩
  have hne : m.request = .grant ∨ m.request = .nak → k ≠ m.key := by
    rintro hm' rfl
    exact hm'.elim (hm hr).1 (hm hr).2
  simp only [Replica.deliver, CpgLockMsg.requeue]
  split
  · exact List.mem_append_left _ hk
  · next hq => exact (List.mem_erase_of_ne (hne (.inl hq))).2 hk
  · next hq => exact (List.mem_erase_of_ne (hne (.inr hq))).2 hk
  · next hq => exact mem_purgeKeys.2 ⟨hk, fun hc => hg (hc.1.trans (hp hq).2.1)⟩
  · exact hk

theorem after_lock_mono {p k : Nat} (hb : E.base ≤ p) (hpk : p ≤ k)
    (h : (E.after (log.take p)).lock r ≠ none) : (E.after (log.take k)).lock r ≠ none := by
  induction k, hpk using Nat.le_induction with
  | base => exact h
  | succ k hpk ih =>
    cases he : log[k]? with
    | none =>
      have hle := List.getElem?_eq_none_iff.1 he
      rwa [List.take_of_length_le (by omega), ← List.take_of_length_le hle]
    | some e =>
      rw [after_take_succ (by omega) he]
      exact Replica.lock_step ih

/-- On the way no message takes a member's request off, as long as the entry stays fresh. -/
theorem Others.persists (hlog : E.Log log) (hE : E.Ok) (hx : x ∈ E.ids) {p : Nat} (hb : E.base ≤ p)
    {t : CpgLock} (ht : (E.after (log.take p)).lock r = some t) (hacts : Acts E.top E.gone x (some t))
    (hfresh : t.Fresh E.top) (hnil : decisions r (coming log x p) = [])
    (h : E.Others (E.after (log.take p)) r) {k : Nat} (hpk : p ≤ k) (hk : k ≤ log.length) :
    E.Others (E.after (log.take k)) r := by
  induction k, hpk using Nat.le_induction with
  | base => exact h
  | succ k hpk ih =>
    obtain ⟨e, he⟩ : ∃ e, log[k]? = some e := ⟨_, List.getElem?_eq_getElem (by omega)⟩
    obtain ⟨y, m, rfl, hm⟩ := hlog k e (by omega) he
    have hnil' : decisions r (coming (log.take k) x p) = [] := by
      refine List.eq_nil_iff_forall_not_mem.2 fun a ha => ?_
      obtain ⟨ha, hap⟩ := List.mem_filter.1 ha
      obtain ⟨e', he', hee⟩ := List.mem_filterMap.1 ha
      rw [List.drop_take] at he'
      have : a ∈ decisions r (coming log x p) :=
        List.mem_filter.2 ⟨List.mem_filterMap.2 ⟨e', List.mem_of_mem_take he', hee⟩, hap⟩
      rw [hnil] at this
      cases this
    have hlock : (E.after (log.take k)).lock r = some t := by
      have := hlog.lock_fold hE hx hb (r := r) (by simp [ht]) hpk (by omega) fun D hD => by
        rw [hnil'] at hD
        rw [List.prefix_nil.1 hD, ht]
        exact hacts
      rw [this, hnil', ht]
      rfl
    rw [after_take_succ (by omega) he]
    refine (ih (by omega)).deliver (fun hr => ⟨fun hg => ?_, fun hn => ?_⟩) hm.purge
    · have hyx : y.nodeid = x := by
        have := hm.acts (.inl hg)
        rw [hr, hlock] at this
        exact this.unique hacts (hE.alive _ hm.member) (hE.alive _ hx)
      have : m ∈ decisions r (coming log x p) := by
        refine List.mem_filter.2 ⟨List.mem_filterMap.2 ⟨.msg y m, ?_, by simp [Event.own, hyx]⟩, ?_⟩
        · rw [List.mem_iff_getElem?]
          refine ⟨k - p, ?_⟩
          rw [List.getElem?_drop, show p + (k - p) = k by omega]
          exact he
        · simp [hg, hr]
      rw [hnil] at this
      cases this
    · exact hm.nak hn t (hr ▸ hlock) hfresh

theorem Asked.mono {p : Nat} {k : RequestKey} (h : E.Asked (log.take p) k) : E.Asked log k := by
  refine h.imp_right fun ⟨y, m, hm, hr⟩ => ⟨y, m, ?_, hr⟩
  rw [List.drop_take] at hm
  exact List.mem_of_mem_take hm

end Leave

/-! ## A message is ordered -/

/-- What a ruling that waits is, by those ahead of it. -/
theorem Phase.split {top : MemberItem} {gone n : UInt32} {r : Resource} {t l : CpgLock}
    {w : List RequestItem} {A B : List CpgLockMsg} (h : Phase top gone n r t l w (A ++ m :: B)) :
    m.request = .nak ∧ (¬t.Fresh top ∨ ∃ a ∈ A, a.request = .grant) ∨
    m.request = .unlock ∧ A = [] ∧ n = top.nodeid ∧ t.Taken top ∧ m.GivesBack top ∨
    m.request = .grant ∧ A = [] ∧ Acts top gone n (some t) ∧
      (m.ownerNodeid = gone → t.state = .free ∧ t.ownerNodeid = n ∧ n ≠ top.nodeid) ∨
    m.request = .grant ∧ n = top.nodeid ∧ t.Taken top ∧ m.ownerNodeid ≠ gone ∧
      ∃ u, A = [u] ∧ u.GivesBack top := by
  have hacts := h.idle_or_acts
  generalize hms : A ++ m :: B = ms at h hacts
  have hmem : m ∈ ms := by
    rw [← hms]
    exact List.mem_append_right _ List.mem_cons_self
  cases h with
  | idle _ _ _ hnak hfree _ =>
    refine .inl ⟨hnak m hmem, .inl fun hf => ?_⟩
    rw [hfree hf.1 fun ht => absurd ht hf.2.2] at hmem
    cases hmem
  | @granting g ms _ _ htf ho hg hnak hgt _ =>
    cases A with
    | nil =>
      obtain ⟨rfl, -⟩ := List.cons.inj hms
      refine .inr (.inr (.inl ⟨hg, rfl, ho.imp id fun h => ⟨h.1, .inl h.2⟩, fun hgone => ?_⟩))
      have hn : n ≠ top.nodeid := fun hn => hgt hn hgone
      exact ⟨htf, ho.resolve_right fun h => hn h.1, hn⟩
    | cons a A =>
      obtain ⟨rfl, hrest⟩ := List.cons.inj hms
      refine .inl ⟨hnak m ?_, .inr ⟨a, List.mem_cons_self, hg⟩⟩
      rw [← hrest]
      exact List.mem_append_right _ List.mem_cons_self
  | unlocking hn _ _ ht hu _ =>
    cases A with
    | nil =>
      obtain ⟨rfl, -⟩ := List.cons.inj hms
      exact .inr (.inl ⟨hu.1, rfl, hn, ht, hu⟩)
    | cons a A => simp at hms
  | @relocking u g ms hn _ _ ht hu hg hnak hgt _ =>
    cases A with
    | nil =>
      obtain ⟨rfl, -⟩ := List.cons.inj hms
      exact .inr (.inl ⟨hu.1, rfl, hn, ht, hu⟩)
    | cons a A =>
      obtain ⟨rfl, hrest⟩ := List.cons.inj hms
      cases A with
      | nil =>
        obtain ⟨rfl, -⟩ := List.cons.inj hrest
        exact .inr (.inr (.inr ⟨hg, hn, ht, hgt, a, rfl, hu⟩))
      | cons b A =>
        obtain ⟨rfl, htail⟩ := List.cons.inj hrest
        refine .inl ⟨hnak m ?_, .inr ⟨b, List.mem_cons_of_mem _ List.mem_cons_self, hg⟩⟩
        rw [← htail]
        exact List.mem_append_right _ List.mem_cons_self
  | regranting hn _ _ ho _ hg hgt _ =>
    cases A with
    | nil =>
      obtain ⟨rfl, -⟩ := List.cons.inj hms
      refine .inr (.inr (.inl ⟨hg, rfl, ?_, fun h => absurd h hgt⟩))
      exact ho.imp (fun h => h.trans hn.symm) fun h => ⟨hn, .inr h⟩
    | cons a A => simp at hms

/-- A GRANT to the departed node is the first ruling that waits, and a free entry's of its own owner,
not the head. -/
theorem Rejoins.handed {top : MemberItem} {gone n : UInt32} {o : Option CpgLock} {c : Cell}
    {A B : List CpgLockMsg} (h : Rejoins top gone n r o c (A ++ m :: B)) (hm : m.request = .grant)
    (hg : m.ownerNodeid = gone) : A = [] ∧ n ≠ top.nodeid ∧
      ∃ t, o = some t ∧ t.state = .free ∧ t.ownerNodeid = n := by
  cases o with
  | none => exact absurd h.2.1 (by simp)
  | some t =>
    obtain ⟨l, -, h⟩ := h
    rcases h.split with ⟨hk, -⟩ | ⟨hk, -⟩ | ⟨-, hnil, -, hgone⟩ | ⟨-, -, -, hgone, -⟩
    · rw [hm] at hk
      cases hk
    · rw [hm] at hk
      cases hk
    · obtain ⟨hst, ho, hn⟩ := hgone hg
      exact ⟨hnil, hn, t, rfl, hst, ho⟩
    · exact absurd hg hgone

namespace Leave

/-- Among the rulings for `r`, the decisions. -/
theorem decisions_eq (r : Resource) (l : List CpgLockMsg) : decisions r l =
    ((l.filter (·.concerns r)).filter fun m => m.OfEntry).filter fun m =>
      m.request = .grant ∨ m.request = .unlock := by
  rw [List.filter_filter, List.filter_filter, decisions]
  refine List.filter_congr fun m _ => ?_
  by_cases hg : m.request = .grant <;> by_cases hu : m.request = .unlock <;>
    simp [hg, hu, CpgLockMsg.OfEntry, CpgLockMsg.concerns]

theorem View.order {s : Sys} (hE : E.Ok) (hlog : E.Log s.log) {nd : Node} {out : List CpgLockMsg}
    (hout : nd.d.out = m :: out) (hb : E.base ≤ nd.pos) (hpos : nd.pos ≤ s.log.length)
    (h : E.View (s.log.take nd.pos) n (nd.view s.log n)) : E.Msg s.log n m := by
  have hmem : m ∈ (nd.view s.log n).out := Node.mem_view hout
  have hlen : s.log.take s.log.length = s.log := List.take_length
  have hknown : m.request = .lock ∨ m.request = .grant ∨ m.request = .nak → E.Known m.key :=
    fun hr => Cell.All.of_out h.known hmem hr
  have hasked : m.request = .grant ∨ m.request = .nak → m.ownerNodeid = n ∨ E.Asked s.log m.key := by
    intro hr
    exact (Cell.All.of_out h.asked hmem (.inr hr)).imp (fun h => h.1) Asked.mono
  by_cases ho : m.OfEntry
  · have hcell := h.cell m.resource
    obtain ⟨t, ht, l, -, hphase⟩ : ∃ t, (E.after (s.log.take nd.pos)).lock m.resource = some t ∧
        ∃ l, ((nd.view s.log n).cell m.resource).lock = some l ∧ Phase E.top E.gone n m.resource t l
          ((nd.view s.log n).cell m.resource).waiting
          ((nd.view s.log n).cell m.resource).rulings := by
      cases ht : (E.after (s.log.take nd.pos)).lock m.resource with
      | none =>
        rw [ht] at hcell
        have : m ∈ ((nd.view s.log n).cell m.resource).rulings :=
          List.mem_filter.2 ⟨Daemon.mem_cell hmem, by simpa using ho⟩
        rw [hcell.2.1] at this
        cases this
      | some t =>
        rw [ht] at hcell
        exact ⟨t, rfl, hcell⟩
    let A := ((coming s.log n nd.pos).filter (·.concerns m.resource)).filter fun m => m.OfEntry
    let B := (out.filter (·.concerns m.resource)).filter fun m => m.OfEntry
    have hrul : ((nd.view s.log n).cell m.resource).rulings = A ++ m :: B := by
      have hc : m.concerns m.resource = true := by simp [CpgLockMsg.concerns]
      simp only [Cell.rulings, Daemon.cell, Node.view, Daemon.behind_out, hout, List.filter_append,
        List.filter_cons, hc, if_true, ho, decide_true]
      rfl
    have hdec : decisions m.resource (coming s.log n nd.pos) = A.filter fun m =>
        m.request = .grant ∨ m.request = .unlock := decisions_eq _ _
    have hA : ∀ a ∈ A, a ∈ coming s.log n nd.pos ∧ a.resource = m.resource := by
      intro a ha
      obtain ⟨ha, hao⟩ := List.mem_filter.1 ha
      obtain ⟨ha, hac⟩ := List.mem_filter.1 ha
      refine ⟨ha, ?_⟩
      rcases (show a.request = .purge ∨ a.resource = m.resource by
        simpa [CpgLockMsg.concerns] using hac) with hp | hr
      · simp [CpgLockMsg.OfEntry, hp] at hao
      · exact hr
    have hne : (E.after (s.log.take nd.pos)).lock m.resource ≠ none := by simp [ht]
    have hentry : (E.after s.log).lock m.resource ≠ none := by
      have := after_lock_mono hb hpos hne
      rwa [hlen] at this
    -- the entry at the end of the order, given who acts for it on the way
    have hfold : ∀ D, decisions m.resource (coming s.log n nd.pos) = D →
        (∀ D', D' <+: D → Acts E.top E.gone n (D'.foldl (fun o m => m.relock o) (some t))) →
        (E.after s.log).lock m.resource = D.foldl (fun o m => m.relock o) (some t) := by
      rintro D rfl hD
      have := hlog.lock_fold hE h.member hb hne hpos le_rfl (by rwa [hlen, ht])
      rwa [hlen, ht] at this
    rw [hrul] at hphase
    have hsplit := hphase.split
    have hstep : ∀ t', (E.after s.log).lock m.resource = some t' →
        Acts E.top E.gone n (some t') →
        (m.request = .nak → ∀ t, (E.after s.log).lock m.resource = some t → ¬t.Fresh E.top) →
        (m.request = .unlock → n = E.top.nodeid ∧ m.GivesBack E.top ∧ t'.Taken E.top) →
        (m.request = .grant → m.ownerNodeid = E.gone →
          t'.state = .free ∧ E.Others (E.after s.log) m.resource) → E.Msg s.log n m := by
      intro t' ht' hacts hnak hunlock hgone
      have huniq : ∀ {t''}, (E.after s.log).lock m.resource = some t'' → t'' = t' := fun ht'' =>
        Option.some.inj (ht''.symm.trans ht')
      refine ⟨h.member, h.kind m hmem, h.mine m hmem, h.purges m hmem, hknown, hasked,
        fun _ => hentry, fun _ => ht' ▸ hacts, fun hu => ?_, fun hg hgo => ?_, hnak⟩
      · exact ⟨(hunlock hu).1, (hunlock hu).2.1, fun t'' ht'' => huniq ht'' ▸ (hunlock hu).2.2⟩
      · exact ⟨fun t'' ht'' => huniq ht'' ▸ (hgone hg hgo).1, (hgone hg hgo).2⟩
    rcases hsplit with ⟨hm, hnf⟩ | ⟨hm, hnil, hn, htaken, hgb⟩ | ⟨hm, hnil, hacts, hgone⟩ |
      ⟨hm, hn, htaken, hgone, u, hu, hgb⟩
    · have hnf' : ∀ t, (E.after s.log).lock m.resource = some t → ¬t.Fresh E.top := by
        have := hlog.not_fresh (x := n) (r := m.resource) hb hpos le_rfl (hnf.imp
          (fun hf t' ht' => by rwa [← Option.some.inj (ht.symm.trans ht')]) fun h =>
            h.imp fun a ha => ⟨by rw [hlen]; exact (hA a ha.1).1, ha.2, (hA a ha.1).2⟩)
        rwa [hlen] at this
      refine ⟨h.member, h.kind m hmem, h.mine m hmem, h.purges m hmem, hknown, hasked,
        fun _ => hentry, by simp [hm], by simp [hm], by simp [hm], fun _ => hnf'⟩
    · rw [hnil] at hdec
      have hacts : Acts E.top E.gone n (some t) := .inl (htaken.2.1.trans hn.symm)
      refine hstep t (hfold [] hdec fun D' hD' => ?_) hacts (by simp [hm])
        (fun _ => ⟨hn, hgb, htaken⟩) (by simp [hm])
      rw [List.prefix_nil.1 hD']
      exact hacts
    · rw [hnil] at hdec
      have hend : (E.after s.log).lock m.resource = some t := by
        refine hfold [] hdec fun D' hD' => ?_
        rw [List.prefix_nil.1 hD']
        exact hacts
      refine hstep t hend hacts (by simp [hm]) (by simp [hm]) fun _ hgo => ?_
      obtain ⟨htf, htn, hntop⟩ := hgone hgo
      refine ⟨htf, ?_⟩
      have hfresh : t.Fresh E.top :=
        ⟨htf, htn ▸ (hE.alive n h.member).1, fun h => hntop (htn.symm.trans h)⟩
      have := Others.persists hlog hE h.member hb ht hacts hfresh hdec (h.others m hmem hm hgo) hpos
        le_rfl
      rwa [hlen] at this
    · have hur : u.resource = m.resource := (hA u (by rw [hu]; exact List.mem_cons_self)).2
      rw [hu, List.filter_cons, if_pos (by simp [hgb.1]), List.filter_nil] at hdec
      have hfree : u.relock (some t) = some { t with state := .free } := by
        have hrel : u.Releases t := ⟨htaken.2.1.trans hgb.2.1.symm, htaken.2.2.trans hgb.2.2.symm⟩
        simp [CpgLockMsg.relock, hgb.1, htaken.1, hrel]
      have hacts : ∀ st : LockState, Acts E.top E.gone n (some { t with state := st }) := fun st =>
        .inl (htaken.2.1.trans hn.symm)
      refine hstep { t with state := .free } ?_ (hacts _) (by simp [hm]) (by simp [hm])
        fun _ h => absurd h hgone
      have hpre : ∀ D', D' <+: [u] →
          Acts E.top E.gone n (D'.foldl (fun o m => m.relock o) (some t)) := by
        intro D' hD'
        cases D' with
        | nil => exact hacts t.state
        | cons a D' =>
          obtain ⟨rfl, hrest⟩ := List.cons_prefix_cons.1 hD'
          rw [List.prefix_nil.1 hrest, List.foldl_cons, List.foldl_nil, hfree]
          exact hacts .free
      rw [hfold [u] hdec hpre]
      exact hfree
  · refine ⟨h.member, h.kind m hmem, h.mine m hmem, h.purges m hmem, hknown, hasked,
      fun h => absurd h ho, fun h => absurd ?_ ho, fun h => absurd (.inr (.inr h)) ho,
      fun h => absurd (.inl h) ho, fun h => absurd (.inr (.inl h)) ho⟩
    exact h.imp id .inr

end Leave

end

end Cpglock
