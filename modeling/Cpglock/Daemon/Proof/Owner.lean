import Cpglock.Daemon.Proof.Requests

/-!
# Who owns an entry

The owner of an entry is the node that may grant it. Besides the creation of an entry (owner 0) only
a GRANT (`processGrant_owner`) and the departure of the owner (`delNode_owner`) change it; what a
client does never does.
-/

namespace Cpglock

namespace Cell

variable {r : Resource} {c : Cell}

/-- The owner of the entry, if there is an entry. -/
def owner (c : Cell) : Option UInt32 := c.lock.map (·.ownerNodeid)

theorem owner_congr {c' : Cell} (h : c'.lock = c.lock) : c'.owner = c.owner := by
  rw [owner, owner, h]

@[simp] theorem owner_send (c : Cell) (m : CpgLockMsg) : (c.send m).owner = c.owner := rfl

@[simp] theorem owner_purge (c : Cell) (n p : UInt32) : (c.purge n p).owner = c.owner := rfl

@[simp] theorem owner_unlink (c : Cell) (k : RequestKey) : (c.unlink k).owner = c.owner := rfl

@[simp] theorem owner_enqueue (c : Cell) (m : CpgLockMsg) (now : Nat) :
    (c.enqueue m now).owner = c.owner := rfl

@[simp] theorem owner_setState (c : Cell) (st : LockState) : (c.setState st).owner = c.owner := by
  simp [owner, setState, set, Function.comp_def]

theorem owner_eq_none : c.owner = none ↔ c.lock = none := Option.map_eq_none_iff

theorem owner_eq_some {n : UInt32} : c.owner = some n ↔ ∃ l, c.lock = some l ∧ l.ownerNodeid = n :=
  Option.map_eq_some_iff

theorem owner_grantNextElse {k : Cell → Cell} (hk : (k c).owner = c.owner) :
    (c.grantNextElse r k).owner = c.owner :=
  grantNextElse_induction (I := fun c' => c'.owner = c.owner)
    (fun _ h => owner_congr (grantNext_lock h)) fun _ => hk

@[simp] theorem owner_grantNextOrUnlock (c : Cell) (m : CpgLockMsg) :
    (c.grantNextOrUnlock r m).owner = c.owner := owner_grantNextElse rfl

@[simp] theorem owner_grantFree (c : Cell) : (c.grantFree r).owner = c.owner :=
  (owner_grantNextElse (owner_setState _ _)).trans (owner_setState _ _)

@[simp] theorem owner_regrantNonMember (c : Cell) (b : Bool) (m : CpgLockMsg) :
    (c.regrantNonMember r b m).owner = c.owner := by
  unfold regrantNonMember
  split
  · simp
  · rfl

/-! ## Clients and departed nodes -/

@[simp] theorem owner_recoverClient (c : Cell) (me pid : UInt32) :
    (c.recoverClient r me pid).owner = c.owner := by
  unfold recoverClient
  dsimp only
  split
  · split <;> simp
  · simp

/-- A departed node's entries go to the oldest, those that are granted at once stay. -/
theorem delNode_owner (c : Cell) (me myPid nodeid : UInt32) (o : MemberItem) :
    (c.delNode r me myPid o nodeid).owner = c.owner ∨
      c.owner = some nodeid ∧ (c.delNode r me myPid o nodeid).owner = some o.nodeid := by
  unfold delNode
  split
  · unfold reassign
    split
    · next l hl =>
      split
      · next hn => exact .inr ⟨by simp [owner, hl, hn], by simp [owner, set, hl]⟩
      · exact .inl rfl
    · exact .inl rfl
  · next hme =>
    have hme : o.nodeid = me := not_not.1 hme
    unfold recoverNode
    dsimp only
    split
    · next l hl =>
      have hl : c.lock = some l := hl
      split
      · next h =>
        refine grantNextElse_induction (I := fun c' => c'.owner = c.owner ∨ _ ∧ c'.owner = _)
          (fun c' hc' => .inl ?_) fun _ => .inr ⟨by simp [owner, hl, h.1], ?_⟩
        · rw [owner_congr (grantNext_lock hc')]
          simp
        · simp [owner, take, set, setState, send, purge, hl, hme]
      · split
        · next h =>
          refine grantNextElse_induction (I := fun c' => c'.owner = c.owner ∨ _ ∧ c'.owner = _)
            (fun c' hc' => .inl ?_) fun _ => .inr ⟨by simp [owner, hl, h.1], ?_⟩
          · rw [owner_congr (grantNext_lock hc')]
            simp
          · simp [owner, take, set, send, purge, hl, hme]
        · exact .inl rfl
    · exact .inl rfl

/-! ## Deliveries -/

theorem processLock_owner (c : Cell) (me : UInt32) (b : Bool) (m : CpgLockMsg) (now : Nat) :
    (c.processLock r me b m now).owner = c.owner ∨
      c.owner = none ∧ (c.processLock r me b m now).owner = some 0 := by
  unfold processLock
  dsimp only
  split
  · left
    split
    · split
      · simp
      · split <;> simp
    · simp
  · next hl =>
    refine .inr ⟨owner_eq_none.2 hl, ?_⟩
    split
    · rw [owner_grantFree]
      rfl
    · rfl

theorem processGrant_owner (c : Cell) (me : UInt32) (lost connected : Bool) (id : UInt64)
    {m : CpgLockMsg} (hp : m.ownerPid ≠ 0) (hn : m.ownerNodeid ≠ 0) :
    (c.processGrant r me lost connected id m).owner = some m.ownerNodeid := by
  unfold processGrant
  split
  · next l hl =>
    rw [if_neg fun h => h.2.elim hp hn]
    have hg : (((c.set (Daemon.granted m)).unlink m.key).owner) = some m.ownerNodeid := by
      simp [owner, set, hl, Daemon.granted]
    have hg' : ((((c.set (Daemon.granted m)).unlink m.key).set fun l =>
        { l with localId := id }).owner) = some m.ownerNodeid := by
      simp [owner, set, unlink, hl, Daemon.granted]
    dsimp only
    split
    · split
      · rw [owner_regrantNonMember, hg']
      · rw [owner_grantNextOrUnlock, owner_purge, hg']
    · rw [owner_regrantNonMember, hg]
  · rfl

@[simp] theorem processNak_lock (c : Cell) (me : UInt32) (connected : Bool) (m : CpgLockMsg) :
    (c.processNak me connected m).lock = c.lock := by
  unfold processNak
  split
  · dsimp only
    split <;> rfl
  · rfl

@[simp] theorem owner_processUnlock (c : Cell) (me : UInt32) (m : CpgLockMsg) :
    (c.processUnlock r me m).owner = c.owner := by
  unfold processUnlock
  split
  · split
    · dsimp only
      split
      · cases hg : (c.setState .free).grantNext r with
        | none => exact owner_setState _ _
        | some c' =>
          exact (owner_setState c' _).trans
            ((owner_congr (grantNext_lock hg)).trans (owner_setState _ _))
      · exact owner_setState _ _
    · rfl
  · rfl

end Cell

/-- How a delivered message changes the owner: it does not, or creates the entry, or is a GRANT. -/
theorem Daemon.CellStep.owner {d : Daemon} {r : Resource} {now : Nat} {m : CpgLockMsg} {c : Cell}
    (h : d.CellStep r now m c)
    (hreal : m.request = .grant → m.ownerPid ≠ 0 ∧ m.ownerNodeid ≠ 0) :
    (c.owner = (d.cell r).owner ∧ ¬(d.joined = true ∧ m.request = .grant ∧ m.resource = r)) ∨
    (d.joined = true ∧ m.request = .lock ∧ m.resource = r ∧ (d.cell r).owner = none ∧
      c.owner = some 0) ∨
    (d.joined = true ∧ m.request = .grant ∧ m.resource = r ∧ c.owner = some m.ownerNodeid) := by
  cases h with
  | lock hj hm hr =>
    rcases Cell.processLock_owner (r := r) (d.cell r) d.myNodeId
      (d.getOldestNode.nodeid = d.myNodeId) m now with h | ⟨h, h'⟩
    · exact .inl ⟨h, by simp [hm]⟩
    · exact .inr (.inl ⟨hj, hm, hr, h, h'⟩)
  | grant hj hm hr =>
    obtain ⟨hp, hn⟩ := hreal hm
    exact .inr (.inr ⟨hj, hm, hr, Cell.processGrant_owner _ _ _ _ _ hp hn⟩)
  | nak _ hm _ => exact .inl ⟨Cell.owner_congr (Cell.processNak_lock _ _ _ _), by simp [hm]⟩
  | unlock _ hm _ => exact .inl ⟨Cell.owner_processUnlock _ _ _, by simp [hm]⟩
  | purge hm => exact .inl ⟨rfl, by simp [hm]⟩
  | gone _ hr _ _ => exact .inl ⟨rfl, fun h => hr h.2.2⟩
  | same _ h => exact .inl ⟨rfl, fun h' => (h h'.1 h'.2.2).2.1 h'.2.1⟩

/-- A client's message does not change the owner. -/
theorem Daemon.owner_clientActivityCb (d : Daemon) (r : Resource) (fd : Nat) (m : CpgLockMsg) :
    ((d.clientActivityCb fd m).cell r).owner = (d.cell r).owner := by
  rw [cell_clientActivityCb]
  split
  · rfl
  · split
    · cases d.findLockById m with
      | none => rfl
      | some m' =>
        show Cell.owner (if m'.resource = r then _ else _) = _
        split
        · exact Cell.owner_grantNextOrUnlock _ _
        · rfl
    · rfl

theorem Daemon.owner_delClient (d : Daemon) (r : Resource) (fd : Nat) :
    ((d.delClient fd).cell r).owner = (d.cell r).owner := by
  rw [cell_delClient]
  split
  · rfl
  · exact Cell.owner_recoverClient _ _ _

end Cpglock
