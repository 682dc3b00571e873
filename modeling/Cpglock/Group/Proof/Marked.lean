import Cpglock.Daemon.Proof.Marked
import Cpglock.Group.Proof.Plain

/-!
# In every run a marked request has its GRANT on the way

`Runs.marked`: `Cell.Marked` holds of every view, so of all GRANTs of a daemon that it has not been
delivered yet, ordered or not.
-/

namespace Cpglock

theorem Cell.Marked.start (x : MemberItem) (b : Boot) (r : Resource) :
    ((Daemon.start x b).cell r).Marked r := by
  refine ⟨fun _ => ⟨rfl, fun m hm => ?_⟩, by simp [Daemon.cell, Daemon.start, Daemon.sendJoin,
    Daemon.sendLockMsg], .nil, fun k => Nat.zero_le _⟩
  have hm := (List.mem_filter.1 hm).1
  simp only [Daemon.start, Daemon.sendJoin, Daemon.sendLockMsg, List.nil_append,
    List.mem_singleton] at hm
  rw [hm]
  simp [CpgLockMsg.blank, CpgLockMsg.OfEntry]

theorem Cell.Marked.clientActivityCb {v : Daemon} {r : Resource} (h : (v.cell r).Marked r) (fd : Nat)
    (m : CpgLockMsg) : ((v.clientActivityCb fd m).cell r).Marked r := by
  rw [Daemon.cell_clientActivityCb]
  split
  · next hm => exact h.send (.inr (by simp [hm.1, CpgLockMsg.OfEntry]))
  · split
    · cases hf : v.findLockById m with
      | none => exact h
      | some m' =>
        dsimp only
        split
        · next hr =>
          obtain ⟨l, hl, -⟩ := Daemon.findLockById_some hf
          have hl : (v.cell r).lock = some l := hr ▸ hl
          exact h.grantNextOrUnlock (by simp [hl]) _
        · exact h
    · exact h

theorem Cell.Marked.delClient {v : Daemon} {r : Resource} (h : (v.cell r).Marked r) (fd : Nat) :
    ((v.delClient fd).cell r).Marked r := by
  rw [Daemon.cell_delClient]
  split
  · exact h
  · exact h.recoverClient _ _

theorem Cell.Marked.viewStep {log : List Event} {n : UInt32} {v v' : Daemon} {pos pos' : Nat}
    {a : Act} (hp : Plain n v) (hlog : Ordered RealMsg log) (h : ∀ r, (v.cell r).Marked r)
    (hs : ViewStep log n v pos a v' pos') (r : Resource) : (v'.cell r).Marked r := by
  cases hs with
  | @msg x m out he hout =>
    have hc := h r
    rw [cell_pop hout] at hc
    exact hc.step (fun hm => hlog pos x m he (.inr (.inl hm))) (fun hj => hp.empty hj r)
      (Daemon.cellStep_deliver _ pos x m)
  | change he =>
    exact Daemon.cell_configChange_induction (I := fun _ c => c.Marked r) (h r) (fun _ _ h => h)
      (fun _ _ _ h => h) fun _ _ _ h _ _ _ => h.delNode _ _ _ _
  | connect => exact h r
  | recv => exact (h r).clientActivityCb _ _
  | close => exact (h r).delClient _

theorem Runs.marked {P : Sys → Act → Prop} (hP : ∀ s a, P s a → a.HasPid) {s : Sys}
    (h : Runs P .init s) : s.Views fun _ _ v => ∀ r, (v.cell r).Marked r := by
  refine (h.rule (L := fun _ _ _ => True) Sys.sound_init (fun _ _ _ _ => trivial)
    (by intro n nd h; cases h) ?_ (fun _ _ _ _ _ _ _ _ _ _ _ _ => trivial) ?_).2.2
  · exact fun _ _ _ _ _ _ _ _ _ x b _ _ => .start x b
  · intro s a n nd v pos _ hr _ _ hv hn _ hstep
    obtain ⟨hlog, hplain⟩ := Runs.plain hP hr
    exact Cell.Marked.viewStep (hplain n nd hn) hlog (hv n nd hn) hstep

end Cpglock
