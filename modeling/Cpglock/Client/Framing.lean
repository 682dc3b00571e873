import Cpglock.Client.Lock
import Cpglock.Client.Proof.Io

/-!
# Message framing on a handle's socket

The daemon writes whole messages, and the threads of a handle read them with time limits of a few
milliseconds. `framing_iff`: the messages they get from `read_timeout` are the daemon's, whole and in
order, exactly when no pass of the loop runs out of time, or fails, in the middle of a message. Then
the bytes read so far are dropped with the thread's buffer, and every later message is torn.
-/

namespace Cpglock

/-- A handle and the messages its threads got from `read_timeout`. -/
structure Reading where
  handle : Handle
  taken : List (List UInt8)
deriving DecidableEq

namespace Reading

/-- A fresh handle; the daemon will write `msgs`. -/
def start (msgs : List Frame) : Reading :=
  { handle := { pending := [], sock := { incoming := msgs.flatMap (·.bytes), outgoing := [] } }
    taken := [] }

def step (s : Reading) (c : Call) : Option Reading :=
  (s.handle.wait c).map fun p => { handle := p.1, taken := s.taken ++ p.2.1.toList }

/-- The state after some passes of the loop. -/
def run (s : Reading) (calls : List Call) : Option Reading := calls.foldlM step s

/-- What was taken are the daemon's messages, in order, and no byte of the others is missing. -/
def Framed (msgs : List Frame) (s : Reading) : Prop :=
  ∃ rest : List Frame, msgs.map (·.bytes) = s.taken ++ rest.map (·.bytes) ∧
    s.handle.sock.incoming = rest.flatMap (·.bytes)

/-- The pass has to read, there is something to read, and its time is up, or a call fails, when it
has read a part of a message. -/
def Tears (s : Reading) (c : Call) : Prop :=
  checkPending s.handle.pending c.l.bytes = none ∧ s.handle.sock.incoming ≠ [] ∧
    ∃ m, 0 < m ∧ m < 128 ∧ Stops (0 < c.timeoutMs) c.timeoutMs c.passes m

/-- Bytes of the daemon's messages are missing. -/
def Short (msgs : List Frame) (s : Reading) : Prop :=
  128 * s.taken.length + s.handle.sock.incoming.length < 128 * msgs.length

end Reading

theorem length_flatMap_bytes (l : List Frame) : (l.flatMap (·.bytes)).length = 128 * l.length := by
  induction l with
  | nil => rfl
  | cons m l ih =>
    rw [List.flatMap_cons, List.length_append, ih, m.size, List.length_cons]
    omega

namespace Reading

variable {msgs : List Frame} {s s' : Reading} {c : Call}

theorem Framed.not_short (h : Framed msgs s) : ¬Short msgs s := by
  obtain ⟨rest, hm, hin⟩ := h
  have := congrArg List.length hm
  simp only [List.length_map, List.length_append] at this
  rw [Short, hin, length_flatMap_bytes]
  omega

/-- What a pass does: nothing is read, or a part of a message is lost, or a whole message is read. -/
theorem step_cases (h : s.step c = some s') :
    (checkPending s.handle.pending c.l.bytes ≠ none ∧ s'.taken = s.taken ∧
      s'.handle.sock = s.handle.sock) ∨
    (checkPending s.handle.pending c.l.bytes = none ∧ ∃ res,
      ioLoop Sock.read (0 < c.timeoutMs) [] c.r.bytes c.timeoutMs s.handle.sock c.passes = some res ∧
      s'.handle.sock = res.sock ∧
      s'.taken = s.taken ++ if res.errno = none then [res.buf] else []) := by
  obtain ⟨p, hp, rfl⟩ := Option.map_eq_some_iff.1 h
  unfold Handle.wait at hp
  cases hc : checkPending s.handle.pending c.l.bytes with
  | some q =>
    rw [hc] at hp
    obtain rfl := Option.some.inj hp
    exact .inl ⟨by simp, by simp, rfl⟩
  | none =>
    rw [hc] at hp
    obtain ⟨res, hres, rfl⟩ := Option.map_eq_some_iff.1 hp
    refine .inr ⟨rfl, res, hres, ?_, ?_⟩
    · dsimp only
      split
      · rfl
      · split <;> rfl
    · dsimp only
      split
      · next e he => rw [he]; rfl
      · next he =>
        rw [if_pos he]
        split <;> rfl

theorem Framed.step (hf : Framed msgs s) (h : s.step c = some s') (ht : ¬Tears s c) :
    Framed msgs s' := by
  obtain ⟨rest, hm, hin⟩ := hf
  rcases step_cases h with ⟨-, htk, hs⟩ | ⟨hc, res, hres, hs, htk⟩
  · exact ⟨rest, by rw [htk, hm], by rw [hs, hin]⟩
  · obtain ⟨m, hm', hlen, hin', hbuf, herr⟩ := ioLoop_read hres
    rw [c.r.size] at hm' herr
    cases rest with
    | nil =>
      -- nothing is written yet
      rw [hin, List.flatMap_nil, List.length_nil] at hlen
      rw [if_neg (by rw [herr]; omega), List.append_nil] at htk
      exact ⟨[], by rw [htk, hm], by rw [hs, hin', hin]; simp⟩
    | cons f rest =>
      have hall : s.handle.sock.incoming = f.bytes ++ rest.flatMap (·.bytes) := hin
      by_cases he : res.errno = none
      · obtain rfl := herr.1 he
        rw [hall, List.take_left' f.size, List.drop_of_length_le c.r.size.le, List.nil_append,
          List.append_nil] at hbuf
        rw [hall, List.drop_left' f.size] at hin'
        rw [if_pos he, hbuf] at htk
        exact ⟨rest, by rw [htk, hm]; simp, by rw [hs, hin']⟩
      · obtain ⟨k, hk, hstop, hin''⟩ := ioLoop_stops hres
          (by rw [c.r.size, hin, length_flatMap_bytes, List.length_cons]; omega) he
        have hk0 : k = 0 := by
          by_contra h0
          refine ht ⟨hc, ?_, k, Nat.pos_of_ne_zero h0, by rwa [c.r.size] at hk, hstop⟩
          intro hnil
          rw [hin] at hnil
          have := congrArg List.length hnil
          rw [length_flatMap_bytes, List.length_cons, List.length_nil] at this
          omega
        rw [if_neg he, List.append_nil] at htk
        exact ⟨f :: rest, by rw [htk, hm], by rw [hs, hin'', hk0, List.drop_zero, hin]⟩

/-- A torn message is not made up for. -/
theorem Framed.torn (hf : Framed msgs s) (h : s.step c = some s') (ht : Tears s c) :
    Short msgs s' := by
  obtain ⟨rest, hm, hin⟩ := hf
  obtain ⟨hc, hne, m, hpos, hlt, hstop⟩ := ht
  have hmsgs := congrArg List.length hm
  simp only [List.length_map, List.length_append] at hmsgs
  have hrest : rest ≠ [] := by
    rintro rfl
    exact hne hin
  have hlen : 128 ≤ s.handle.sock.incoming.length := by
    rw [hin, length_flatMap_bytes]
    have := List.length_pos_of_ne_nil hrest
    omega
  rcases step_cases h with ⟨hc', -⟩ | ⟨-, res, hres, hs, htk⟩
  · exact absurd hc hc'
  · obtain ⟨res', hres', he, hin'⟩ := hstop.fails []
      (show m < c.r.bytes.length by rwa [c.r.size]) (by rwa [c.r.size])
    obtain rfl := Option.some.inj (hres.symm.trans hres')
    rw [if_neg he, List.append_nil] at htk
    have hin'' : s'.handle.sock.incoming.length = s.handle.sock.incoming.length - m := by
      rw [hs, hin', List.length_drop]
    rw [hin, length_flatMap_bytes] at hin'' hlen
    rw [Short, htk]
    omega

theorem Short.step (hl : Short msgs s) (h : s.step c = some s') : Short msgs s' := by
  unfold Short at hl ⊢
  rcases step_cases h with ⟨-, htk, hs⟩ | ⟨-, res, hres, hs, htk⟩
  · rwa [htk, hs]
  · obtain ⟨m, -, hlen, hin, -, herr⟩ := ioLoop_read hres
    have hl' := congrArg List.length htk
    rw [List.length_append] at hl'
    rw [c.r.size] at herr
    rw [hs, hin, List.length_drop, hl']
    split
    · next he =>
      have := herr.1 he
      rw [List.length_singleton]
      omega
    · rw [List.length_nil]
      omega

/-- A run keeps the framing as long as no pass tears a message, and has lost bytes from then on. -/
theorem run_framed (hf : Framed msgs s) {calls : List Call} (h : s.run calls = some s') :
    Framed msgs s' ∧ (∀ pre c post t, calls = pre ++ c :: post → s.run pre = some t → ¬Tears t c) ∨
      Short msgs s' ∧ ∃ pre c post t, calls = pre ++ c :: post ∧ s.run pre = some t ∧ Tears t c := by
  induction calls using List.reverseRecOn generalizing s' with
  | nil =>
    obtain rfl := Option.some.inj h
    exact .inl ⟨hf, by simp⟩
  | append_singleton calls c ih =>
    rw [run, List.foldlM_append] at h
    obtain ⟨t, ht, hstep⟩ := Option.bind_eq_some_iff.1 h
    have hstep : t.step c = some s' := by simpa using hstep
    rcases ih ht with ⟨hft, hall⟩ | ⟨hst, pre, c', post, t', rfl, ht', htear⟩
    · by_cases htear : Tears t c
      · exact .inr ⟨hft.torn hstep htear, calls, c, [], t, rfl, ht, htear⟩
      · refine .inl ⟨hft.step hstep htear, fun pre c' post t' heq ht' => ?_⟩
        rcases List.eq_nil_or_concat post with rfl | ⟨post, x, rfl⟩
        · obtain ⟨rfl, hx⟩ := List.append_inj' heq rfl
          obtain rfl : c = c' := by simpa using hx
          obtain rfl := Option.some.inj (ht.symm.trans ht')
          exact htear
        · have heq : calls ++ [c] = (pre ++ c' :: post) ++ [x] := by simpa using heq
          exact hall pre c' post t' (List.append_inj' heq rfl).1 ht'
    · exact .inr ⟨hst.step hstep, pre, c', post ++ [c], t', by simp, ht', htear⟩

end Reading

/-- The threads' messages are the daemon's, whole and in order, if and only if no pass of the loop
stopped in the middle of one. -/
theorem framing_iff (msgs : List Frame) (calls : List Call) (s : Reading)
    (h : (Reading.start msgs).run calls = some s) :
    s.Framed msgs ↔ ∀ pre c post t, calls = pre ++ c :: post →
      (Reading.start msgs).run pre = some t → ¬t.Tears c := by
  have h0 : (Reading.start msgs).Framed msgs := ⟨msgs, rfl, rfl⟩
  rcases Reading.run_framed h0 h with ⟨hf, hall⟩ | ⟨hs, pre, c, post, t, hc, ht, htear⟩
  · exact ⟨fun _ => hall, fun _ => hf⟩
  · exact ⟨fun hf => absurd hs hf.not_short, fun hall => absurd htear (hall pre c post t hc ht)⟩

/-- A LOCK for `a` by the first thread of process 100. -/
def lockFrame : Frame where
  bytes := [1, 0, 0, 0, 0, 0, 0, 0, 100, 0, 0, 0, 0, 0, 0, 0, 1, 0, 0, 0, 0, 0, 0, 0, 0, 0, 0, 0, 97] ++
    List.replicate 99 0
  size := by simp

/-- Its GRANT, from node 1. -/
def grantFrame : Frame where
  bytes := [3, 0, 0, 0, 1, 0, 0, 0, 100, 0, 0, 0, 0, 0, 0, 0, 1, 0, 0, 0, 1, 0, 0, 0, 0, 0, 0, 0, 97] ++
    List.replicate 99 0
  size := by simp

/-- Half of a message can be read at once. -/
def halfPass : Pass := ⟨⟨0, 0⟩, .ready false, .upTo 64, ⟨0, 1000000⟩⟩

/-- Nothing comes. -/
def quietPass : Pass := ⟨⟨0, 1000000⟩, .timeout, .upTo 0, ⟨0, 6000000⟩⟩

/-- A wait of at most 5 ms. -/
def fiveMs (passes : List Pass) : Call := ⟨lockFrame, lockFrame, 5, passes⟩

theorem framing_iff_whole : ∃ s, (Reading.start [grantFrame]).run
      [fiveMs [quietPass], fiveMs [halfPass, halfPass]] = some s ∧ s.taken = [grantFrame.bytes] ∧
    ∀ pre c post t, [fiveMs [quietPass], fiveMs [halfPass, halfPass]] = pre ++ c :: post →
      (Reading.start [grantFrame]).run pre = some t → ¬t.Tears c := by
  have hrun : (Reading.start [grantFrame]).run [fiveMs [quietPass], fiveMs [halfPass, halfPass]] =
      some ⟨⟨[], ⟨[], []⟩⟩, [grantFrame.bytes]⟩ := by decide +kernel
  exact ⟨_, hrun, rfl, (framing_iff _ _ _ hrun).1 ⟨[], rfl, rfl⟩⟩

/-- The second half of a GRANT comes too late: its first half is lost. -/
theorem framing_lost : ¬∀ msgs calls s, (Reading.start msgs).run calls = some s →
    s.Framed msgs := by
  intro h
  have hrun : (Reading.start [grantFrame]).run [fiveMs [halfPass, quietPass]] =
      some ⟨⟨[], ⟨grantFrame.bytes.drop 64, []⟩⟩, []⟩ := by decide +kernel
  exact (h _ _ _ hrun).not_short (by unfold Reading.Short; decide)

end Cpglock
