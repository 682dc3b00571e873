import Mathlib
import Cpglock.Daemon.Types
import Cpglock.Lib.ByteOrder

/-!
# Messages on the wire

`PackedMsg` is the packed 128-byte `struct cpg_lock_msg` as C sees it, its resource an array of 96
bytes. `send_lock_msg` swaps a copy of the message to big-endian, `process_request` swaps what it is
delivered back in place, and handlers send such a message on. Hosts of any byte order understand each
other, over any number of hops (`wire_round_trip`), so the daemons' model may pass decoded messages
around (`CpgLockMsg.transmit`).
-/

namespace Cpglock

/-- `struct cpg_lock_msg` -/
@[ext]
structure PackedMsg where
  request : Int32
  ownerNodeid : UInt32
  ownerPid : UInt32
  flags : UInt32
  ownerTid : UInt32
  lockid : UInt64
  resource : List.Vector UInt8 96
  pad : List.Vector UInt8 4
deriving DecidableEq

/-- `swab32` -/
def swab32 (o : ByteOrder) (x : UInt32) : UInt32 := .ofNat (o.beSwap 4 x.toNat)

/-- `swab64` -/
def swab64 (o : ByteOrder) (x : UInt64) : UInt64 := .ofNat (o.beSwap 8 x.toNat)

/-- `swab_cpg_lock_msg` on a host of byte order `o` -/
def swabCpgLockMsg (o : ByteOrder) (m : PackedMsg) : PackedMsg :=
  { m with
    request := (swab32 o m.request.toUInt32).toInt32
    ownerNodeid := swab32 o m.ownerNodeid
    ownerPid := swab32 o m.ownerPid
    flags := swab32 o m.flags
    ownerTid := swab32 o m.ownerTid
    lockid := swab64 o m.lockid }

namespace PackedMsg

/-- The 128 bytes of the structure in the memory of a host. -/
def bytes (o : ByteOrder) (m : PackedMsg) : List UInt8 :=
  o.store 4 m.request.toUInt32.toNat ++ (o.store 4 m.ownerNodeid.toNat ++
    (o.store 4 m.ownerPid.toNat ++ (o.store 4 m.flags.toNat ++ (o.store 4 m.ownerTid.toNat ++
      (o.store 8 m.lockid.toNat ++ (m.resource.toList ++ m.pad.toList))))))

/-- The structure that 128 bytes are on a host. -/
def ofBytes (o : ByteOrder) (b : List UInt8) (h : b.length = 128) : PackedMsg where
  request := (UInt32.ofNat (o.load (b.take 4))).toInt32
  ownerNodeid := .ofNat (o.load ((b.drop 4).take 4))
  ownerPid := .ofNat (o.load ((b.drop 8).take 4))
  flags := .ofNat (o.load ((b.drop 12).take 4))
  ownerTid := .ofNat (o.load ((b.drop 16).take 4))
  lockid := .ofNat (o.load ((b.drop 20).take 8))
  resource := ⟨(b.drop 28).take 96, by simp [h]⟩
  pad := ⟨b.drop 124, by simp [h]⟩

/-- `send_lock_msg`: the bytes that are multicast, and the caller's message after it. Its copy is
swapped. -/
def sendLockMsg (o : ByteOrder) (m : PackedMsg) : List UInt8 × PackedMsg :=
  let outMsg := m
  let outMsg := swabCpgLockMsg o outMsg
  (outMsg.bytes o, m)

/-- `cpg_deliver_func` and what `process_request` begins with: bytes of another number than 128 are
dropped, the others swapped in place for the handlers. -/
def receive (o : ByteOrder) (b : List UInt8) : Option PackedMsg :=
  if h : b.length = 128 then some (swabCpgLockMsg o (ofBytes o b h)) else none

end PackedMsg

/-- The handlers' functions that send a message on that was delivered. -/
inductive Resend
  | nak
  | unlock

/-- `MSG_NAK`, `MSG_UNLOCK` -/
def Resend.code : Resend → Int32
  | nak => 2
  | unlock => 4

/-- `m->request = ...;` -/
def Resend.mark (r : Resend) (m : PackedMsg) : PackedMsg := { m with request := r.code }

/-- `send_nak` and `send_unlock` -/
def Resend.send (r : Resend) (o : ByteOrder) (m : PackedMsg) : List UInt8 × PackedMsg :=
  (r.mark m).sendLockMsg o

/-- The bytes `b` go from host to host, each of which sends on what it was delivered; the last, of byte
order `o`, hands it to its handlers. -/
def relay (o : ByteOrder) : List (ByteOrder × Resend) → List UInt8 → Option PackedMsg
  | [], b => PackedMsg.receive o b
  | (o', r) :: hops, b => (PackedMsg.receive o' b).bind fun m => relay o hops (r.send o' m).1

/-! ## One field -/

theorem store_swab32 (o : ByteOrder) (x : UInt32) :
    o.store 4 (swab32 o x).toNat = ByteOrder.big.store 4 x.toNat := by
  have hlt : o.beSwap 4 x.toNat < 2 ^ 32 := o.beSwap_lt (n := 4) x.toNat_lt
  rw [swab32, UInt32.toNat_ofNat', Nat.mod_eq_of_lt hlt, o.store_beSwap]

theorem store_swab64 (o : ByteOrder) (x : UInt64) :
    o.store 8 (swab64 o x).toNat = ByteOrder.big.store 8 x.toNat := by
  have hlt : o.beSwap 8 x.toNat < 2 ^ 64 := o.beSwap_lt (n := 8) x.toNat_lt
  rw [swab64, UInt64.toNat_ofNat', Nat.mod_eq_of_lt hlt, o.store_beSwap]

theorem swab32_load (o : ByteOrder) (x : UInt32) :
    swab32 o (.ofNat (o.load (ByteOrder.big.store 4 x.toNat))) = x := by
  have hlt : o.load (ByteOrder.big.store 4 x.toNat) < 2 ^ 32 := by
    simpa using o.load_lt (ByteOrder.big.store 4 x.toNat)
  rw [swab32, UInt32.toNat_ofNat', Nat.mod_eq_of_lt hlt, o.beSwap_load x.toNat_lt, UInt32.ofNat_toNat]

theorem swab64_load (o : ByteOrder) (x : UInt64) :
    swab64 o (.ofNat (o.load (ByteOrder.big.store 8 x.toNat))) = x := by
  have hlt : o.load (ByteOrder.big.store 8 x.toNat) < 2 ^ 64 := by
    simpa using o.load_lt (ByteOrder.big.store 8 x.toNat)
  rw [swab64, UInt64.toNat_ofNat', Nat.mod_eq_of_lt hlt, o.beSwap_load x.toNat_lt, UInt64.ofNat_toNat]

/-! ## One message -/

namespace PackedMsg

theorem length_bytes (o : ByteOrder) (m : PackedMsg) : (m.bytes o).length = 128 := by
  simp [bytes]

/-- What every host puts on the wire: the structure in big-endian order. -/
theorem sendLockMsg_fst (o : ByteOrder) (m : PackedMsg) :
    (m.sendLockMsg o).1 = m.bytes .big := by
  have hreq : (swab32 o m.request.toUInt32).toInt32.toUInt32 = swab32 o m.request.toUInt32 := by simp
  simp only [sendLockMsg, bytes, swabCpgLockMsg, hreq, store_swab32, store_swab64]

/-- Every host reads it back. -/
theorem receive_bytes (o : ByteOrder) (m : PackedMsg) : receive o (m.bytes .big) = some m := by
  rw [receive, dif_pos (m.length_bytes .big)]
  congr 1
  ext1
  all_goals simp [swabCpgLockMsg, ofBytes, bytes, List.drop_append, ByteOrder.drop_store,
    swab32_load, swab64_load]

theorem receive_sendLockMsg (o o' : ByteOrder) (m : PackedMsg) :
    receive o' (m.sendLockMsg o).1 = some m := by
  rw [sendLockMsg_fst, receive_bytes]

end PackedMsg

/-! ## Any number of hops -/

/-- What arrives after some hops is the message with the marks of the handlers that sent it on. -/
theorem relay_bytes (o : ByteOrder) (hops : List (ByteOrder × Resend)) (m : PackedMsg) :
    relay o hops (m.bytes .big) = some (hops.foldl (fun m hop => hop.2.mark m) m) := by
  induction hops generalizing m with
  | nil => exact m.receive_bytes o
  | cons hop hops ih =>
    obtain ⟨o', r⟩ := hop
    rw [relay, PackedMsg.receive_bytes, Option.bind_some, Resend.send, PackedMsg.sendLockMsg_fst, ih,
      List.foldl_cons]

/-- Hosts of any byte order: 128 bytes are multicast, the sender's message stays as it is, and what a
host is delivered after any number of hops is the message that was sent first, but for the request
that the last handler on the way set. -/
theorem wire_round_trip (o o' : ByteOrder) (m : PackedMsg) (hops : List (ByteOrder × Resend)) :
    (m.sendLockMsg o).1.length = 128 ∧ (m.sendLockMsg o).2 = m ∧
      relay o' hops (m.sendLockMsg o).1 = some { m with
        request := (hops.getLast?.map fun hop => hop.2.code).getD m.request } := by
  refine ⟨?_, rfl, ?_⟩
  · rw [PackedMsg.sendLockMsg_fst, PackedMsg.length_bytes]
  · rw [PackedMsg.sendLockMsg_fst, relay_bytes]
    congr 1
    induction hops using List.reverseRecOn with
    | nil => rfl
    | append_singleton hops hop ih =>
      rw [List.foldl_append, List.foldl_cons, List.foldl_nil, ih, List.getLast?_append]
      rfl

/-! ## Decoded messages -/

/-- The values of `cpg_lock_req_t` -/
def CpgLockReq.code : CpgLockReq → Int
  | .lock => 1
  | .nak => 2
  | .grant => 3
  | .unlock => 4
  | .purge => 5
  | .confchg => 6
  | .join => 7
  | .dump => 998
  | .halt => 999
  | .other c => c

/-- What a value of `request` stands for. -/
def CpgLockReq.ofCode (c : Int) : CpgLockReq :=
  match c with
  | 1 => .lock
  | 2 => .nak
  | 3 => .grant
  | 4 => .unlock
  | 5 => .purge
  | 6 => .confchg
  | 7 => .join
  | 998 => .dump
  | 999 => .halt
  | c => .other c

/-- The message as the handlers read it: the resource is a C string. -/
def PackedMsg.decoded (m : PackedMsg) : Option CpgLockMsg :=
  let name := m.resource.toList.takeWhile (· ≠ 0)
  if h : name.length < 96 then
    some {
      request := .ofCode m.request.toInt
      ownerNodeid := m.ownerNodeid
      ownerPid := m.ownerPid
      flags := m.flags
      ownerTid := m.ownerTid
      lockid := m.lockid
      resource := ⟨name, h, fun h0 => by simpa using List.mem_takeWhile_imp h0⟩ }
  else none

/-- A message in memory, its resource filled up with NULs. -/
def CpgLockMsg.packed (m : CpgLockMsg) : PackedMsg where
  request := .ofInt m.request.code
  ownerNodeid := m.ownerNodeid
  ownerPid := m.ownerPid
  flags := m.flags
  ownerTid := m.ownerTid
  lockid := m.lockid
  resource := ⟨m.resource.bytes ++ List.replicate (96 - m.resource.bytes.length) 0, by
    have := m.resource.fits
    rw [List.length_append, List.length_replicate]
    omega⟩
  pad := ⟨List.replicate 4 0, rfl⟩

/-- The request is a value of the enumeration. -/
def CpgLockReq.Named : CpgLockReq → Prop
  | .other _ => False
  | _ => True

theorem CpgLockReq.ofCode_code {r : CpgLockReq} (h : r.Named) :
    ofCode (Int32.ofInt r.code).toInt = r := by
  cases r with
  | other c => exact h.elim
  | _ => rfl

/-- A C string ends at the first NUL. -/
theorem Resource.takeWhile_bytes (r : Resource) (k : Nat) :
    (r.bytes ++ List.replicate k 0).takeWhile (· ≠ 0) = r.bytes := by
  have hbytes : ∀ b ∈ r.bytes, decide (b ≠ 0) = true := by
    intro b hb
    have : b ≠ 0 := fun h0 => r.noNul (h0 ▸ hb)
    simpa using this
  rw [List.takeWhile_append_of_pos hbytes, List.takeWhile_replicate]
  simp

theorem CpgLockMsg.decoded_packed {m : CpgLockMsg} (h : m.request.Named) :
    m.packed.decoded = some m := by
  have hname : (m.packed.resource.toList.takeWhile (· ≠ 0)) = m.resource.bytes :=
    m.resource.takeWhile_bytes _
  unfold PackedMsg.decoded
  simp only [hname]
  rw [dif_pos m.resource.fits]
  simp only [packed, CpgLockReq.ofCode_code h]

/-- What a daemon multicasts is what every daemon's handlers read. -/
theorem CpgLockMsg.transmit {m : CpgLockMsg} (h : m.request.Named) (o o' : ByteOrder) :
    (PackedMsg.receive o' (m.packed.sendLockMsg o).1).bind PackedMsg.decoded = some m := by
  rw [PackedMsg.receive_sendLockMsg, Option.bind_some, decoded_packed h]

/-- `MSG_NAK`, `MSG_UNLOCK` -/
def Resend.request : Resend → CpgLockReq
  | nak => .nak
  | unlock => .unlock

/-- Sending a delivered message on marks what the handlers read. -/
theorem Resend.decoded_mark (r : Resend) (m : PackedMsg) :
    (r.mark m).decoded = m.decoded.map fun m => { m with request := r.request } := by
  unfold PackedMsg.decoded
  dsimp only [Resend.mark]
  split
  · cases r with
    | nak => rfl
    | unlock => rfl
  · rfl

end Cpglock
