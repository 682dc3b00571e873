import Mathlib

/-!
# Words in memory, in either byte order

`ByteOrder.store o n x`: the `n` bytes of the word `x` on a host of byte order `o`; `load` reads them
back. A word that is swapped to big-endian before it is stored has the same bytes on every host
(`store_beSwap`), and is loaded and swapped back on any other (`beSwap_load`).
-/

/-- `__BYTE_ORDER` -/
inductive ByteOrder
  | little
  | big
deriving DecidableEq

namespace ByteOrder

/-- The lowest `n` bytes of a number, the least significant first. -/
def digits : Nat → Nat → List UInt8
  | 0, _ => []
  | n + 1, x => .ofNat x :: digits n (x / 256)

/-- The number with these bytes, the least significant first. -/
def ofDigits : List UInt8 → Nat
  | [] => 0
  | b :: bs => b.toNat + 256 * ofDigits bs

@[simp] theorem length_digits (n x : Nat) : (digits n x).length = n := by
  induction n generalizing x with
  | zero => rfl
  | succ n ih => rw [digits, List.length_cons, ih]

theorem ofDigits_lt (bs : List UInt8) : ofDigits bs < 256 ^ bs.length := by
  induction bs with
  | nil => exact Nat.one_pos
  | cons b bs ih =>
    have hb := b.toNat_lt
    rw [ofDigits, List.length_cons, Nat.pow_succ]
    omega

theorem ofDigits_digits {n x : Nat} (h : x < 256 ^ n) : ofDigits (digits n x) = x := by
  induction n generalizing x with
  | zero =>
    rw [Nat.pow_zero] at h
    rw [digits, ofDigits]
    omega
  | succ n ih =>
    have hdiv : x / 256 < 256 ^ n := by
      rw [Nat.pow_succ] at h
      omega
    rw [digits, ofDigits, ih hdiv, UInt8.toNat_ofNat']
    omega

theorem digits_ofDigits (bs : List UInt8) : digits bs.length (ofDigits bs) = bs := by
  induction bs with
  | nil => rfl
  | cons b bs ih =>
    have hb := b.toNat_lt
    rw [List.length_cons, digits, ofDigits, show (b.toNat + 256 * ofDigits bs) / 256 = ofDigits bs by
      omega, ih]
    congr 1
    apply UInt8.toNat.inj
    rw [UInt8.toNat_ofNat']
    omega

/-- The bytes of an `n`-byte word in memory. -/
def store (o : ByteOrder) (n x : Nat) : List UInt8 :=
  match o with
  | little => digits n x
  | big => (digits n x).reverse

/-- The word that these bytes of memory hold. -/
def load (o : ByteOrder) (bs : List UInt8) : Nat :=
  match o with
  | little => ofDigits bs
  | big => ofDigits bs.reverse

/-- `bswap_16`, `bswap_32`, `bswap_64`: the word with its bytes in the opposite order. -/
def bswap (n x : Nat) : Nat := ofDigits (digits n x).reverse

/-- `be_swap16`, `be_swap32`, `be_swap64`: big-endian hosts swap nothing. -/
def beSwap (o : ByteOrder) (n x : Nat) : Nat :=
  match o with
  | little => bswap n x
  | big => x

@[simp] theorem length_store (o : ByteOrder) (n x : Nat) : (o.store n x).length = n := by
  cases o
  · exact length_digits n x
  · exact (List.length_reverse ..).trans (length_digits n x)

/-- Behind a word in memory. -/
theorem drop_store (o : ByteOrder) {n k : Nat} (h : n ≤ k) (x : Nat) : (o.store n x).drop k = [] :=
  List.drop_eq_nil_of_le (by rwa [length_store])

theorem digits_bswap (n x : Nat) : digits n (bswap n x) = (digits n x).reverse := by
  have h := digits_ofDigits (digits n x).reverse
  rwa [List.length_reverse, length_digits] at h

theorem bswap_lt (n x : Nat) : bswap n x < 256 ^ n := by
  have h := ofDigits_lt (digits n x).reverse
  rwa [List.length_reverse, length_digits] at h

theorem bswap_bswap {n x : Nat} (h : x < 256 ^ n) : bswap n (bswap n x) = x := by
  rw [bswap, digits_bswap, List.reverse_reverse, ofDigits_digits h]

theorem beSwap_lt (o : ByteOrder) {n x : Nat} (h : x < 256 ^ n) : o.beSwap n x < 256 ^ n := by
  cases o
  · exact bswap_lt n x
  · exact h

theorem load_lt (o : ByteOrder) (bs : List UInt8) : o.load bs < 256 ^ bs.length := by
  cases o
  · exact ofDigits_lt bs
  · have h := ofDigits_lt bs.reverse
    rw [List.length_reverse] at h
    exact h

theorem load_store (o : ByteOrder) {n x : Nat} (h : x < 256 ^ n) : o.load (o.store n x) = x := by
  cases o
  · exact ofDigits_digits h
  · rw [load, store, List.reverse_reverse, ofDigits_digits h]

/-- Every host stores the swapped word alike: in big-endian order. -/
theorem store_beSwap (o : ByteOrder) (n x : Nat) : o.store n (o.beSwap n x) = big.store n x := by
  cases o
  · exact digits_bswap n x
  · rfl

/-- Every host reads the word back. -/
theorem beSwap_load (o : ByteOrder) {n x : Nat} (h : x < 256 ^ n) :
    o.beSwap n (o.load (big.store n x)) = x := by
  cases o
  · exact bswap_bswap h
  · exact load_store big h

end ByteOrder
