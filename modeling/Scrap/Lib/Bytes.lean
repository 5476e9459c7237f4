/-
# Fixed-width little-endian integers over byte lists

The record codecs of the development are a few fixed-width little-endian integers, one after the
other: `leBytes`, `leNat`, and the law that reading back `k` bytes written for `n` gives `n` modulo
`256 ^ k`.

The codecs take their checksum as a parameter, since none of them rests on more than that it is a
function of the bytes; `castagnoli` is the one that is used.
-/
import Mathlib.Algebra.Ring.Nat
import Mathlib.Data.List.Basic

namespace Scrap.Bytes

/-- The `k` low bytes of `n`, least significant first. -/
def leBytes : Nat → Nat → List UInt8
  | 0, _ => []
  | k + 1, n => UInt8.ofNat (n % 256) :: leBytes k (n / 256)

def leNat : List UInt8 → Nat
  | [] => 0
  | b :: bs => b.toNat + 256 * leNat bs

def slice (bs : List UInt8) (i j : Nat) : List UInt8 := (bs.drop i).take (j - i)

@[simp] theorem length_leBytes : ∀ k n : Nat, (leBytes k n).length = k
  | 0, _ => rfl
  | k + 1, n => by simp [leBytes, length_leBytes k]

theorem leNat_leBytes : ∀ k n : Nat, leNat (leBytes k n) = n % 256 ^ k
  | 0, n => by simp [leBytes, leNat, Nat.mod_one]
  | k + 1, n => by
    have hb : (UInt8.ofNat (n % 256)).toNat = n % 256 := by simp
    rw [leBytes, leNat, leNat_leBytes k, hb, Nat.pow_succ', Nat.mod_mul]

variable {bs : List UInt8} {i j k n : Nat}

theorem leNat_leBytes_of_lt (h : n < 256 ^ k) :
    leNat (leBytes k n) = n := by
  rw [leNat_leBytes, Nat.mod_eq_of_lt h]

theorem leNat_lt : ∀ bs : List UInt8, leNat bs < 256 ^ bs.length
  | [] => by simp [leNat]
  | b :: bs => by
    have hb := b.toNat_lt
    have hbs := leNat_lt bs
    rw [leNat, List.length_cons, Nat.pow_succ']
    omega

theorem leBytes_leNat : ∀ bs : List UInt8, leBytes bs.length (leNat bs) = bs
  | [] => rfl
  | b :: bs => by
    have hb := b.toNat_lt
    have hmod : (b.toNat + 256 * leNat bs) % 256 = b.toNat := by omega
    have hdiv : (b.toNat + 256 * leNat bs) / 256 = leNat bs := by omega
    rw [leNat, List.length_cons, leBytes, hmod, hdiv, leBytes_leNat bs, UInt8.ofNat_toNat]

@[simp] theorem leNat_uint16 (v : UInt16) : leNat (leBytes 2 v.toNat) = v.toNat :=
  leNat_leBytes_of_lt v.toNat_lt

@[simp] theorem leNat_uint32 (v : UInt32) : leNat (leBytes 4 v.toNat) = v.toNat :=
  leNat_leBytes_of_lt v.toNat_lt

@[simp] theorem leNat_uint64 (v : UInt64) : leNat (leBytes 8 v.toNat) = v.toNat :=
  leNat_leBytes_of_lt v.toNat_lt

/-! ## Slices -/

theorem slice_append (hij : i ≤ j) (hjk : j ≤ k) :
    slice bs i j ++ slice bs j k = slice bs i k := by
  have hdrop : bs.drop j = (bs.drop i).drop (j - i) := by
    rw [List.drop_drop, Nat.add_sub_cancel' hij]
  rw [slice, slice, slice, hdrop, show k - i = (j - i) + (k - j) by omega, List.take_add]

theorem slice_self (h : bs.length = n) : slice bs 0 n = bs := by
  rw [slice, List.drop_zero, Nat.sub_zero, List.take_of_length_le (Nat.le_of_eq h)]

theorem length_slice (h : j ≤ bs.length) :
    (slice bs i j).length = j - i := by
  rw [slice, List.length_take, List.length_drop]
  omega

theorem slice_eq_leBytes (hj : j ≤ bs.length) (hk : j - i = k) (hn : leNat (slice bs i j) = n) :
    slice bs i j = leBytes k n := by
  have h := leBytes_leNat (slice bs i j)
  rwa [length_slice hj, hk, hn, eq_comm] at h

theorem slice_one (h : i < bs.length) : slice bs i (i + 1) = [bs.getD i 0] := by
  rw [slice, Nat.add_sub_cancel_left, List.drop_eq_getElem_cons h, List.take_succ_cons, List.take_zero,
    List.getD_eq_getElem?_getD, List.getElem?_eq_getElem h, Option.getD_some]

theorem exists_four (h : bs.length = 4) : ∃ a b c d, bs = [a, b, c, d] := by
  obtain ⟨a, bs, rfl⟩ := List.exists_cons_of_length_eq_add_one h
  obtain ⟨b, bs, rfl⟩ := List.exists_cons_of_length_eq_add_one (Nat.succ.inj h)
  obtain ⟨c, bs, rfl⟩ := List.exists_cons_of_length_eq_add_one (Nat.succ.inj (Nat.succ.inj h))
  obtain ⟨d, rfl⟩ := List.length_eq_one_iff.mp (Nat.succ.inj (Nat.succ.inj (Nat.succ.inj h)))
  exact ⟨a, b, c, d, rfl⟩

/-! ## CRC-32C -/

def crcShift (c : UInt32) : UInt32 :=
  if c &&& 1 = 1 then (c >>> 1) ^^^ 0x82f63b78 else c >>> 1

def crcByte (c : UInt32) (b : UInt8) : UInt32 := Nat.repeat crcShift 8 (c ^^^ b.toUInt32)

/-- `crc32.Checksum` with the Castagnoli polynomial. -/
def castagnoli (bs : List UInt8) : UInt32 := ~~~ bs.foldl crcByte 0xffffffff

-- the check value of the polynomial: the digits from 1 to 9
example : castagnoli [0x31, 0x32, 0x33, 0x34, 0x35, 0x36, 0x37, 0x38, 0x39] = 0xe3069283 := by
  decide +kernel

end Scrap.Bytes
