import Mathlib.Data.Nat.Bitwise
import Mathlib.Data.List.Basic

/-!
# Byte slices and `encoding/binary`

Go's `[]byte` is a list of `UInt8`.  `binary.BigEndian.PutUint64` and `binary.BigEndian.Uint64` carry the
read-index request context and the read index itself (`replicator.Load`, `replicator.readReadStates`);
the little-endian `leBytes` is the layout of a protobuf `fixed64`.  The big-endian pair is written as the Go
library writes it and shown to be the reverse of `leBytes`, so that the round trip `uint64_putUint64` comes
from the little-endian one.
-/

namespace Nexus

/-- Go's `[]byte`. -/
abbrev Bytes := List UInt8

/-- Go's conversion `byte(v)`: the low eight bits. -/
def byte (v : Nat) : UInt8 := UInt8.ofNat v

/-- `b := make([]byte, 8); binary.BigEndian.PutUint64(b, v)`. -/
def putUint64 (v : Nat) : Bytes :=
  [byte (v >>> 56), byte (v >>> 48), byte (v >>> 40), byte (v >>> 32),
    byte (v >>> 24), byte (v >>> 16), byte (v >>> 8), byte v]

/-- `binary.BigEndian.Uint64(b)`: reads `b[0..7]`; a shorter slice panics (`none`). -/
def uint64 : Bytes → Option Nat
  | b0 :: b1 :: b2 :: b3 :: b4 :: b5 :: b6 :: b7 :: _ =>
    some (b7.toNat ||| b6.toNat <<< 8 ||| b5.toNat <<< 16 ||| b4.toNat <<< 24 |||
      b3.toNat <<< 32 ||| b2.toNat <<< 40 ||| b1.toNat <<< 48 ||| b0.toNat <<< 56)
  | _ => none

/-- The `n` low bytes of `v`, least significant first. -/
def leBytes : Nat → Nat → Bytes
  | 0, _ => []
  | n + 1, v => byte v :: leBytes n (v / 256)

/-- The value of a little-endian byte string. -/
def leValue : Bytes → Nat
  | [] => 0
  | b :: l => b.toNat + 256 * leValue l

/-! ### The little-endian round trips -/

@[simp] theorem toNat_byte (v : Nat) : (byte v).toNat = v % 256 := rfl

theorem toNat_lt_256 (b : UInt8) : b.toNat < 256 := b.toBitVec.isLt

@[simp] theorem length_leBytes (n v : Nat) : (leBytes n v).length = n := by
  induction n generalizing v with
  | zero => rfl
  | succ n ih => simp [leBytes, ih]

theorem leValue_leBytes (n v : Nat) : leValue (leBytes n v) = v % 256 ^ n := by
  induction n generalizing v with
  | zero => simp [leBytes, leValue, Nat.mod_one]
  | succ n ih =>
    rw [leBytes, leValue, ih, toNat_byte, Nat.pow_succ, Nat.mul_comm _ 256, Nat.mod_mul]

/-! ### The Go forms -/

/-- The two OR-ed words have no bit in common, so `|` is `+`. -/
theorem or_shiftLeft_eq_add {a n : Nat} (b : Nat) (ha : a < 2 ^ n) : a ||| b <<< n = a + b * 2 ^ n := by
  rw [Nat.lor_comm, Nat.add_comm]
  apply Nat.eq_of_testBit_eq
  intro i
  rw [Nat.testBit_or, Nat.testBit_shiftLeft]
  by_cases hi : n ≤ i
  · have hdiv : (b * 2 ^ n + a) >>> n = b := by
      rw [Nat.shiftRight_eq_div_pow, Nat.add_comm, Nat.add_mul_div_right _ _ (Nat.two_pow_pos n),
        Nat.div_eq_of_lt ha, Nat.zero_add]
    have h := Nat.testBit_shiftRight (i := n) (j := i - n) (b * 2 ^ n + a)
    rw [hdiv, Nat.add_sub_cancel' hi] at h
    rw [← h, Nat.testBit_lt_two_pow (lt_of_lt_of_le ha (Nat.pow_le_pow_right (by omega) hi))]
    simp [hi]
  · have hmod : (b * 2 ^ n + a) % 2 ^ n = a := by
      rw [Nat.add_comm, Nat.add_mul_mod_self_right, Nat.mod_eq_of_lt ha]
    have h := Nat.testBit_mod_two_pow (b * 2 ^ n + a) n i
    rw [hmod] at h
    simp [h, hi, show i < n by omega]

theorem or_bytes_eq (b0 b1 b2 b3 b4 b5 b6 b7 : UInt8) :
    (b0.toNat ||| b1.toNat <<< 8 ||| b2.toNat <<< 16 ||| b3.toNat <<< 24 |||
      b4.toNat <<< 32 ||| b5.toNat <<< 40 ||| b6.toNat <<< 48 ||| b7.toNat <<< 56) =
      leValue [b0, b1, b2, b3, b4, b5, b6, b7] := by
  have := toNat_lt_256 b0; have := toNat_lt_256 b1; have := toNat_lt_256 b2; have := toNat_lt_256 b3
  have := toNat_lt_256 b4; have := toNat_lt_256 b5; have := toNat_lt_256 b6; have := toNat_lt_256 b7
  simp (disch := omega) only [or_shiftLeft_eq_add, leValue]
  omega

theorem byte_shiftRight (v k : Nat) : byte (v >>> k) = byte (v / 2 ^ k) := by
  rw [Nat.shiftRight_eq_div_pow]

theorem putUint64_eq (v : Nat) : putUint64 v = (leBytes 8 v).reverse := by
  simp [putUint64, leBytes, byte_shiftRight, Nat.div_div_eq_div_mul]

theorem uint64_reverse_append {l : Bytes} (h : l.length = 8) (rest : Bytes) :
    uint64 (l.reverse ++ rest) = some (leValue l) := by
  match l, h with
  | [b0, b1, b2, b3, b4, b5, b6, b7], _ => rw [← or_bytes_eq]; rfl

/-- `Uint64` undoes `PutUint64` on every `uint64` value. -/
theorem uint64_putUint64 (v : Nat) : uint64 (putUint64 v) = some (v % 2 ^ 64) := by
  rw [putUint64_eq, ← List.append_nil (leBytes 8 v).reverse, uint64_reverse_append (length_leBytes 8 v),
    leValue_leBytes]
  rfl

@[simp] theorem length_putUint64 (v : Nat) : (putUint64 v).length = 8 := rfl


end Nexus
