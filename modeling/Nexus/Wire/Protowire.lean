import Nexus.Wire.Binary

/-!
# The protobuf wire format

The parts of `protowire` that the replicator's two messages use: base-128 varints, tags, `fixed64` and
length-delimited values, and skipping the value of an unknown field.  Each `append*` is undone by its
`consume*` on every input that fits the Go type (`uint64` values and lengths), whatever bytes follow:
`consumeVarint_appendVarint`, `consumeTag_appendTag`, `consumeFixed64_appendFixed64` and
`consumeBytes_appendBytes`.

An unknown field is skipped whole, a group up to its matching end-group tag (`skipFieldValue`).  gogo's code
for `raftpb` reads varints, tags and unknown fields in its own way (`gogoVarint`, `gogoTag`, `skipRaftGo`): it
keeps the low 64 bits of a ten-byte varint whatever its last byte, truncates a field number to `int32`, and
closes a group at any end-group tag.
-/

namespace Nexus

/-! ### Varints -/

/-- The varint of `v` with at most `n` bytes after the first: seven bits per byte, low group first, the
high bit set on every byte but the last. -/
def varintBytes : Nat → Nat → Bytes
  | 0, v => [byte v]
  | n + 1, v => if v < 128 then [byte v] else byte (v % 128 + 128) :: varintBytes n (v / 128)

/-- `protowire.AppendVarint` of a `uint64`, which takes at most ten bytes. -/
def appendVarint (v : Nat) : Bytes := varintBytes 9 v

/-- The base-128 loop of both decoders, with `n` more bytes allowed after the first: seven bits per byte, low
group first, up to the first byte below `0x80`.  A missing byte is an error, and so is a last allowed byte not
below `last`: `protowire.ConsumeVarint` lets a tenth byte carry only bit 63 (`last = 2`, else `errCodeOverflow`),
while the loop gogo generates takes any tenth byte below `0x80` (`last = 128`) and its `uint64` drops the bits
past 63. -/
def varintLoop (last : Nat) : Nat → Bytes → Option (Nat × Bytes)
  | _, [] => none
  | 0, b :: rest => if b.toNat < last then some (b.toNat, rest) else none
  | n + 1, b :: rest =>
    if b.toNat < 128 then some (b.toNat, rest)
    else (varintLoop last n rest).map fun p => (b.toNat - 128 + 128 * p.1, p.2)

/-- `protowire.ConsumeVarint`: the value and the bytes after it. -/
def consumeVarint (b : Bytes) : Option (Nat × Bytes) := varintLoop 2 9 b

theorem varintLoop_varintBytes {last : Nat} (hlast : 2 ≤ last) (n : Nat) {v : Nat} (hv : v < 2 * 128 ^ n)
    (rest : Bytes) : varintLoop last n (varintBytes n v ++ rest) = some (v, rest) := by
  induction n generalizing v with
  | zero =>
    have : v % 256 = v := Nat.mod_eq_of_lt (by omega)
    simp [varintBytes, varintLoop, this, show v < last by omega]
  | succ n ih =>
    by_cases hlt : v < 128
    · simp [varintBytes, varintLoop, hlt, Nat.mod_eq_of_lt (show v < 256 by omega)]
    · have hrec := ih (v := v / 128) (by rw [Nat.pow_succ] at hv; omega)
      have hb : (v % 128 + 128) % 256 = v % 128 + 128 := Nat.mod_eq_of_lt (by omega)
      simp only [varintBytes, hlt, if_false, List.cons_append, varintLoop, toNat_byte, hb, hrec]
      simp only [show ¬ v % 128 + 128 < 128 by omega, if_false, Option.map_some', Option.some.injEq,
        Prod.mk.injEq, and_true]
      omega

theorem consumeVarint_appendVarint {v : Nat} (hv : v < 2 ^ 64) (rest : Bytes) :
    consumeVarint (appendVarint v ++ rest) = some (v, rest) :=
  varintLoop_varintBytes (le_refl 2) 9 (by omega) rest

theorem appendVarint_ne_nil (v : Nat) : appendVarint v ≠ [] := by
  unfold appendVarint varintBytes
  split <;> simp

/-! ### Tags -/

/-- `protowire.EncodeTag`: `uint64(num)<<3 | uint64(typ&7)`. -/
def encodeTag (num typ : Nat) : Nat := num <<< 3 ||| typ % 8

/-- `protowire.AppendTag`. -/
def appendTag (num typ : Nat) : Bytes := appendVarint (encodeTag num typ)

/-- `protowire.ConsumeTag` with `DecodeTag`: the field number `v >> 3` and wire type `v & 7`; a number
below `MinValidNumber` or above `MaxInt32` is an error. -/
def consumeTag (b : Bytes) : Option ((Nat × Nat) × Bytes) :=
  (consumeVarint b).bind fun p =>
    if p.1 / 8 = 0 ∨ 2 ^ 31 ≤ p.1 / 8 then none else some ((p.1 / 8, p.1 % 8), p.2)

theorem encodeTag_eq (num typ : Nat) : encodeTag num typ = num * 8 + typ % 8 := by
  rw [encodeTag, Nat.lor_comm, or_shiftLeft_eq_add _ (show typ % 8 < 2 ^ 3 from Nat.mod_lt _ (by decide))]
  omega

theorem consumeTag_appendTag {num typ : Nat} (h0 : 0 < num) (h31 : num < 2 ^ 31) (ht : typ < 8)
    (rest : Bytes) : consumeTag (appendTag num typ ++ rest) = some ((num, typ), rest) := by
  have htag : encodeTag num typ = num * 8 + typ := by rw [encodeTag_eq, Nat.mod_eq_of_lt ht]
  rw [consumeTag, appendTag, consumeVarint_appendVarint (by omega), htag]
  simp only [Option.some_bind]
  rw [if_neg (by omega)]
  congr 3 <;> omega

/-! ### `fixed64` and length-delimited values -/

/-- `protowire.AppendFixed64`: `binary.LittleEndian.PutUint64`. -/
def appendFixed64 (v : Nat) : Bytes :=
  [byte v, byte (v >>> 8), byte (v >>> 16), byte (v >>> 24),
    byte (v >>> 32), byte (v >>> 40), byte (v >>> 48), byte (v >>> 56)]

/-- `protowire.ConsumeFixed64`: `binary.LittleEndian.Uint64` of the next eight bytes. -/
def consumeFixed64 : Bytes → Option (Nat × Bytes)
  | b0 :: b1 :: b2 :: b3 :: b4 :: b5 :: b6 :: b7 :: rest =>
    some (b0.toNat ||| b1.toNat <<< 8 ||| b2.toNat <<< 16 ||| b3.toNat <<< 24 |||
      b4.toNat <<< 32 ||| b5.toNat <<< 40 ||| b6.toNat <<< 48 ||| b7.toNat <<< 56, rest)
  | _ => none

/-- `protowire.AppendBytes`: the length as a varint, then the bytes. -/
def appendBytes (d : Bytes) : Bytes := appendVarint d.length ++ d

/-- `protowire.ConsumeBytes`: a length past the end of the input is `errCodeTruncated`. -/
def consumeBytes (b : Bytes) : Option (Bytes × Bytes) :=
  (consumeVarint b).bind fun p => if p.2.length < p.1 then none else some (p.2.take p.1, p.2.drop p.1)

theorem appendFixed64_eq (v : Nat) : appendFixed64 v = leBytes 8 v := by
  simp [appendFixed64, leBytes, byte_shiftRight, Nat.div_div_eq_div_mul]

theorem consumeFixed64_appendFixed64 {v : Nat} (hv : v < 2 ^ 64) (rest : Bytes) :
    consumeFixed64 (appendFixed64 v ++ rest) = some (v, rest) := by
  have h := leValue_leBytes 8 v
  rw [Nat.mod_eq_of_lt (by omega)] at h
  rw [appendFixed64_eq]
  generalize hl : leBytes 8 v = l at h
  have hlen : l.length = 8 := by rw [← hl, length_leBytes]
  match l, hlen with
  | [b0, b1, b2, b3, b4, b5, b6, b7], _ => rw [← h, ← or_bytes_eq]; rfl

theorem consumeBytes_appendBytes {d : Bytes} (hd : d.length < 2 ^ 64) (rest : Bytes) :
    consumeBytes (appendBytes d ++ rest) = some (d, rest) := by
  rw [consumeBytes, appendBytes, List.append_assoc, consumeVarint_appendVarint hd]
  simp

/-! ### Unknown fields -/

/-- `protowire.MaxValidNumber`: the largest field number `proto.Unmarshal` accepts in a message. -/
def maxValidNumber : Nat := 2 ^ 29 - 1

/-- `protowire.DefaultRecursionLimit`. -/
def defaultRecursionLimit : Nat := 10000

/-- `protowire.ConsumeFieldValue` for a value that is not a group: the bytes after it.  An end-group tag, or
a wire type 6 or 7, is an error. -/
def skipScalar (typ : Nat) (b : Bytes) : Option Bytes :=
  match typ with
  | 0 => (consumeVarint b).map (·.2)
  | 1 => (consumeFixed64 b).map (·.2)
  | 2 => (consumeBytes b).map (·.2)
  | 5 => if b.length < 4 then none else some (b.drop 4)
  | _ => none

/-- `protowire`'s `consumeGroup`, with `n` more tags allowed.  `outer` holds the numbers of the groups still
open, innermost first: each ends at an end-group tag of its own number (`errCodeEndGroup` otherwise), and a
group opens only while at most `DefaultRecursionLimit` are open (`errCodeRecursionDepth`).  The bytes after the
outermost group. -/
def consumeGroupGo : Nat → List Nat → Bytes → Option Bytes
  | _, [], b => some b
  | 0, _ :: _, _ => none
  | n + 1, num :: outer, b => do
    let ((num', typ), b) ← consumeTag b
    if typ = 4 then
      if num' = num then consumeGroupGo n outer b else none
    else if typ = 3 then
      if defaultRecursionLimit < outer.length + 1 then none else consumeGroupGo n (num' :: num :: outer) b
    else do
      let b ← skipScalar typ b
      consumeGroupGo n (num :: outer) b

/-- `protowire.ConsumeFieldValue(num, typ, b)` for a field the decoder does not know: the bytes after its
value.  Every tag takes a byte, so `b.length` tags are enough for any group in `b`. -/
def skipFieldValue (num typ : Nat) (b : Bytes) : Option Bytes :=
  if typ = 3 then consumeGroupGo b.length [num] b else skipScalar typ b

/-! ### gogo's generated decoding

The `Unmarshal` methods gogo generates for `raftpb` inline their own loops instead of calling `protowire`, and
read some inputs differently. -/

/-- The `uint64` varint loop of gogo's `Unmarshal` and `skipRaft`: `x |= uint64(b&0x7F) << shift` for
`shift = 0, 7, …, 63`; `ErrIntOverflowRaft` once `shift` reaches 64 and `io.ErrUnexpectedEOF` when the input
ends. -/
def gogoVarint (b : Bytes) : Option (Nat × Bytes) := (varintLoop 128 9 b).map fun p => (p.1 % 2 ^ 64, p.2)

/-- A field's tag in a gogo `Unmarshal`: `fieldNum := int32(wire >> 3)` and `wireType := int(wire & 0x7)`; an
end-group wire type, and a field number that is not positive as an `int32`, are errors. -/
def gogoTag (b : Bytes) : Option ((Nat × Nat) × Bytes) :=
  (gogoVarint b).bind fun p =>
    if p.1 % 8 = 4 ∨ p.1 / 8 % 2 ^ 32 = 0 ∨ 2 ^ 31 ≤ p.1 / 8 % 2 ^ 32 then none
    else some ((p.1 / 8 % 2 ^ 32, p.1 % 8), p.2)

/-- `skipRaft`, from a field's tag on, `depth` groups deep and with `n` more tags allowed: the bytes after the
field.  A group is skipped up to the end-group tag that closes it, whatever its number.  An offset past the end
of the input is an error as soon as it is taken; the generated code adds it up first and compares with the
length after, which comes to the same on every input shorter than `2 ^ 63` bytes, as every Go slice is. -/
def skipRaftGo : Nat → Nat → Bytes → Option Bytes
  | 0, _, _ => none
  | n + 1, depth, b => do
    let (wire, b) ← gogoVarint b
    let (depth, b) ← match wire % 8 with
      | 0 => (gogoVarint b).map fun p => (depth, p.2)
      | 1 => if b.length < 8 then none else some (depth, b.drop 8)
      | 2 => (gogoVarint b).bind fun p => if p.2.length < p.1 then none else some (depth, p.2.drop p.1)
      | 3 => some (depth + 1, b)
      | 4 => if depth = 0 then none else some (depth - 1, b)
      | 5 => if b.length < 4 then none else some (depth, b.drop 4)
      | _ => none
    if depth = 0 then some b else skipRaftGo n depth b

theorem gogoVarint_appendVarint {v : Nat} (hv : v < 2 ^ 64) (rest : Bytes) :
    gogoVarint (appendVarint v ++ rest) = some (v, rest) := by
  rw [gogoVarint, appendVarint, varintLoop_varintBytes (by decide) 9 (by omega) rest, Option.map_some',
    Nat.mod_eq_of_lt hv]

theorem gogoTag_appendTag {num typ : Nat} (h0 : 0 < num) (h31 : num < 2 ^ 31) (ht : typ < 8) (ht4 : typ ≠ 4)
    (rest : Bytes) : gogoTag (appendTag num typ ++ rest) = some ((num, typ), rest) := by
  have htag : encodeTag num typ = num * 8 + typ := by rw [encodeTag_eq, Nat.mod_eq_of_lt ht]
  rw [gogoTag, appendTag, gogoVarint_appendVarint (by omega), htag]
  simp only [Option.some_bind]
  rw [if_neg (by omega)]
  congr 3 <;> omega

end Nexus
