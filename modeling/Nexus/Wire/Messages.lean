import Nexus.Wire.Protowire

/-!
# The envelope and the configuration change

`NexusInternalRequest` is the envelope `{ID, Req}` that `replicator.Save` proposes and `replicator.readCommits`
decodes; `raftpb.ConfChange` is what `proposeConfigChange` proposes and `readCommits` decodes from an
`EntryConfChange`.  Both decoders are field loops over the whole input, bounded by its length (each field takes
at least one byte), that skip unknown fields.  The envelope is read by `google.golang.org/protobuf`'s
`proto.Unmarshal`, the `ConfChange` by the `Unmarshal` gogo generated for `raftpb`, and the two read malformed
input differently (`Nexus.Wire.Protowire`).

`unmarshalRequest_marshalRequest` and `unmarshalConfChange_marshalConfChange` are the round trips; the second
gives back `Type` as an `int32`, which is all of it for the two types the replicator builds.
`marshalRequest_eq_nil_iff`: the envelope encodes to no bytes exactly when both of its fields hold their proto3
defaults, `ID = 0` and an empty `Req`.
-/

namespace Nexus

/-- `models.NexusInternalRequest`. -/
structure NexusInternalRequest where
  id : Nat
  req : Bytes
  deriving DecidableEq, Repr

/-- Modelled from the spec: `proto.Marshal` of `NexusInternalRequest` (the generated `models` package is not
in the sources), "a deterministic binary encoding of `{id: fixed64, payload: bytes}`", in proto3 form: fields
in number order, a field holding its default (`0`, empty) not written. -/
def marshalRequest (r : NexusInternalRequest) : Bytes :=
  (if r.id = 0 then [] else appendTag 1 1 ++ appendFixed64 r.id) ++
    (if r.req = [] then [] else appendTag 2 2 ++ appendBytes r.req)

/-- One field of `proto.Unmarshal` into a `NexusInternalRequest`: `ID` is field 1 (`fixed64`), `Req` field 2
(`bytes`); any other field, or a known number with another wire type, is skipped as unknown
(`protowire.ConsumeFieldValue`). -/
def requestField (go : Bytes → NexusInternalRequest → Option NexusInternalRequest) (num typ : Nat)
    (rest : Bytes) (m : NexusInternalRequest) : Option NexusInternalRequest :=
  if num = 1 ∧ typ = 1 then do
    let (v, rest) ← consumeFixed64 rest
    go rest { m with id := v }
  else if num = 2 ∧ typ = 2 then do
    let (d, rest) ← consumeBytes rest
    go rest { m with req := d }
  else do
    let rest ← skipFieldValue num typ rest
    go rest m

/-- The field loop of `proto.Unmarshal` into a `NexusInternalRequest`, with `n` fields still allowed: a field
number past `MaxValidNumber` is an error. -/
def unmarshalRequestGo : Nat → Bytes → NexusInternalRequest → Option NexusInternalRequest
  | _, [], m => some m
  | 0, _ :: _, _ => none
  | n + 1, b :: bs, m => do
    let ((num, typ), rest) ← consumeTag (b :: bs)
    if maxValidNumber < num then none else requestField (unmarshalRequestGo n) num typ rest m

/-- Modelled from the spec: `proto.Unmarshal` into a fresh `NexusInternalRequest`. -/
def unmarshalRequest (b : Bytes) : Option NexusInternalRequest :=
  unmarshalRequestGo b.length b ⟨0, []⟩

/-- `raftpb.ConfChange`: `type` is the `int32` `ConfChangeType` by its 32 bits, and `context = none` is a nil
`Context`. -/
structure ConfChange where
  id : Nat
  type : Nat
  nodeID : Nat
  context : Option Bytes
  deriving DecidableEq, Repr

/-- `raftpb.ConfChangeAddNode`. -/
def confChangeAddNode : Nat := 0

/-- `raftpb.ConfChangeRemoveNode`. -/
def confChangeRemoveNode : Nat := 1

/-- Go's `uint64(t)` of an `int32` given by its bits: a negative one is sign-extended. -/
def int32ToUint64 (t : Nat) : Nat := if t % 2 ^ 32 < 2 ^ 31 then t % 2 ^ 32 else t % 2 ^ 32 + (2 ^ 64 - 2 ^ 32)

/-- `ConfChange.Marshal`: `ID`, `uint64(Type)` and `NodeID` are always written, `Context` when it is not nil. -/
def marshalConfChange (cc : ConfChange) : Bytes :=
  appendTag 1 0 ++ appendVarint cc.id ++ appendTag 2 0 ++ appendVarint (int32ToUint64 cc.type) ++
    appendTag 3 0 ++ appendVarint cc.nodeID ++
    (match cc.context with
      | none => []
      | some c => appendTag 4 2 ++ appendBytes c)

/-- One field of `ConfChange.Unmarshal` (the `switch fieldNum` of gogo's generated code): `ID` and `NodeID` are
`uint64` varints, `Type` an `int32` one, which keeps its low 32 bits, and `Context` is `bytes`; a known field
with another wire type is an error, and an unknown one is skipped by `skipRaft` from its tag, `field` on.  A
length is compared with the bytes left: the generated code's `byteLen < 0` and `postIndex > l` come to the same
on every input shorter than `2 ^ 63` bytes. -/
def confChangeField (go : Bytes → ConfChange → Option ConfChange) (num typ : Nat) (field rest : Bytes)
    (m : ConfChange) : Option ConfChange :=
  match num with
  | 1 => if typ ≠ 0 then none else do
      let (v, rest) ← gogoVarint rest
      go rest { m with id := v }
  | 2 => if typ ≠ 0 then none else do
      let (v, rest) ← gogoVarint rest
      go rest { m with type := v % 2 ^ 32 }
  | 3 => if typ ≠ 0 then none else do
      let (v, rest) ← gogoVarint rest
      go rest { m with nodeID := v }
  | 4 => if typ ≠ 2 then none else do
      let (len, rest) ← gogoVarint rest
      if rest.length < len then none else go (rest.drop len) { m with context := some (rest.take len) }
  | _ => do
      let rest ← skipRaftGo field.length 0 field
      go rest m

/-- The field loop of `ConfChange.Unmarshal`, with `n` fields still allowed. -/
def unmarshalConfChangeGo : Nat → Bytes → ConfChange → Option ConfChange
  | _, [], m => some m
  | 0, _ :: _, _ => none
  | n + 1, b :: bs, m => do
    let ((num, typ), rest) ← gogoTag (b :: bs)
    confChangeField (unmarshalConfChangeGo n) num typ (b :: bs) rest m

/-- `ConfChange.Unmarshal` into a fresh `ConfChange`. -/
def unmarshalConfChange (b : Bytes) : Option ConfChange :=
  unmarshalConfChangeGo b.length b ⟨0, 0, 0, none⟩

/-! ### Round trips -/

theorem appendTag_ne_nil (num typ : Nat) : appendTag num typ ≠ [] := appendVarint_ne_nil _

private theorem consumeBytes_appendBytes' {d : Bytes} (hd : d.length < 2 ^ 64) :
    consumeBytes (appendBytes d) = some (d, []) := by
  simpa using consumeBytes_appendBytes hd []

theorem unmarshalRequestGo_nil (n : Nat) (m : NexusInternalRequest) : unmarshalRequestGo n [] m = some m := by
  cases n <;> rfl

theorem unmarshalRequestGo_appendTag (n num typ : Nat) (h0 : 0 < num) (hmax : num ≤ maxValidNumber)
    (ht : typ < 8) (rest : Bytes) (m : NexusInternalRequest) :
    unmarshalRequestGo (n + 1) (appendTag num typ ++ rest) m = requestField (unmarshalRequestGo n) num typ rest m := by
  have htag := consumeTag_appendTag h0 (by unfold maxValidNumber at hmax; omega) ht rest
  cases h : appendTag num typ with
  | nil => exact absurd h (appendTag_ne_nil num typ)
  | cons b bs => rw [h, List.cons_append] at htag; simp [unmarshalRequestGo, htag, Nat.not_lt.2 hmax]

theorem marshalRequest_eq_nil_iff (r : NexusInternalRequest) : marshalRequest r = [] ↔ r.id = 0 ∧ r.req = [] := by
  unfold marshalRequest
  by_cases h1 : r.id = 0 <;> by_cases h2 : r.req = [] <;> simp [h1, h2, appendTag_ne_nil]

/-- `ID`, `Type` and `NodeID` are always written, so a marshalled `ConfChange` is never empty. -/
theorem marshalConfChange_ne_nil (cc : ConfChange) : marshalConfChange cc ≠ [] := by
  simp [marshalConfChange, appendTag_ne_nil]

/-- The payload is written whole into the envelope. -/
theorem length_req_le_marshalRequest (r : NexusInternalRequest) : r.req.length ≤ (marshalRequest r).length := by
  unfold marshalRequest appendBytes
  split <;> split <;> simp_all <;> omega

private theorem length_marshalRequest {r : NexusInternalRequest} (h : marshalRequest r ≠ []) :
    2 ≤ (marshalRequest r).length := by
  have t2 : (appendTag 2 2).length = 1 := rfl
  have hb : ∀ d : Bytes, d ≠ [] → 2 ≤ (appendTag 2 2 ++ appendBytes d).length := fun d hd => by
    have := List.length_pos.2 hd
    simp only [List.length_append, t2, appendBytes]; omega
  unfold marshalRequest at *
  by_cases h1 : r.id = 0 <;> by_cases h2 : r.req = [] <;> simp_all [appendFixed64]
  omega

private theorem unmarshalRequestGo_marshalRequest (n : Nat) {r : NexusInternalRequest} (hid : r.id < 2 ^ 64)
    (hreq : r.req.length < 2 ^ 64) : unmarshalRequestGo (n + 2) (marshalRequest r) ⟨0, []⟩ = some r := by
  obtain ⟨id, req⟩ := r
  have hb : ∀ k m, unmarshalRequestGo (k + 1) (appendTag 2 2 ++ appendBytes req) m = some { m with req := req } :=
    fun k m => by
      rw [unmarshalRequestGo_appendTag k 2 2 (by decide) (by decide) (by decide)]
      simp [requestField, consumeBytes_appendBytes' hreq, unmarshalRequestGo_nil]
  have hid' : consumeFixed64 (appendFixed64 id) = some (id, []) := by
    simpa using consumeFixed64_appendFixed64 hid []
  unfold marshalRequest
  by_cases h1 : id = 0 <;> by_cases h2 : req = [] <;>
    simp only [h1, h2, if_true, if_false, List.nil_append, List.append_nil]
  · exact unmarshalRequestGo_nil _ _
  · exact hb _ _
  · rw [unmarshalRequestGo_appendTag _ 1 1 (by decide) (by decide) (by decide)]
    simp [requestField, hid', unmarshalRequestGo_nil]
  · rw [List.append_assoc, unmarshalRequestGo_appendTag _ 1 1 (by decide) (by decide)
      (by decide)]
    simp [requestField, consumeFixed64_appendFixed64 hid, hb]

/-- `proto.Unmarshal` recovers every envelope `proto.Marshal` wrote, for every `uint64` id and payload. -/
theorem unmarshalRequest_marshalRequest {r : NexusInternalRequest} (hid : r.id < 2 ^ 64)
    (hreq : r.req.length < 2 ^ 64) : unmarshalRequest (marshalRequest r) = some r := by
  by_cases h : marshalRequest r = []
  · obtain ⟨h1, h2⟩ := (marshalRequest_eq_nil_iff r).1 h
    obtain ⟨id, req⟩ := r
    simp only at h1 h2
    subst h1 h2
    rfl
  · obtain ⟨k, hk⟩ := Nat.exists_eq_add_of_le (length_marshalRequest h)
    rw [unmarshalRequest, hk, Nat.add_comm, unmarshalRequestGo_marshalRequest k hid hreq]

theorem unmarshalConfChangeGo_nil (n : Nat) (m : ConfChange) : unmarshalConfChangeGo n [] m = some m := by
  cases n <;> rfl

theorem unmarshalConfChangeGo_appendTag (n num typ : Nat) (h0 : 0 < num) (h31 : num < 2 ^ 31)
    (ht : typ < 8) (ht4 : typ ≠ 4) (rest : Bytes) (m : ConfChange) :
    unmarshalConfChangeGo (n + 1) (appendTag num typ ++ rest) m =
      confChangeField (unmarshalConfChangeGo n) num typ (appendTag num typ ++ rest) rest m := by
  have htag := gogoTag_appendTag h0 h31 ht ht4 rest
  cases h : appendTag num typ with
  | nil => exact absurd h (appendTag_ne_nil num typ)
  | cons b bs => rw [h, List.cons_append] at htag; simp [unmarshalConfChangeGo, htag]

theorem int32ToUint64_lt (t : Nat) : int32ToUint64 t < 2 ^ 64 := by
  unfold int32ToUint64; split <;> omega

theorem int32ToUint64_mod (t : Nat) : int32ToUint64 t % 2 ^ 32 = t % 2 ^ 32 := by
  unfold int32ToUint64; split <;> omega

/-- `ConfChange.Unmarshal` recovers every `ConfChange` that `Marshal` wrote, its `Type` as an `int32`. -/
theorem unmarshalConfChange_marshalConfChange {cc : ConfChange} (hid : cc.id < 2 ^ 64)
    (hnode : cc.nodeID < 2 ^ 64) (hctx : ∀ c, cc.context = some c → c.length < 2 ^ 64) :
    unmarshalConfChange (marshalConfChange cc) = some { cc with type := cc.type % 2 ^ 32 } := by
  obtain ⟨id, type, nodeID, context⟩ := cc
  have hlen : 4 ≤ (marshalConfChange ⟨id, type, nodeID, context⟩).length := by
    have := List.length_pos.2 (appendVarint_ne_nil id)
    simp only [marshalConfChange, List.length_append, show (appendTag 1 0).length = 1 from rfl,
      show (appendTag 2 0).length = 1 from rfl, show (appendTag 3 0).length = 1 from rfl]
    omega
  obtain ⟨k, hk⟩ := Nat.exists_eq_add_of_le hlen
  generalize htail : (match context with | none => [] | some c => appendTag 4 2 ++ appendBytes c) = tail
  have hrest : ∀ t, unmarshalConfChangeGo (k + 1) tail ⟨id, t, nodeID, none⟩ = some ⟨id, t, nodeID, context⟩ := by
    intro t
    subst htail
    cases context with
    | none => exact unmarshalConfChangeGo_nil _ _
    | some c =>
      rw [unmarshalConfChangeGo_appendTag k 4 2 (by decide) (by decide) (by decide) (by decide)]
      simp [confChangeField, appendBytes, gogoVarint_appendVarint (hctx c rfl), unmarshalConfChangeGo_nil]
  rw [unmarshalConfChange, hk, show 4 + k = k + 1 + 1 + 1 + 1 by omega]
  simp only [marshalConfChange, htail, List.append_assoc]
  rw [unmarshalConfChangeGo_appendTag _ 1 0 (by decide) (by decide) (by decide) (by decide)]
  simp [confChangeField, gogoVarint_appendVarint hid]
  rw [show k + 3 = k + 2 + 1 from rfl,
    unmarshalConfChangeGo_appendTag _ 2 0 (by decide) (by decide) (by decide) (by decide)]
  have hmod : int32ToUint64 type % 4294967296 = type % 4294967296 := int32ToUint64_mod type
  simp [confChangeField, gogoVarint_appendVarint (int32ToUint64_lt type), hmod]
  rw [show k + 2 = k + 1 + 1 from rfl,
    unmarshalConfChangeGo_appendTag _ 3 0 (by decide) (by decide) (by decide) (by decide)]
  simp [confChangeField, gogoVarint_appendVarint hnode, hrest]

end Nexus
