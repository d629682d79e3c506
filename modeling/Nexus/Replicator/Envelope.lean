import Nexus.Replicator.Step

/-!
# The two encodings a request goes through

A `Save` hands the engine its envelope `proto.Marshal(NexusInternalRequest{ID, Req})` and `readCommits` decodes
it again; a `Load` hands it its id as an 8-byte big-endian request context and `readReadStates` decodes that
and answers with the read index, 8 bytes big-endian, which the `Load` decodes in turn.

`save_envelope_round_trip`: the envelope of the `k + 1`-th id a replicator draws is empty exactly when the node's
low 16 bits are 0, the counter has wrapped to 0 and the payload is empty, and it always decodes back; the
cluster run `empty_save_never_applied` shows `readCommits` skipping such an envelope.  `read_index_round_trip`:
a read state that echoes a `Load`'s context fills that `Load`'s slot, and the `Load` goes on to wait for exactly
the index reported.
-/

namespace Nexus

/-! ### `Save`'s envelope -/

/-- For the `k + 1`-th id that node `node`'s generator draws and every payload: the envelope is empty exactly
when the member id `uint16(node)` is 0, the 48-bit counter has wrapped to 0 and the payload is empty; and
`proto.Unmarshal` always recovers the id and the payload. -/
theorem save_envelope_round_trip (store : Store) (node now k : Nat) (payload : Bytes)
    (hlen : payload.length < 2 ^ 64) :
    (marshalRequest ⟨(newReplicator store node now).idGen.nth k, payload⟩ = [] ↔
      node % 2 ^ 16 = 0 ∧ ((newReplicator store node now).idGen.suffix + k + 1) % 2 ^ 48 = 0 ∧ payload = []) ∧
    unmarshalRequest (marshalRequest ⟨(newReplicator store node now).idGen.nth k, payload⟩) =
      some ⟨(newReplicator store node now).idGen.nth k, payload⟩ := by
  have hid : (newReplicator store node now).idGen.nth k =
      node % 2 ^ 16 * 2 ^ 48 + ((newReplicator store node now).idGen.suffix + k + 1) % 2 ^ 48 :=
    Generator.nth_eq (newGenerator_seededBy _ now) k
  have hlt : (newReplicator store node now).idGen.nth k < 2 ^ 64 := by omega
  refine ⟨?_, unmarshalRequest_marshalRequest hlt hlen⟩
  have hzero : (newReplicator store node now).idGen.nth k = 0 ↔
      node % 2 ^ 16 = 0 ∧ ((newReplicator store node now).idGen.suffix + k + 1) % 2 ^ 48 = 0 := by
    rw [hid]; omega
  rw [marshalRequest_eq_nil_iff]
  exact (and_congr_left fun _ => hzero).trans and_assoc

/-! ### The read index -/

/-- `readReadStates` hands a `Load` with id `r` waiting on its empty slot the read index reported for its context
`PutUint64(r)`. -/
theorem Replicator.step_readState_waiting {s : Replicator} {c r i : Nat} {data : Bytes} (hr : r < 2 ^ 64)
    (hcrash : s.crash = none) (hw : s.waiter r = some c) (hc : s.calls c = some ⟨.load data, .waiting r, none, none⟩) :
    s.step (.readState ⟨i, putUint64 r⟩) = some { s with
      readStates := s.readStates ++ [⟨i, putUint64 r⟩]
      waiter := Function.update s.waiter r none
      calls := Function.update s.calls c
        (some ⟨.load data, .waiting r, some ⟨putUint64 i, none⟩, some (.readState ⟨i, putUint64 r⟩)⟩) } := by
  have hr' : uint64 (putUint64 r) = some r := by rw [uint64_putUint64, Nat.mod_eq_of_lt hr]
  simp [Replicator.step, Replicator.act, Replicator.readState, Replicator.trigger, hcrash, hr', hw, hc]

/-- A `Load` with id `r` waiting on its empty slot: when the engine echoes its context `PutUint64(r)` with read
index `i`, `readReadStates` fills exactly that slot with `PutUint64(i)`, and the `Load` decodes it and waits on
`applyWait` for `i` itself. -/
theorem read_index_round_trip {s : Replicator} {c r i : Nat} {data : Bytes} (hr : r < 2 ^ 64) (hi : i < 2 ^ 64)
    (hcrash : s.crash = none) (hw : s.waiter r = some c) (hc : s.calls c = some ⟨.load data, .waiting r, none, none⟩) :
    ∃ s₁ s₂, s.step (.readState ⟨i, putUint64 r⟩) = some s₁ ∧ s₁.step (.receive c) = some s₂ ∧
      s₂.calls c = some ⟨.load data, .applyWaiting r i (decide (i ≤ s.applyWait)), some ⟨putUint64 i, none⟩,
        some (.readState ⟨i, putUint64 r⟩)⟩ := by
  let rd : ReadState := ⟨i, putUint64 r⟩
  let s₁ : Replicator := { s with
    readStates := s.readStates ++ [rd]
    waiter := Function.update s.waiter r none
    calls := Function.update s.calls c (some ⟨.load data, .waiting r, some ⟨putUint64 i, none⟩, some (.readState rd)⟩) }
  have hi' : uint64 (putUint64 i) = some i := by rw [uint64_putUint64, Nat.mod_eq_of_lt hi]
  have h₁ : s.step (.readState rd) = some s₁ := Replicator.step_readState_waiting hr hcrash hw hc
  have h₂ : s₁.step (.receive c) = some (s₁.setPhase c (.applyWaiting r i (decide (i ≤ s.applyWait)))) := by
    simp [s₁, Replicator.step, Replicator.act, Replicator.receive, hcrash, hi']
  exact ⟨_, _, h₁, h₂, by simp [s₁, Replicator.setPhase]⟩

theorem read_index_round_trip_saveLoad : ∃ s, Reachable s ∧ ∃ s₁ s₂,
    s.step (.readState ⟨5, putUint64 (2 ^ 48 + 2)⟩) = some s₁ ∧ s₁.step (.receive 1) = some s₂ ∧
    s₂.calls 1 = some ⟨.load [7], .applyWaiting (2 ^ 48 + 2) 5 false, some ⟨putUint64 5, none⟩,
      some (.readState ⟨5, putUint64 (2 ^ 48 + 2)⟩)⟩ := by
  obtain ⟨s, hs, hcrash, hw, hc, hwait⟩ : ∃ s, Reachable s ∧ s.crash = none ∧ s.waiter (2 ^ 48 + 2) = some 1 ∧
      s.calls 1 = some ⟨.load [7], .waiting (2 ^ 48 + 2), none, none⟩ ∧ s.applyWait = 1 :=
    Reachable.exists_of_run echoStore 1 0 (saveLoadTrace.take 11) ⟨_, rfl, by decide, by decide, by decide, by decide⟩
  obtain ⟨s₁, s₂, h₁, h₂, h₃⟩ := @read_index_round_trip s 1 (2 ^ 48 + 2) 5 [7] (by decide) (by decide) hcrash hw hc
  rw [hwait] at h₃
  exact ⟨s, hs, s₁, s₂, h₁, h₂, h₃⟩

end Nexus
