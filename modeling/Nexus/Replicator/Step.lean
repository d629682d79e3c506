import Nexus.Replicator.Basic

/-!
# One step of a replicator

Each goroutine of `replicator.go` is cut at its accesses to shared state (the generator, the counter, the
waiter, the apply cursor, the store, the engine); one action runs one such piece, with what the environment
answers in it.  A Go `select` with two ready cases may take either, so `receive` and `timeout` are both enabled
while a value waits in the slot.  `step` is `none` when the action cannot run: the goroutine is elsewhere,
or the process has died.

* client goroutines: `spawn` (`idGen.Next()` or `atomic.AddUint64`), `register`, `propose` (`Propose`,
  `ReadIndex` or `ProposeConfChange`, with the engine's error), `receive` and `timeout` (the two cases of the
  `select`), `loadStore` (`Load`'s `store.Load` once `applyWait` released it);
* `readCommits`: `applySentinel` (a nil and `LoadDBSnapshot`), `applyRestore` (`store.Restore`), `applyEntry`
  (an entry and its decoding), `applySave` (`store.Save`), `applyReply` (`waiter.Trigger`), `applyAdvance`
  (`applyWait.Trigger`), `closeCommits`;
* `readReadStates`: `readState`.
-/

namespace Nexus

/-- `pkg_raft.NewOptions(pkg_raft.NodeUrl(nodeUrl))`, as far as `AddMember` and `RemoveMember` read it:
`NodeId()` and `NodeUrl().String()`. -/
structure NodeOptions where
  nodeId : Nat
  nodeUrl : String
  deriving DecidableEq, Repr

/-- `AddMember` up to `proposeConfigChange`: the options, a TCP dial of the node's address, then the
`ConfChangeAddNode` with the address as context. -/
def addMemberChange (opts : Except Error NodeOptions) (dial : Option Error) : Except Error ConfChange :=
  match opts with
  | .error e => .error e
  | .ok o =>
    match dial with
    | some e => .error (.message ("unable to verify RAFT service running at " ++ o.nodeUrl ++ ", error: " ++
        e.text))
    | none => .ok { id := 0, type := confChangeAddNode, nodeID := o.nodeId, context := some o.nodeUrl.toUTF8.data.toList }

/-- `RemoveMember` up to `proposeConfigChange`. -/
def removeMemberChange (opts : Except Error NodeOptions) : Except Error ConfChange :=
  opts.map fun o => { id := 0, type := confChangeRemoveNode, nodeID := o.nodeId, context := none }

/-- What a goroutine hands to the engine once its slot is registered: the marshalled envelope, the 8-byte
big-endian read-request id, or the configuration change with its drawn id. -/
def Op.request (op : Op) (id : Nat) : Request :=
  match op with
  | .save data => .propose (marshalRequest ⟨id, data⟩)
  | .load _ => .readIndex (putUint64 id)
  | .confChange cc => .proposeConfChange { cc with id := id }

/-- The generator after a goroutine starting `op` drew its id: `Save` and `Load` draw from it. -/
def Op.nextGen : Op → Generator → Generator
  | .confChange _, g => g
  | _, g => g.next.2

/-- The conf-change count after a goroutine starting `op` drew its id. -/
def Op.nextCount : Op → Nat → Nat
  | .confChange _, n => n + 1
  | _, n => n

/-- `Load`'s `applyWait` channel is closed by `Trigger(deadline)` when it waits for at most `deadline`. -/
def Call.release (deadline : Nat) (call : Call) : Call :=
  match call.phase with
  | .applyWaiting id index false =>
    if index ≤ deadline then { call with phase := .applyWaiting id index true } else call
  | _ => call

@[simp] theorem Call.release_op (d : Nat) (call : Call) : (call.release d).op = call.op := by
  unfold Call.release; split <;> (try split) <;> rfl

@[simp] theorem Call.release_slot (d : Nat) (call : Call) : (call.release d).slot = call.slot := by
  unfold Call.release; split <;> (try split) <;> rfl

@[simp] theorem Call.release_source (d : Nat) (call : Call) : (call.release d).source = call.source := by
  unfold Call.release; split <;> (try split) <;> rfl

@[simp] theorem Call.release_phase_id (d : Nat) (call : Call) : (call.release d).phase.id = call.phase.id := by
  unfold Call.release; split <;> (try split) <;> simp_all [Phase.id]

theorem Call.release_phase (d : Nat) (call : Call) :
    (call.release d).phase = call.phase ∨
      ∃ id index, call.phase = .applyWaiting id index false ∧ (call.release d).phase = .applyWaiting id index true := by
  unfold Call.release; split <;> (try split) <;> simp_all

namespace Replicator

/-- Put the goroutine `c` in `p`. -/
def setPhase (s : Replicator) (c : Nat) (p : Phase) : Replicator :=
  { s with calls := Function.update s.calls c ((s.calls c).map fun call => { call with phase := p }) }

/-- The process dies. -/
def die (s : Replicator) (k : Crash) : Replicator := { s with crash := some k }

/-- `waiter.Trigger(id, v)`: the slot registered under `id`, if any, receives `v` and the id is forgotten.  A
send on a slot that already holds a value would block the sender for good: that step does not happen. -/
def trigger (s : Replicator) (id : Nat) (v : InternalNexusResponse) (src : Source) : Option Replicator :=
  match s.waiter id with
  | none => some s
  | some c =>
    match s.calls c with
    | none => some { s with waiter := Function.update s.waiter id none }
    | some call =>
      if call.slot.isSome then none
      else some { s with
        waiter := Function.update s.waiter id none
        calls := Function.update s.calls c (some { call with slot := some v, source := some src }) }

/-- `applyWait.Trigger(deadline)`: the cursor becomes `deadline`, and every `Load` waiting for an index up to
`deadline` is released. -/
def applyWaitTrigger (s : Replicator) (deadline : Nat) : Replicator :=
  { s with applyWait := deadline, calls := fun c => (s.calls c).map (Call.release deadline) }

/-- A client goroutine `c` starts `op` and draws its id: `idGen.Next()` for `Save` and `Load`,
`atomic.AddUint64(&confChangeCount, 1)` for a configuration change.  As with the generator's counter, the count
is kept unbounded and read modulo `2^64`, which is what the `uint64` holds. -/
def spawn (s : Replicator) (c : Nat) (op : Op) : Option Replicator :=
  if (s.calls c).isSome then none else
  match op with
  | .save _ | .load _ =>
    some { s with idGen := s.idGen.next.2,
                  calls := Function.update s.calls c (some ⟨op, .drawn s.idGen.next.1, none, none⟩) }
  | .confChange _ =>
    some { s with confChangeCount := s.confChangeCount + 1,
                  calls := Function.update s.calls c
                    (some ⟨op, .drawn ((s.confChangeCount + 1) % 2 ^ 64), none, none⟩) }

/-- `waiter.Register(id)`; an id that is still registered panics (`dup id`). -/
def register (s : Replicator) (c : Nat) : Option Replicator :=
  match s.calls c with
  | some ⟨op, .drawn id, slot, src⟩ =>
    if (s.waiter id).isSome then some (s.die (.dupId id))
    else some { s with waiter := Function.update s.waiter id (some c),
                       calls := Function.update s.calls c (some ⟨op, .registered id, slot, src⟩) }
  | _ => none

/-- The engine's answer `err` to the goroutine's request.  On an error the goroutine triggers its own slot
with it and returns it. -/
def propose (s : Replicator) (c : Nat) (err : Option Error) : Option Replicator :=
  match s.calls c with
  | some ⟨op, .registered id, slot, src⟩ =>
    match err with
    | none => some { s with calls := Function.update s.calls c (some ⟨op, .waiting id, slot, src⟩),
                            requests := s.requests ++ [(c, op.request id)] }
    | some e => (s.trigger id ⟨[], some e⟩ .own).map fun s' => s'.setPhase c (.returned id [] (some e) .proposeError)
  | _ => none

/-- The `case res := <-ch` branch.  `Save` returns the value; `proposeConfigChange` its error; `Load` returns
an error, or decodes the read index (a slice shorter than 8 bytes panics) and calls `applyWait.Wait`. -/
def receive (s : Replicator) (c : Nat) : Option Replicator :=
  match s.calls c with
  | some ⟨op, .waiting id, some v, _⟩ =>
    match op with
    | .save _ => some (s.setPhase c (.returned id v.res v.err .received))
    | .confChange _ => some (s.setPhase c (.returned id [] v.err .received))
    | .load _ =>
      match v.err with
      | some e => some (s.setPhase c (.returned id [] (some e) .received))
      | none =>
        match uint64 v.res with
        | none => some (s.die .indexOutOfRange)
        | some index => some (s.setPhase c (.applyWaiting id index (decide (index ≤ s.applyWait))))
  | _ => none

/-- The `case <-child_ctx.Done()` branches.  Waiting on its slot, the goroutine triggers its own id with
`child_ctx.Err()` and returns it; `Load` waiting for the apply index just returns it. -/
def timeout (s : Replicator) (c : Nat) (e : ContextError) : Option Replicator :=
  match s.calls c with
  | some ⟨_, .waiting id, _, _⟩ =>
    (s.trigger id ⟨[], some (.context e)⟩ .own).map fun s' =>
      s'.setPhase c (.returned id [] (some (.context e)) .timeout)
  | some ⟨_, .applyWaiting id _ _, _, _⟩ => some (s.setPhase c (.returned id [] (some (.context e)) .applyTimeout))
  | _ => none

/-- `Load` once `applyWait` released it: `store.Load(data)`, whose result it returns. -/
def loadStore (s : Replicator) (c : Nat) : Option Replicator :=
  match s.calls c with
  | some ⟨.load data, .applyWaiting id index true, _, _⟩ =>
    let r := s.store.load s.storeLog data
    some { s.setPhase c (.returned id r.1 r.2 .stored) with
      storeLog := s.storeLog ++ [.load data r.1 r.2 index] }
  | _ => none

/-- `readCommits` takes a nil and calls `snapshotter.LoadDBSnapshot()`: `snap.ErrNoSnapshot` is skipped,
another error panics, and a snapshot goes on to `store.Restore`. -/
def applySentinel (s : Replicator) (snap : DBSnapshot) : Option Replicator :=
  if s.applier ≠ .idle then none else
  match snap with
  | .errNoSnapshot => some { s with commits := s.commits ++ [.sentinel snap] }
  | .error e => some (s.die (.snapshot e))
  | .ok data => some { s with commits := s.commits ++ [.sentinel snap], applier := .restore data }

/-- `store.Restore(data)`, whose error panics. -/
def applyRestore (s : Replicator) : Option Replicator :=
  match s.applier with
  | .restore data =>
    let err := s.store.restore s.storeLog data
    let s : Replicator := { s with storeLog := s.storeLog ++ [.restore data err], applier := .idle }
    match err with
    | none => some s
    | some e => some (s.die (.restore e))
  | _ => none

/-- `readCommits` takes an entry.  A non-empty `EntryNormal` is decoded (an error is fatal) and goes on to
`store.Save`; a non-empty `EntryConfChange` is decoded and answered with its bytes under its id.  An empty
entry goes straight to advancing the apply cursor. -/
def applyEntry (s : Replicator) (e : Entry) : Option Replicator :=
  if s.applier ≠ .idle then none else
  if e.data = [] then some { s with commits := s.commits ++ [.entry e], applier := .advance e.index } else
  match e.type with
  | .entryNormal =>
    match unmarshalRequest e.data with
    | none => some (s.die .unmarshal)
    | some r => some { s with commits := s.commits ++ [.entry e], applier := .save e r }
  | .entryConfChange =>
    match unmarshalConfChange e.data with
    | none => some (s.die .unmarshal)
    | some cc => some { s with commits := s.commits ++ [.entry e], applier := .reply cc.id ⟨e.data, none⟩ e }

/-- `store.Save(RaftEntry{Index, Term}, replReq.Req)`, whose result is the answer for the envelope's id. -/
def applySave (s : Replicator) : Option Replicator :=
  match s.applier with
  | .save e r =>
    let out := s.store.save s.storeLog ⟨e.index, e.term⟩ r.req
    some { s with storeLog := s.storeLog ++ [.save ⟨e.index, e.term⟩ r.req out.1 out.2],
                  applier := .reply r.id ⟨out.1, out.2⟩ e }
  | _ => none

/-- `readCommits`'s `waiter.Trigger` for the entry it applied. -/
def applyReply (s : Replicator) : Option Replicator :=
  match s.applier with
  | .reply id v e => (s.trigger id v (.entry e)).map fun s' => { s' with applier := .advance e.index }
  | _ => none

/-- `readCommits`'s `applyWait.Trigger(entry.Index)`. -/
def applyAdvance (s : Replicator) : Option Replicator :=
  match s.applier with
  | .advance index => some { s.applyWaitTrigger index with applier := .idle }
  | _ => none

/-- `commitC` was closed: `readCommits` drains `errorC`, fatal on an error. -/
def closeCommits (s : Replicator) (err : Option Error) : Option Replicator :=
  if s.applier ≠ .idle then none else
  match err with
  | none => some { s with applier := .closed }
  | some e => some (s.die (.engine e))

/-- `readReadStates` takes a read state: the id is the big-endian decode of its context (a context shorter
than 8 bytes panics), and that slot receives the read index, big-endian. -/
def readState (s : Replicator) (rd : ReadState) : Option Replicator :=
  let s : Replicator := { s with readStates := s.readStates ++ [rd] }
  match uint64 rd.requestCtx with
  | none => some (s.die .indexOutOfRange)
  | some id => s.trigger id ⟨putUint64 rd.index, none⟩ (.readState rd)

end Replicator

/-- One action of a replicator or of its environment. -/
inductive Action
  | save (c : Nat) (data : Bytes)
  | load (c : Nat) (data : Bytes)
  | addMember (c : Nat) (opts : Except Error NodeOptions) (dial : Option Error)
  | removeMember (c : Nat) (opts : Except Error NodeOptions)
  | register (c : Nat)
  | propose (c : Nat) (err : Option Error)
  | receive (c : Nat)
  | timeout (c : Nat) (e : ContextError)
  | loadStore (c : Nat)
  | applySentinel (snap : DBSnapshot)
  | applyRestore
  | applyEntry (e : Entry)
  | applySave
  | applyReply
  | applyAdvance
  | closeCommits (err : Option Error)
  | readState (rd : ReadState)

/-- The actions that start a client goroutine: `Save`, `Load`, `AddMember` and `RemoveMember`. -/
def Action.Starts : Action → Prop
  | .save .. | .load .. | .addMember .. | .removeMember .. => True
  | _ => False

/-- What an action hands `readCommits` from the commit stream. -/
def Action.taken : Action → List Commit
  | .applySentinel snap => [.sentinel snap]
  | .applyEntry e => [.entry e]
  | _ => []

/-- What an action hands `readReadStates`. -/
def Action.readStatesTaken : Action → List ReadState
  | .readState rd => [rd]
  | _ => []

namespace Replicator

/-- The piece of code an action runs; a failed preflight of `AddMember` or `RemoveMember` returns its error and
changes nothing. -/
def act (s : Replicator) (a : Action) : Option Replicator :=
  match a with
  | .save c data => s.spawn c (.save data)
  | .load c data => s.spawn c (.load data)
  | .addMember c opts dial =>
    match addMemberChange opts dial with
    | .ok cc => s.spawn c (.confChange cc)
    | .error _ => some s
  | .removeMember c opts =>
    match removeMemberChange opts with
    | .ok cc => s.spawn c (.confChange cc)
    | .error _ => some s
  | .register c => s.register c
  | .propose c err => s.propose c err
  | .receive c => s.receive c
  | .timeout c e => s.timeout c e
  | .loadStore c => s.loadStore c
  | .applySentinel snap => s.applySentinel snap
  | .applyRestore => s.applyRestore
  | .applyEntry e => s.applyEntry e
  | .applySave => s.applySave
  | .applyReply => s.applyReply
  | .applyAdvance => s.applyAdvance
  | .closeCommits err => s.closeCommits err
  | .readState rd => s.readState rd

/-- One step: nothing runs once the process has died. -/
def step (s : Replicator) (a : Action) : Option Replicator :=
  if s.crash.isSome then none else s.act a

end Replicator

namespace Replicator

/-! ### What each action can do -/

variable {s s' : Replicator} {c : Nat}

/-- The id a goroutine starting `op` draws. -/
def drawId (s : Replicator) : Op → Nat
  | .confChange _ => (s.confChangeCount + 1) % 2 ^ 64
  | _ => s.idGen.next.1

theorem spawn_some {op : Op} (h : s.spawn c op = some s') :
    s.calls c = none ∧ s' = { s with
      idGen := op.nextGen s.idGen
      confChangeCount := op.nextCount s.confChangeCount
      calls := Function.update s.calls c (some ⟨op, .drawn (s.drawId op), none, none⟩) } := by
  unfold spawn at h
  split at h
  · cases h
  · rename_i hc
    refine ⟨by simpa using hc, ?_⟩
    split at h <;> cases h <;> rfl

theorem register_some (h : s.register c = some s') :
    ∃ op id slot src, s.calls c = some ⟨op, .drawn id, slot, src⟩ ∧
      ((s.waiter id).isSome ∧ s' = s.die (.dupId id) ∨
       s.waiter id = none ∧ s' = { s with
                                     waiter := Function.update s.waiter id (some c)
                                     calls := Function.update s.calls c (some ⟨op, .registered id, slot, src⟩) }) := by
  unfold register at h
  split at h
  · rename_i op id slot src hc
    refine ⟨op, id, slot, src, hc, ?_⟩
    split at h
    · rename_i hw
      exact .inl ⟨hw, (Option.some.inj h).symm⟩
    · rename_i hw
      exact .inr ⟨by simpa using hw, (Option.some.inj h).symm⟩
  · cases h

theorem propose_some {err : Option Error} (h : s.propose c err = some s') :
    ∃ op id slot src, s.calls c = some ⟨op, .registered id, slot, src⟩ ∧
      (err = none ∧ s' = { s with
                             calls := Function.update s.calls c (some ⟨op, .waiting id, slot, src⟩)
                             requests := s.requests ++ [(c, op.request id)] } ∨
       ∃ e s₁, err = some e ∧ s.trigger id ⟨[], some e⟩ .own = some s₁ ∧
         s' = s₁.setPhase c (.returned id [] (some e) .proposeError)) := by
  unfold propose at h
  split at h
  · rename_i op id slot src hc
    refine ⟨op, id, slot, src, hc, ?_⟩
    split at h
    · exact .inl ⟨rfl, (Option.some.inj h).symm⟩
    · rename_i e
      obtain ⟨s₁, h₁, rfl⟩ := Option.map_eq_some'.1 h
      exact .inr ⟨e, s₁, rfl, h₁, rfl⟩
  · cases h

theorem trigger_some {id : Nat} {v : InternalNexusResponse} {src : Source} (h : s.trigger id v src = some s') :
    (s.waiter id = none ∧ s' = s) ∨
    (∃ c, s.waiter id = some c ∧ s.calls c = none ∧ s' = { s with waiter := Function.update s.waiter id none }) ∨
    (∃ c call, s.waiter id = some c ∧ s.calls c = some call ∧ call.slot = none ∧
      s' = { s with
             waiter := Function.update s.waiter id none
             calls := Function.update s.calls c (some { call with slot := some v, source := some src }) }) := by
  unfold trigger at h
  split at h
  · exact .inl ⟨‹_›, (Option.some.inj h).symm⟩
  · rename_i c hw
    split at h
    · exact .inr (.inl ⟨c, hw, ‹_›, (Option.some.inj h).symm⟩)
    · rename_i call hc
      split at h
      · cases h
      · rename_i hs
        exact .inr (.inr ⟨c, call, hw, hc, by simpa using hs, (Option.some.inj h).symm⟩)

/-- A trigger touches only the waiter and the goroutines. -/
theorem trigger_frame {id : Nat} {v : InternalNexusResponse} {src : Source} (h : s.trigger id v src = some s') :
    ∃ w calls, s' = { s with waiter := w, calls := calls } := by
  rcases trigger_some h with ⟨-, rfl⟩ | ⟨_, -, -, rfl⟩ | ⟨_, _, -, -, -, rfl⟩ <;> exact ⟨_, _, rfl⟩

theorem receive_some (h : s.receive c = some s') :
    ∃ op id v src, s.calls c = some ⟨op, .waiting id, some v, src⟩ ∧
      ((∃ data, op = .save data ∧ s' = s.setPhase c (.returned id v.res v.err .received)) ∨
       (∃ cc, op = .confChange cc ∧ s' = s.setPhase c (.returned id [] v.err .received)) ∨
       (∃ data e, op = .load data ∧ v.err = some e ∧ s' = s.setPhase c (.returned id [] (some e) .received)) ∨
       (∃ data, op = .load data ∧ v.err = none ∧ uint64 v.res = none ∧ s' = s.die .indexOutOfRange) ∨
       (∃ data index, op = .load data ∧ v.err = none ∧ uint64 v.res = some index ∧
         s' = s.setPhase c (.applyWaiting id index (decide (index ≤ s.applyWait))))) := by
  unfold receive at h
  split at h
  · rename_i op id v src hc
    refine ⟨op, id, v, src, hc, ?_⟩
    split at h
    · exact .inl ⟨_, rfl, (Option.some.inj h).symm⟩
    · exact .inr (.inl ⟨_, rfl, (Option.some.inj h).symm⟩)
    · split at h
      · exact .inr (.inr (.inl ⟨_, _, rfl, ‹_›, (Option.some.inj h).symm⟩))
      · split at h
        · exact .inr (.inr (.inr (.inl ⟨_, rfl, ‹_›, ‹_›, (Option.some.inj h).symm⟩)))
        · exact .inr (.inr (.inr (.inr ⟨_, _, rfl, ‹_›, ‹_›, (Option.some.inj h).symm⟩)))
  · cases h

theorem timeout_some {e : ContextError} (h : s.timeout c e = some s') :
    (∃ op id slot src s₁, s.calls c = some ⟨op, .waiting id, slot, src⟩ ∧
      s.trigger id ⟨[], some (.context e)⟩ .own = some s₁ ∧
      s' = s₁.setPhase c (.returned id [] (some (.context e)) .timeout)) ∨
    (∃ op id index ready slot src, s.calls c = some ⟨op, .applyWaiting id index ready, slot, src⟩ ∧
      s' = s.setPhase c (.returned id [] (some (.context e)) .applyTimeout)) := by
  unfold timeout at h
  split at h
  · obtain ⟨s₁, h₁, rfl⟩ := Option.map_eq_some'.1 h
    exact .inl ⟨_, _, _, _, s₁, ‹_›, h₁, rfl⟩
  · exact .inr ⟨_, _, _, _, _, _, ‹_›, (Option.some.inj h).symm⟩
  · cases h

theorem loadStore_some (h : s.loadStore c = some s') :
    ∃ data id index slot src, s.calls c = some ⟨.load data, .applyWaiting id index true, slot, src⟩ ∧
      s' = { s.setPhase c (.returned id (s.store.load s.storeLog data).1 (s.store.load s.storeLog data).2 .stored)
             with storeLog := s.storeLog ++
               [.load data (s.store.load s.storeLog data).1 (s.store.load s.storeLog data).2 index] } := by
  unfold loadStore at h
  split at h
  · exact ⟨_, _, _, _, _, ‹_›, (Option.some.inj h).symm⟩
  · cases h

theorem applySentinel_some {snap : DBSnapshot} (h : s.applySentinel snap = some s') :
    s.applier = .idle ∧
      (snap = .errNoSnapshot ∧ s' = { s with commits := s.commits ++ [.sentinel snap] } ∨
       (∃ e, snap = .error e ∧ s' = s.die (.snapshot e)) ∨
       (∃ data, snap = .ok data ∧ s' = { s with commits := s.commits ++ [.sentinel snap], applier := .restore data })) := by
  unfold applySentinel at h
  split at h
  · cases h
  · rename_i hidle
    refine ⟨by simpa using hidle, ?_⟩
    split at h
    · exact .inl ⟨rfl, (Option.some.inj h).symm⟩
    · exact .inr (.inl ⟨_, rfl, (Option.some.inj h).symm⟩)
    · exact .inr (.inr ⟨_, rfl, (Option.some.inj h).symm⟩)

theorem applyRestore_some (h : s.applyRestore = some s') :
    ∃ data, s.applier = .restore data ∧
      (s.store.restore s.storeLog data = none ∧
         s' = { s with storeLog := s.storeLog ++ [.restore data none], applier := .idle } ∨
       ∃ e, s.store.restore s.storeLog data = some e ∧
         s' = ({ s with storeLog := s.storeLog ++ [.restore data (some e)], applier := .idle } : Replicator).die
           (.restore e)) := by
  unfold applyRestore at h
  split at h
  · rename_i data hap
    refine ⟨data, hap, ?_⟩
    dsimp only at h
    cases herr : s.store.restore s.storeLog data with
    | none => rw [herr] at h; exact .inl ⟨rfl, (Option.some.inj h).symm⟩
    | some e => rw [herr] at h; exact .inr ⟨e, rfl, (Option.some.inj h).symm⟩
  · cases h

theorem applyEntry_some {e : Entry} (h : s.applyEntry e = some s') :
    s.applier = .idle ∧
      (e.data = [] ∧ s' = { s with commits := s.commits ++ [.entry e], applier := .advance e.index } ∨
       (e.data ≠ [] ∧ (e.type = .entryNormal ∧ unmarshalRequest e.data = none ∨
          e.type = .entryConfChange ∧ unmarshalConfChange e.data = none) ∧ s' = s.die .unmarshal) ∨
       (∃ r, e.data ≠ [] ∧ e.type = .entryNormal ∧ unmarshalRequest e.data = some r ∧
         s' = { s with commits := s.commits ++ [.entry e], applier := .save e r }) ∨
       (∃ cc, e.data ≠ [] ∧ e.type = .entryConfChange ∧ unmarshalConfChange e.data = some cc ∧ s' = { s with
          commits := s.commits ++ [.entry e]
          applier := .reply cc.id ⟨e.data, none⟩ e })) := by
  unfold applyEntry at h
  split at h
  · cases h
  · rename_i hidle
    refine ⟨by simpa using hidle, ?_⟩
    split at h
    · exact .inl ⟨‹_›, (Option.some.inj h).symm⟩
    · rename_i hne
      split at h
      · rename_i ht
        split at h
        · exact .inr (.inl ⟨hne, .inl ⟨ht, ‹_›⟩, (Option.some.inj h).symm⟩)
        · exact .inr (.inr (.inl ⟨_, hne, ht, ‹_›, (Option.some.inj h).symm⟩))
      · rename_i ht
        split at h
        · exact .inr (.inl ⟨hne, .inr ⟨ht, ‹_›⟩, (Option.some.inj h).symm⟩)
        · exact .inr (.inr (.inr ⟨_, hne, ht, ‹_›, (Option.some.inj h).symm⟩))

theorem applySave_some (h : s.applySave = some s') :
    ∃ e r, s.applier = .save e r ∧ s' = { s with
      storeLog := s.storeLog ++ [.save ⟨e.index, e.term⟩ r.req (s.store.save s.storeLog ⟨e.index, e.term⟩ r.req).1
        (s.store.save s.storeLog ⟨e.index, e.term⟩ r.req).2]
      applier := .reply r.id ⟨(s.store.save s.storeLog ⟨e.index, e.term⟩ r.req).1,
        (s.store.save s.storeLog ⟨e.index, e.term⟩ r.req).2⟩ e } := by
  unfold applySave at h
  split at h
  · exact ⟨_, _, ‹_›, (Option.some.inj h).symm⟩
  · cases h

theorem applyReply_some (h : s.applyReply = some s') :
    ∃ id v e s₁, s.applier = .reply id v e ∧ s.trigger id v (.entry e) = some s₁ ∧
      s' = { s₁ with applier := .advance e.index } := by
  unfold applyReply at h
  split at h
  · obtain ⟨s₁, h₁, rfl⟩ := Option.map_eq_some'.1 h
    exact ⟨_, _, _, s₁, ‹_›, h₁, rfl⟩
  · cases h

theorem applyAdvance_some (h : s.applyAdvance = some s') :
    ∃ index, s.applier = .advance index ∧ s' = { s.applyWaitTrigger index with applier := .idle } := by
  unfold applyAdvance at h
  split at h
  · exact ⟨_, ‹_›, (Option.some.inj h).symm⟩
  · cases h

theorem closeCommits_some {err : Option Error} (h : s.closeCommits err = some s') :
    s.applier = .idle ∧ (err = none ∧ s' = { s with applier := .closed } ∨
      ∃ e, err = some e ∧ s' = s.die (.engine e)) := by
  unfold closeCommits at h
  split at h
  · cases h
  · rename_i hidle
    refine ⟨by simpa using hidle, ?_⟩
    split at h
    · exact .inl ⟨rfl, (Option.some.inj h).symm⟩
    · exact .inr ⟨_, rfl, (Option.some.inj h).symm⟩

theorem readState_some {rd : ReadState} (h : s.readState rd = some s') :
    uint64 rd.requestCtx = none ∧
      s' = ({ s with readStates := s.readStates ++ [rd] } : Replicator).die .indexOutOfRange ∨
    ∃ id, uint64 rd.requestCtx = some id ∧
      ({ s with readStates := s.readStates ++ [rd] } : Replicator).trigger id ⟨putUint64 rd.index, none⟩
        (.readState rd) = some s' := by
  unfold readState at h
  split at h
  · exact .inl ⟨‹_›, (Option.some.inj h).symm⟩
  · exact .inr ⟨_, ‹_›, h⟩

theorem step_some {a : Action} (h : s.step a = some s') : s.crash = none ∧ s.act a = some s' := by
  unfold step at h
  split at h
  · cases h
  · rename_i hc
    exact ⟨by simpa using hc, h⟩

/-- Only the two loops and `Load`'s store call touch the store log, the applier, the commits taken and the
apply cursor. -/
theorem step_frame {a : Action} (h : s.step a = some s') :
    (s'.storeLog = s.storeLog ∧ s'.applier = s.applier ∧ s'.commits = s.commits ∧ s'.applyWait = s.applyWait) ∨
    (∃ c, a = .loadStore c) ∨ (∃ snap, a = .applySentinel snap) ∨ a = .applyRestore ∨ (∃ e, a = .applyEntry e) ∨
    a = .applySave ∨ a = .applyReply ∨ a = .applyAdvance ∨ (∃ err, a = .closeCommits err) := by
  obtain ⟨-, h⟩ := step_some h
  have hspawn : ∀ c op, s.spawn c op = some s' →
      s'.storeLog = s.storeLog ∧ s'.applier = s.applier ∧ s'.commits = s.commits ∧ s'.applyWait = s.applyWait :=
    fun c op h => by obtain ⟨-, rfl⟩ := spawn_some h; exact ⟨rfl, rfl, rfl, rfl⟩
  cases a with
  | save c data => exact .inl (hspawn c (.save data) h)
  | load c data => exact .inl (hspawn c (.load data) h)
  | addMember c opts dial =>
    simp only [act] at h
    split at h
    · exact .inl (hspawn c _ h)
    · cases h; exact .inl ⟨rfl, rfl, rfl, rfl⟩
  | removeMember c opts =>
    simp only [act] at h
    split at h
    · exact .inl (hspawn c _ h)
    · cases h; exact .inl ⟨rfl, rfl, rfl, rfl⟩
  | register c =>
    obtain ⟨_, _, _, _, -, ⟨-, rfl⟩ | ⟨-, rfl⟩⟩ := register_some h <;> exact .inl ⟨rfl, rfl, rfl, rfl⟩
  | propose c err =>
    obtain ⟨_, _, _, _, -, ⟨-, rfl⟩ | ⟨_, _, -, h₁, rfl⟩⟩ := propose_some h
    · exact .inl ⟨rfl, rfl, rfl, rfl⟩
    · obtain ⟨_, _, rfl⟩ := trigger_frame h₁; exact .inl ⟨rfl, rfl, rfl, rfl⟩
  | receive c =>
    obtain ⟨_, _, _, _, -, hcases⟩ := receive_some h
    rcases hcases with ⟨_, -, rfl⟩ | ⟨_, -, rfl⟩ | ⟨_, _, -, -, rfl⟩ | ⟨_, -, -, -, rfl⟩ | ⟨_, _, -, -, -, rfl⟩ <;>
      exact .inl ⟨rfl, rfl, rfl, rfl⟩
  | timeout c e =>
    rcases timeout_some h with ⟨_, _, _, _, _, -, h₁, rfl⟩ | ⟨_, _, _, _, _, _, -, rfl⟩
    · obtain ⟨_, _, rfl⟩ := trigger_frame h₁; exact .inl ⟨rfl, rfl, rfl, rfl⟩
    · exact .inl ⟨rfl, rfl, rfl, rfl⟩
  | loadStore c => exact .inr (.inl ⟨c, rfl⟩)
  | applySentinel snap => exact .inr (.inr (.inl ⟨snap, rfl⟩))
  | applyRestore => exact .inr (.inr (.inr (.inl rfl)))
  | applyEntry e => exact .inr (.inr (.inr (.inr (.inl ⟨e, rfl⟩))))
  | applySave => exact .inr (.inr (.inr (.inr (.inr (.inl rfl)))))
  | applyReply => exact .inr (.inr (.inr (.inr (.inr (.inr (.inl rfl))))))
  | applyAdvance => exact .inr (.inr (.inr (.inr (.inr (.inr (.inr (.inl rfl)))))))
  | closeCommits err => exact .inr (.inr (.inr (.inr (.inr (.inr (.inr (.inr ⟨err, rfl⟩)))))))
  | readState rd =>
    rcases readState_some h with ⟨-, rfl⟩ | ⟨_, -, h₁⟩
    · exact .inl ⟨rfl, rfl, rfl, rfl⟩
    · obtain ⟨_, _, rfl⟩ := trigger_frame h₁; exact .inl ⟨rfl, rfl, rfl, rfl⟩

@[simp] theorem setPhase_waiter (p : Phase) : (s.setPhase c p).waiter = s.waiter := rfl

@[simp] theorem setPhase_requests (p : Phase) : (s.setPhase c p).requests = s.requests := rfl

@[simp] theorem setPhase_storeLog (p : Phase) : (s.setPhase c p).storeLog = s.storeLog := rfl

@[simp] theorem setPhase_applier (p : Phase) : (s.setPhase c p).applier = s.applier := rfl

@[simp] theorem setPhase_applyWait (p : Phase) : (s.setPhase c p).applyWait = s.applyWait := rfl

@[simp] theorem setPhase_commits (p : Phase) : (s.setPhase c p).commits = s.commits := rfl

@[simp] theorem setPhase_readStates (p : Phase) : (s.setPhase c p).readStates = s.readStates := rfl

theorem setPhase_calls (p : Phase) (c' : Nat) :
    (s.setPhase c p).calls c' = if c' = c then (s.calls c).map (fun call => { call with phase := p }) else s.calls c' := by
  simp only [setPhase, Function.update_apply]

theorem setPhase_calls_of {call : Call} (hc : s.calls c = some call) (p : Phase) :
    (s.setPhase c p).calls = Function.update s.calls c (some { call with phase := p }) := by
  simp [setPhase, hc]

theorem setPhase_calls_none {c' : Nat} (p : Phase) (hc : s.calls c' = none) : (s.setPhase c p).calls c' = none := by
  rw [setPhase_calls]; split <;> simp_all

theorem trigger_calls_none {id : Nat} {v : InternalNexusResponse} {src : Source} (h : s.trigger id v src = some s')
    (hc : s.calls c = none) : s'.calls c = none := by
  rcases trigger_some h with ⟨-, rfl⟩ | ⟨_, -, -, rfl⟩ | ⟨c₀, _, -, hc₀, -, rfl⟩
  · exact hc
  · exact hc
  · have : c ≠ c₀ := by rintro rfl; simp [hc] at hc₀
    simpa [Function.update_noteq this] using hc

/-- A trigger fills a slot and keeps every goroutine's phase. -/
theorem trigger_phase {id : Nat} {v : InternalNexusResponse} {src : Source} {call : Call}
    (h : s.trigger id v src = some s') (hc : s.calls c = some call) :
    ∃ call', s'.calls c = some call' ∧ call'.phase = call.phase := by
  rcases trigger_some h with ⟨-, rfl⟩ | ⟨_, -, -, rfl⟩ | ⟨c₀, call₀, -, hc₀, -, rfl⟩
  · exact ⟨call, hc, rfl⟩
  · exact ⟨call, hc, rfl⟩
  · by_cases hcc : c = c₀
    · subst hcc
      rw [hc] at hc₀; cases hc₀
      exact ⟨_, Function.update_same _ _ _, rfl⟩
    · exact ⟨call, (Function.update_noteq hcc _ _).trans hc, rfl⟩

/-- Only a goroutine's start adds a goroutine or draws an id. -/
theorem step_spawn {a : Action} (h : s.step a = some s') :
    (a.Starts ∧ ∃ c op, s.spawn c op = some s') ∨
    (s'.id = s.id ∧ s'.idGen = s.idGen ∧ s'.confChangeCount = s.confChangeCount ∧
      ∀ c, s.calls c = none → s'.calls c = none) := by
  obtain ⟨-, h⟩ := step_some h
  have hsame : s.id = s.id ∧ s.idGen = s.idGen ∧ s.confChangeCount = s.confChangeCount ∧
      ∀ c, s.calls c = none → s.calls c = none := ⟨rfl, rfl, rfl, fun _ hc => hc⟩
  -- an update of a goroutine that is there
  have hupd : ∀ {c : Nat} {call : Call} (x : Option Call), s.calls c = some call →
      ∀ c', s.calls c' = none → Function.update s.calls c x c' = none := fun {c _} x hc c' hc' => by
    have : c' ≠ c := by rintro rfl; simp [hc] at hc'
    rw [Function.update_noteq this, hc']
  -- a goroutine's own trigger, then its return
  have hown : ∀ {id c} {v : InternalNexusResponse} {s₁ : Replicator} {p : Phase},
      s.trigger id v .own = some s₁ → ∀ c', s.calls c' = none → (s₁.setPhase c p).calls c' = none :=
    fun h₁ c' hc' => setPhase_calls_none _ (trigger_calls_none h₁ hc')
  cases a with
  | save c data => exact .inl ⟨trivial, c, .save data, h⟩
  | load c data => exact .inl ⟨trivial, c, .load data, h⟩
  | addMember c opts dial =>
    simp only [act] at h
    split at h
    · exact .inl ⟨trivial, c, _, h⟩
    · cases h; exact .inr hsame
  | removeMember c opts =>
    simp only [act] at h
    split at h
    · exact .inl ⟨trivial, c, _, h⟩
    · cases h; exact .inr hsame
  | register c =>
    obtain ⟨_, _, _, _, hc, ⟨-, rfl⟩ | ⟨-, rfl⟩⟩ := register_some h
    · exact .inr hsame
    · exact .inr ⟨rfl, rfl, rfl, hupd _ hc⟩
  | propose c err =>
    obtain ⟨_, _, _, _, hc, ⟨-, rfl⟩ | ⟨_, _, -, h₁, rfl⟩⟩ := propose_some h
    · exact .inr ⟨rfl, rfl, rfl, hupd _ hc⟩
    · obtain ⟨_, _, rfl⟩ := trigger_frame h₁
      exact .inr ⟨rfl, rfl, rfl, hown h₁⟩
  | receive c =>
    obtain ⟨_, _, _, _, -, hcases⟩ := receive_some h
    rcases hcases with ⟨_, -, rfl⟩ | ⟨_, -, rfl⟩ | ⟨_, _, -, -, rfl⟩ | ⟨_, -, -, -, rfl⟩ | ⟨_, _, -, -, -, rfl⟩
    all_goals first
      | exact .inr hsame
      | exact .inr ⟨rfl, rfl, rfl, fun c' hc' => setPhase_calls_none _ hc'⟩
  | timeout c e =>
    rcases timeout_some h with ⟨_, _, _, _, _, -, h₁, rfl⟩ | ⟨_, _, _, _, _, _, -, rfl⟩
    · obtain ⟨_, _, rfl⟩ := trigger_frame h₁
      exact .inr ⟨rfl, rfl, rfl, hown h₁⟩
    · exact .inr ⟨rfl, rfl, rfl, fun c' hc' => setPhase_calls_none _ hc'⟩
  | loadStore c =>
    obtain ⟨_, _, _, _, _, -, rfl⟩ := loadStore_some h
    exact .inr ⟨rfl, rfl, rfl, fun c' hc' => setPhase_calls_none _ hc'⟩
  | applySentinel snap =>
    obtain ⟨-, ⟨-, rfl⟩ | ⟨_, -, rfl⟩ | ⟨_, -, rfl⟩⟩ := applySentinel_some h <;> exact .inr hsame
  | applyRestore =>
    obtain ⟨_, -, ⟨-, rfl⟩ | ⟨_, -, rfl⟩⟩ := applyRestore_some h <;> exact .inr hsame
  | applyEntry e =>
    obtain ⟨-, ⟨-, rfl⟩ | ⟨-, -, rfl⟩ | ⟨_, -, -, -, rfl⟩ | ⟨_, -, -, -, rfl⟩⟩ := applyEntry_some h <;>
      exact .inr hsame
  | applySave =>
    obtain ⟨_, _, -, rfl⟩ := applySave_some h
    exact .inr hsame
  | applyReply =>
    obtain ⟨_, _, _, s₁, -, h₁, rfl⟩ := applyReply_some h
    have hkeep : ∀ c', s.calls c' = none → s₁.calls c' = none := fun _ => trigger_calls_none h₁
    obtain ⟨_, _, rfl⟩ := trigger_frame h₁
    exact .inr ⟨rfl, rfl, rfl, hkeep⟩
  | applyAdvance =>
    obtain ⟨d, -, rfl⟩ := applyAdvance_some h
    exact .inr ⟨rfl, rfl, rfl, fun c' hc' => show (s.applyWaitTrigger d).calls c' = none by simp [applyWaitTrigger, hc']⟩
  | closeCommits err =>
    obtain ⟨-, ⟨-, rfl⟩ | ⟨_, -, rfl⟩⟩ := closeCommits_some h <;> exact .inr hsame
  | readState rd =>
    rcases readState_some h with ⟨-, rfl⟩ | ⟨_, -, h₁⟩
    · exact .inr hsame
    · have hkeep : ∀ c', s.calls c' = none → s'.calls c' = none := fun _ hc =>
        trigger_calls_none h₁ (show ({ s with readStates := s.readStates ++ [rd] } : Replicator).calls _ = none from hc)
      obtain ⟨_, _, rfl⟩ := trigger_frame h₁
      exact .inr ⟨rfl, rfl, rfl, hkeep⟩

@[simp] theorem applyWaitTrigger_calls (d c' : Nat) :
    (s.applyWaitTrigger d).calls c' = (s.calls c').map (Call.release d) := rfl

@[simp] theorem applyWaitTrigger_waiter (d : Nat) : (s.applyWaitTrigger d).waiter = s.waiter := rfl

@[simp] theorem applyWaitTrigger_requests (d : Nat) : (s.applyWaitTrigger d).requests = s.requests := rfl

@[simp] theorem applyWaitTrigger_storeLog (d : Nat) : (s.applyWaitTrigger d).storeLog = s.storeLog := rfl

@[simp] theorem applyWaitTrigger_applyWait (d : Nat) : (s.applyWaitTrigger d).applyWait = d := rfl

@[simp] theorem applyWaitTrigger_commits (d : Nat) : (s.applyWaitTrigger d).commits = s.commits := rfl

/-- How one step `a` changes the four histories: only `applySentinel` and `applyEntry` add to the commits
taken, and what they took; only `readState` adds to the read states taken; the store log only grows; and only a
`propose` the engine accepted adds a request. -/
structure LogsStep (a : Action) (s s' : Replicator) : Prop where
  commits : s'.commits = s.commits ∨ s'.commits = s.commits ++ a.taken
  readStates : s'.readStates = s.readStates ∨ s'.readStates = s.readStates ++ a.readStatesTaken
  storeLog : s.storeLog <+: s'.storeLog
  requests : s'.requests = s.requests ∨ ∃ c x, a = .propose c none ∧ s'.requests = s.requests ++ [x]

theorem LogsStep.requests_prefix {a : Action} (h : LogsStep a s s') : s.requests <+: s'.requests := by
  rcases h.requests with h | ⟨_, _, -, h⟩
  · exact h ▸ List.prefix_rfl
  · exact h ▸ List.prefix_append _ _

theorem step_logs {a : Action} (h : s.step a = some s') : LogsStep a s s' := by
  obtain ⟨-, h⟩ := step_some h
  have hsame : ∀ {t : Replicator}, t.commits = s.commits → t.readStates = s.readStates →
      t.storeLog = s.storeLog → t.requests = s.requests → LogsStep a s t :=
    fun h₁ h₂ h₃ h₄ => ⟨.inl h₁, .inl h₂, h₃ ▸ List.prefix_rfl, .inl h₄⟩
  have hspawn : ∀ c op, s.spawn c op = some s' → LogsStep a s s' := fun c op h => by
    obtain ⟨-, rfl⟩ := spawn_some h; exact hsame rfl rfl rfl rfl
  cases a with
  | save c data => exact hspawn c (.save data) h
  | load c data => exact hspawn c (.load data) h
  | addMember c opts dial =>
    simp only [act] at h
    split at h
    · exact hspawn c _ h
    · cases h; exact hsame rfl rfl rfl rfl
  | removeMember c opts =>
    simp only [act] at h
    split at h
    · exact hspawn c _ h
    · cases h; exact hsame rfl rfl rfl rfl
  | register c =>
    obtain ⟨_, _, _, _, -, ⟨-, rfl⟩ | ⟨-, rfl⟩⟩ := register_some h <;> exact hsame rfl rfl rfl rfl
  | propose c err =>
    obtain ⟨_, _, _, _, -, ⟨rfl, rfl⟩ | ⟨_, _, -, h₁, rfl⟩⟩ := propose_some h
    · exact ⟨.inl rfl, .inl rfl, List.prefix_rfl, .inr ⟨c, _, rfl, rfl⟩⟩
    · obtain ⟨_, _, rfl⟩ := trigger_frame h₁; exact hsame rfl rfl rfl rfl
  | receive c =>
    obtain ⟨_, _, _, _, -, hcases⟩ := receive_some h
    rcases hcases with ⟨_, -, rfl⟩ | ⟨_, -, rfl⟩ | ⟨_, _, -, -, rfl⟩ | ⟨_, -, -, -, rfl⟩ | ⟨_, _, -, -, -, rfl⟩ <;>
      exact hsame rfl rfl rfl rfl
  | timeout c e =>
    rcases timeout_some h with ⟨_, _, _, _, _, -, h₁, rfl⟩ | ⟨_, _, _, _, _, _, -, rfl⟩
    · obtain ⟨_, _, rfl⟩ := trigger_frame h₁; exact hsame rfl rfl rfl rfl
    · exact hsame rfl rfl rfl rfl
  | loadStore c =>
    obtain ⟨_, _, _, _, _, -, rfl⟩ := loadStore_some h
    exact ⟨.inl rfl, .inl rfl, List.prefix_append _ _, .inl rfl⟩
  | applySentinel snap =>
    obtain ⟨-, ⟨-, rfl⟩ | ⟨_, -, rfl⟩ | ⟨_, -, rfl⟩⟩ := applySentinel_some h
    · exact ⟨.inr rfl, .inl rfl, List.prefix_rfl, .inl rfl⟩
    · exact hsame rfl rfl rfl rfl
    · exact ⟨.inr rfl, .inl rfl, List.prefix_rfl, .inl rfl⟩
  | applyRestore =>
    obtain ⟨_, -, ⟨-, rfl⟩ | ⟨_, -, rfl⟩⟩ := applyRestore_some h <;>
      exact ⟨.inl rfl, .inl rfl, List.prefix_append _ _, .inl rfl⟩
  | applyEntry e =>
    obtain ⟨-, ⟨-, rfl⟩ | ⟨-, -, rfl⟩ | ⟨_, -, -, -, rfl⟩ | ⟨_, -, -, -, rfl⟩⟩ := applyEntry_some h
    · exact ⟨.inr rfl, .inl rfl, List.prefix_rfl, .inl rfl⟩
    · exact hsame rfl rfl rfl rfl
    all_goals exact ⟨.inr rfl, .inl rfl, List.prefix_rfl, .inl rfl⟩
  | applySave =>
    obtain ⟨_, _, -, rfl⟩ := applySave_some h
    exact ⟨.inl rfl, .inl rfl, List.prefix_append _ _, .inl rfl⟩
  | applyReply =>
    obtain ⟨_, _, _, s₁, -, h₁, rfl⟩ := applyReply_some h
    obtain ⟨_, _, rfl⟩ := trigger_frame h₁
    exact hsame rfl rfl rfl rfl
  | applyAdvance =>
    obtain ⟨d, -, rfl⟩ := applyAdvance_some h
    exact hsame rfl rfl rfl rfl
  | closeCommits err =>
    obtain ⟨-, ⟨-, rfl⟩ | ⟨_, -, rfl⟩⟩ := closeCommits_some h <;> exact hsame rfl rfl rfl rfl
  | readState rd =>
    rcases readState_some h with ⟨-, rfl⟩ | ⟨_, -, h₁⟩
    · exact ⟨.inl rfl, .inr rfl, List.prefix_rfl, .inl rfl⟩
    · obtain ⟨_, _, rfl⟩ := trigger_frame h₁
      exact ⟨.inl rfl, .inr rfl, List.prefix_rfl, .inl rfl⟩

/-- A step appends to the commits what it takes from `commitC`, or takes it and dies. -/
theorem step_commits {a : Action} (h : s.step a = some s') :
    s'.commits = s.commits ++ a.taken ∨ s'.commits = s.commits ∧ s'.crash.isSome := by
  obtain ⟨-, h'⟩ := step_some h
  cases a with
  | applySentinel snap =>
    obtain ⟨-, ⟨-, rfl⟩ | ⟨_, -, rfl⟩ | ⟨_, -, rfl⟩⟩ := applySentinel_some h'
    exacts [.inl rfl, .inr ⟨rfl, rfl⟩, .inl rfl]
  | applyEntry e =>
    obtain ⟨-, ⟨-, rfl⟩ | ⟨-, -, rfl⟩ | ⟨_, -, -, -, rfl⟩ | ⟨_, -, -, -, rfl⟩⟩ := applyEntry_some h'
    exacts [.inl rfl, .inr ⟨rfl, rfl⟩, .inl rfl, .inl rfl]
  | _ => rcases (step_logs h).commits with h | h <;> exact .inl (by simpa [Action.taken] using h)

/-- `readCommits` takes an empty entry as a Raft no-op: no `proto.Unmarshal`, no `store.Save` and no
`waiter.Trigger`, only `applyWait.Trigger(entry.Index)` is left to do. -/
theorem step_applyEntry_empty {e : Entry} (hcrash : s.crash = none) (hidle : s.applier = .idle)
    (he : e.data = []) :
    s.step (.applyEntry e) = some { s with commits := s.commits ++ [.entry e], applier := .advance e.index } := by
  simp [step, act, applyEntry, hcrash, hidle, he]

end Replicator

/-- The states a replicator reaches from `NewReplicator` through any actions. -/
inductive Reachable : Replicator → Prop
  | init (store : Store) (id now : Nat) : Reachable (newReplicator store id now)
  | step {s s' : Replicator} (a : Action) : Reachable s → s.step a = some s' → Reachable s'

/-- Runs actions one after another; `none` once one of them cannot run. -/
def Replicator.run (s : Replicator) : List Action → Option Replicator
  | [] => some s
  | a :: as => (s.step a).bind fun s' => s'.run as

theorem Reachable.run {s s' : Replicator} {as : List Action} (hs : Reachable s) (h : s.run as = some s') :
    Reachable s' := by
  induction as generalizing s with
  | nil => cases h; exact hs
  | cons a as ih =>
    obtain ⟨s₁, h₁, h⟩ := Option.bind_eq_some.1 h
    exact ih (hs.step a h₁) h

/-- A run from `NewReplicator` ends in a reachable state. -/
theorem Reachable.exists_of_run (store : Store) (id now : Nat) (as : List Action) {P : Replicator → Prop}
    (h : ∃ s, (newReplicator store id now).run as = some s ∧ P s) : ∃ s, Reachable s ∧ P s :=
  let ⟨s, hrun, hp⟩ := h
  ⟨s, (Reachable.init store id now).run hrun, hp⟩

/-- A store that answers `Save` and `Load` with their argument and accepts every `Restore`: the store the
concrete runs of this development use. -/
def echoStore : Store where
  save _ _ data := (data, none)
  load _ data := (data, none)
  restore _ _ := none

/-- On node 1 started at time 0 (whose generator draws `2 ^ 48 + 1`, `2 ^ 48 + 2`, ...): a `Save` of `[7]`
that the engine commits at index 1, then a `Load` whose read index the engine answers with 1. -/
def saveLoadTrace : List Action :=
  [.save 0 [7], .register 0, .propose 0 none, .applyEntry ⟨1, 1, .entryNormal, marshalRequest ⟨2 ^ 48 + 1, [7]⟩⟩,
   .applySave, .applyReply, .applyAdvance, .receive 0,
   .load 1 [7], .register 1, .propose 1 none, .readState ⟨1, putUint64 (2 ^ 48 + 2)⟩, .receive 1, .loadStore 1]

end Nexus
