import Nexus.Wire.Messages
import Nexus.IdUtil

/-!
# The replicator's state

One `replicator` (`internal/raft/replicator.go`) as an explicit state: the id generator, the conf-change counter,
the waiter (`wait.Wait`), the apply cursor (`wait.WaitTime`), the client goroutines in `Save`, `Load` and
`proposeConfigChange`, the `readCommits` goroutine, and the user's store.  The consensus engine, the
snapshotter, deadlines and the store's answers are the environment: the actions of `Nexus.Replicator.Step`
carry what they return.

Besides the program's own state the record keeps three histories that the statements talk about: the
entries and snapshot answers `readCommits` took and went on with (one it dies of is not recorded), the read
states `readReadStates` took, and the requests handed to the engine (with the goroutine that made each).  The store is user-supplied and deterministic, so
it is a function of the calls made on it, and the list of those calls is its state.
-/

namespace Nexus

/-- The two errors of `context`. -/
inductive ContextError
  | deadlineExceeded
  | canceled
  deriving DecidableEq, Repr

/-- Go's `error`, as far as the replicator creates or passes one on. -/
inductive Error
  | context (e : ContextError)
  | message (text : String)
  deriving DecidableEq, Repr

/-- `err.Error()`. -/
def Error.text : Error → String
  | .context .deadlineExceeded => "context deadline exceeded"
  | .context .canceled => "context canceled"
  | .message t => t

/-- `internalNexusResponse`: what a slot of the waiter receives. -/
structure InternalNexusResponse where
  res : Bytes
  err : Option Error
  deriving DecidableEq, Repr

/-- `raftpb.EntryType`. -/
inductive EntryType
  | entryNormal
  | entryConfChange
  deriving DecidableEq, Repr

/-- `raftpb.Entry`. -/
structure Entry where
  term : Nat
  index : Nat
  type : EntryType
  data : Bytes
  deriving DecidableEq, Repr

/-- `db.RaftEntry`, what `store.Save` is told about the entry it applies. -/
structure RaftEntry where
  index : Nat
  term : Nat
  deriving DecidableEq, Repr

/-- `raft.ReadState`. -/
structure ReadState where
  index : Nat
  requestCtx : Bytes
  deriving DecidableEq, Repr

/-- What `snapshotter.LoadDBSnapshot()` returned: the snapshot's bytes, `snap.ErrNoSnapshot`, or another
error. -/
inductive DBSnapshot
  | ok (data : Bytes)
  | errNoSnapshot
  | error (e : Error)
  deriving DecidableEq, Repr

/-- A call made on the store, with its result.  `load` also records the read index the `Load` waited for,
which the store does not see. -/
inductive StoreCall
  | save (e : RaftEntry) (data res : Bytes) (err : Option Error)
  | load (data res : Bytes) (err : Option Error) (index : Nat)
  | restore (data : Bytes) (err : Option Error)
  deriving DecidableEq, Repr

/-- `db.Store`: each answer is a function of the calls made before it. -/
structure Store where
  save : List StoreCall → RaftEntry → Bytes → Bytes × Option Error
  load : List StoreCall → Bytes → Bytes × Option Error
  restore : List StoreCall → Bytes → Option Error

/-- What a client goroutine runs. -/
inductive Op
  | save (data : Bytes)
  | load (data : Bytes)
  | confChange (cc : ConfChange)
  deriving DecidableEq, Repr

/-- The `return` statement a client goroutine left through. -/
inductive Exit
  | proposeError
  | received
  | timeout
  | applyTimeout
  | stored
  deriving DecidableEq, Repr

/-- Where a client goroutine is, with the id it drew. -/
inductive Phase
  | drawn (id : Nat)
  | registered (id : Nat)
  | waiting (id : Nat)
  | applyWaiting (id index : Nat) (ready : Bool)
  | returned (id : Nat) (res : Bytes) (err : Option Error) (exit : Exit)
  deriving DecidableEq, Repr

/-- Who put the value into a slot: `readCommits` applying an entry, `readReadStates`, or the goroutine's own
propose-error or timeout trigger. -/
inductive Source
  | entry (e : Entry)
  | readState (rd : ReadState)
  | own
  deriving DecidableEq, Repr

/-- A client goroutine: its operation, its place, and the buffered channel `ch` that `waiter.Register`
returned (with who filled it). -/
structure Call where
  op : Op
  phase : Phase
  slot : Option InternalNexusResponse
  source : Option Source
  deriving DecidableEq, Repr

/-- Where `readCommits` is in handling what it took last: about to call `store.Restore` with a loaded
snapshot, about to call `store.Save` for a decoded entry, about to trigger the waiter, or about to trigger
`applyWait`. -/
inductive Applier
  | idle
  | restore (data : Bytes)
  | save (e : Entry) (r : NexusInternalRequest)
  | reply (id : Nat) (v : InternalNexusResponse) (e : Entry)
  | advance (index : Nat)
  | closed
  deriving DecidableEq, Repr

/-- What the process died of: a panic or `log.Fatal`. -/
inductive Crash
  | dupId (id : Nat)
  | indexOutOfRange
  | unmarshal
  | snapshot (e : Error)
  | restore (e : Error)
  | engine (e : Error)
  deriving DecidableEq, Repr

/-- An element of `commitC` as `readCommits` took it, with `LoadDBSnapshot`'s answer for a nil. -/
inductive Commit
  | sentinel (snap : DBSnapshot)
  | entry (e : Entry)
  deriving DecidableEq, Repr

/-- A request handed to the consensus engine. -/
inductive Request
  | propose (data : Bytes)
  | proposeConfChange (cc : ConfChange)
  | readIndex (rctx : Bytes)
  deriving DecidableEq, Repr

/-- The state of one replicator. -/
structure Replicator where
  id : Nat
  store : Store
  confChangeCount : Nat
  idGen : Generator
  waiter : Nat → Option Nat
  applyWait : Nat
  calls : Nat → Option Call
  applier : Applier
  crash : Option Crash
  storeLog : List StoreCall
  commits : List Commit
  readStates : List ReadState
  requests : List (Nat × Request)

/-- `NewReplicator(store, options)` for the node `id`, started at `now` nanoseconds. -/
def newReplicator (store : Store) (id now : Nat) : Replicator where
  id := id
  store := store
  confChangeCount := 0
  idGen := newGenerator (id % 2 ^ 16) now
  waiter := fun _ => none
  applyWait := 0
  calls := fun _ => none
  applier := .idle
  crash := none
  storeLog := []
  commits := []
  readStates := []
  requests := []

/-- The id a goroutine drew. -/
def Phase.id : Phase → Nat
  | .drawn id | .registered id | .waiting id | .applyWaiting id _ _ | .returned id _ _ _ => id

/-- The phases in which a goroutine holds a registered slot or is about to register one: it has not yet
been handed a value through `ch`. -/
def Phase.Pending : Phase → Prop
  | .registered _ | .waiting _ => True
  | _ => False

instance (p : Phase) : Decidable p.Pending :=
  match p with
  | .registered _ | .waiting _ => isTrue trivial
  | .drawn _ | .applyWaiting .. | .returned .. => isFalse nofun

end Nexus
