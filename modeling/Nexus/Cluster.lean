import Nexus.Replicator.Step

/-!
# A cluster of replicators

Every node of a cluster runs a replicator over its own store; one consensus engine orders what the nodes
propose into one committed log, and each node's `readCommits` receives that log in order.  `Cluster` holds the
replicators, the log, each entry with the node and the request it came from, and for each node how far into the
log the engine has brought it (`raftNode`'s applied index).  A `ClusterAction` is a step of one node, the engine
committing a node's request, the engine handing a node the next entry of the log, the engine sending a node a nil
(a snapshot sentinel), or the engine answering a node's `ReadIndex`.  A sentinel whose `LoadDBSnapshot` finds a
snapshot may move the node forward in the log: the entries the snapshot covers are never handed to it.  Every
node of a reachable cluster is a reachable replicator (`ClusterReachable.node`), so everything proved of one
replicator holds of each node.

The waiter keys are not global: two nodes whose ids agree in their low 16 bits draw the same request ids, and
every node counts its conf changes from 1.  `save_answered_by_other_node` and
`conf_change_answered_by_other_node` are runs of two nodes in which a `Save`, and a `proposeConfigChange`,
return what another node's request was answered with.

Nor does every `Save` reach the store.  Its envelope is empty when it carries request id 0 and an empty payload,
and the generator of a node whose id is 0 in its low 16 bits draws id 0 once its 48-bit counter wraps.
`readCommits` skips an empty entry as the engine's own no-op, so such a `Save`, committed and delivered, is
never applied and waits out its deadline (`empty_save_never_applied`).
-/

namespace Nexus

/-- The entry the engine appends for a request: a proposal as an `EntryNormal`, a conf change as an
`EntryConfChange` carrying its marshalled bytes; a `ReadIndex` is not appended. -/
def Request.entry (r : Request) (term index : Nat) : Option Entry :=
  match r with
  | .propose data => some ⟨term, index, .entryNormal, data⟩
  | .proposeConfChange cc => some ⟨term, index, .entryConfChange, marshalConfChange cc⟩
  | .readIndex _ => none

theorem Request.entry_index {r : Request} {term index : Nat} {e : Entry} (h : r.entry term index = some e) :
    e.index = index := by
  cases r <;> simp only [Request.entry, Option.some.injEq, reduceCtorEq] at h <;> subst h <;> rfl

/-- A committed entry, with the node and the position in that node's requests it was proposed at. -/
structure LogEntry where
  entry : Entry
  node : Nat
  request : Nat
  deriving DecidableEq, Repr

/-- The nodes' replicators, the committed log, and for each node the number of log entries the engine has handed
it or covered by a snapshot it sent it: `raftNode`'s applied index. -/
structure Cluster where
  nodes : List Replicator
  log : List LogEntry
  applied : Nat → Nat

/-- A cluster of fresh replicators, each given by its store, node id and start time. -/
def Cluster.init (nodes : List (Store × Nat × Nat)) : Cluster :=
  ⟨nodes.map fun (store, id, now) => newReplicator store id now, [], fun _ => 0⟩

/-- The entry an element of the commit stream carries, if it is one. -/
def Commit.entry? : Commit → Option Entry
  | .entry e => some e
  | .sentinel _ => none

/-- The entries a replicator's `readCommits` took, in order. -/
def Replicator.entries (s : Replicator) : List Entry := s.commits.filterMap Commit.entry?

theorem Replicator.mem_commits_of_mem_entries {s : Replicator} {e : Entry} (h : e ∈ s.entries) :
    Commit.entry e ∈ s.commits := by
  obtain ⟨x, hx, hxe⟩ := List.mem_filterMap.1 h
  cases x <;> simp only [Commit.entry?, Option.some.injEq, reduceCtorEq] at hxe
  exact hxe ▸ hx

/-- The number of log entries a replicator's `readCommits` took. -/
def Replicator.taken (s : Replicator) : Nat := s.entries.length

/-- Whether `LoadDBSnapshot` found a snapshot. -/
def DBSnapshot.isOk : DBSnapshot → Bool
  | .ok _ => true
  | _ => false

/-- Whether an element of the commit stream is a nil for which `LoadDBSnapshot` found a snapshot. -/
def Commit.isSnapshot : Commit → Bool
  | .sentinel snap => snap.isOk
  | .entry _ => false

/-- Whether a replicator's `readCommits` took a snapshot to restore. -/
def Replicator.loadedSnapshot (s : Replicator) : Bool := s.commits.any Commit.isSnapshot

/-- Whether an action hands a node something from the engine's streams: a nil or an entry of `commitC`, or a read
state of `readStateC`. -/
def Action.fromEngine : Action → Bool
  | .applySentinel _ | .applyEntry _ | .readState _ => true
  | _ => false

/-- A step of the cluster: a node's own step (what it takes from the streams comes from the engine), the engine
committing the `k`-th request of node `n` once, the engine handing node `n` the next log entry, the engine sending
node `n` a nil after which its next entry is the `index + 1`-th, or the engine answering node `n`'s `k`-th
request, a `ReadIndex`, with a read index. -/
inductive ClusterAction
  | node (n : Nat) (a : Action)
  | commit (n k term : Nat)
  | deliver (n : Nat)
  | install (n index : Nat) (snap : DBSnapshot)
  | answer (n k index : Nat)

namespace Cluster

/-- Node `n` takes the step `f`. -/
def update (cl : Cluster) (n : Nat) (f : Replicator → Option Replicator) : Option Cluster :=
  match cl.nodes[n]? with
  | none => none
  | some s => (f s).map fun s' => { cl with nodes := cl.nodes.set n s' }

/-- Whether the `k`-th request of node `n` is in the log. -/
def committed (cl : Cluster) (n k : Nat) : Bool := cl.log.any fun le => le.node == n && le.request == k

/-- A nil moves a node forward only with a snapshot, and never past the log: the snapshot covers the entries the
node skips. -/
def step (cl : Cluster) : ClusterAction → Option Cluster
  | .node n a => if a.fromEngine then none else cl.update n (·.step a)
  | .commit n k term => do
    let s ← cl.nodes[n]?
    let (_, r) ← s.requests[k]?
    if cl.committed n k then none else
    let e ← r.entry term (cl.log.length + 1)
    some { cl with log := cl.log ++ [⟨e, n, k⟩] }
  | .deliver n => do
    let le ← cl.log[cl.applied n]?
    let cl' ← cl.update n (·.step (.applyEntry le.entry))
    some { cl' with applied := Function.update cl.applied n (cl.applied n + 1) }
  | .install n index snap =>
    if cl.applied n ≤ index ∧ index ≤ cl.log.length ∧ (snap.isOk ∨ index = cl.applied n) then
      (cl.update n (·.step (.applySentinel snap))).map fun cl' =>
        { cl' with applied := Function.update cl.applied n index }
    else none
  | .answer n k index => do
    let s ← cl.nodes[n]?
    match s.requests[k]? with
    | some (_, .readIndex rctx) => cl.update n (·.step (.readState ⟨index, rctx⟩))
    | _ => none

/-- Runs cluster actions one after another; `none` once one of them cannot run. -/
def run (cl : Cluster) : List ClusterAction → Option Cluster
  | [] => some cl
  | a :: as => (cl.step a).bind fun cl' => cl'.run as

end Cluster

/-- The clusters reached from fresh replicators. -/
inductive ClusterReachable : Cluster → Prop
  | init (nodes : List (Store × Nat × Nat)) : ClusterReachable (Cluster.init nodes)
  | step {cl cl' : Cluster} (a : ClusterAction) : ClusterReachable cl → cl.step a = some cl' → ClusterReachable cl'

namespace Cluster

variable {cl cl' : Cluster}

theorem update_some {n : Nat} {f : Replicator → Option Replicator} (h : cl.update n f = some cl') :
    ∃ s s', cl.nodes[n]? = some s ∧ f s = some s' ∧ cl' = { cl with nodes := cl.nodes.set n s' } := by
  unfold update at h
  split at h
  · cases h
  · obtain ⟨s', h', rfl⟩ := Option.map_eq_some'.1 h
    exact ⟨_, s', ‹_›, h', rfl⟩

/-- Each step of the cluster is the engine appending the next entry to the log, for a request it had not
committed, with the nodes as they were, or a step of one node, with the log as it was. -/
theorem step_cases {a : ClusterAction} (h : cl.step a = some cl') :
    (cl'.nodes = cl.nodes ∧ ∃ le, cl'.log = cl.log ++ [le] ∧ le.entry.index = cl.log.length + 1 ∧
      cl.committed le.node le.request = false) ∨
    (cl'.log = cl.log ∧ ∃ n s s' b, cl.nodes[n]? = some s ∧ s.step b = some s' ∧ cl'.nodes = cl.nodes.set n s') := by
  cases a with
  | node n a =>
    simp only [step] at h
    split at h
    · cases h
    · obtain ⟨s, s', hs, hb, rfl⟩ := update_some h
      exact .inr ⟨rfl, n, s, s', a, hs, hb, rfl⟩
  | commit n k term =>
    simp only [step, Option.bind_eq_bind, Option.bind_eq_some] at h
    obtain ⟨s, -, ⟨_, r⟩, -, h⟩ := h
    split at h
    · cases h
    · obtain ⟨e, he, h⟩ := Option.bind_eq_some.1 h
      cases h
      exact .inl ⟨rfl, _, rfl, Request.entry_index he, Bool.eq_false_iff.2 ‹_›⟩
  | deliver n =>
    simp only [step, Option.bind_eq_bind, Option.bind_eq_some, Option.some.injEq] at h
    obtain ⟨le, -, cl₁, hu, rfl⟩ := h
    obtain ⟨s, s', hs, hb, rfl⟩ := update_some hu
    exact .inr ⟨rfl, n, s, s', _, hs, hb, rfl⟩
  | install n index snap =>
    simp only [step] at h
    split at h
    · obtain ⟨cl₁, hu, rfl⟩ := Option.map_eq_some'.1 h
      obtain ⟨s, s', hs, hb, rfl⟩ := update_some hu
      exact .inr ⟨rfl, n, s, s', _, hs, hb, rfl⟩
    · cases h
  | answer n k index =>
    simp only [step, Option.bind_eq_bind, Option.bind_eq_some] at h
    obtain ⟨s, -, h⟩ := h
    split at h
    · obtain ⟨s, s', hs, hb, rfl⟩ := update_some h
      exact .inr ⟨rfl, n, s, s', _, hs, hb, rfl⟩
    · cases h

/-- The steps a cluster lets its node `s` take: one of its own, which takes nothing from the engine; a nil of the
commit stream; applying an entry of the committed log; or taking the read state that answers one of its
`ReadIndex` requests. -/
inductive NodeAction (cl : Cluster) (s : Replicator) : Action → Prop
  | own {b : Action} : b.fromEngine = false → NodeAction cl s b
  | sentinel {snap : DBSnapshot} : NodeAction cl s (.applySentinel snap)
  | entry {le : LogEntry} : le ∈ cl.log → NodeAction cl s (.applyEntry le.entry)
  | readState {k c index : Nat} {rctx : Bytes} : s.requests[k]? = some (c, .readIndex rctx) →
      NodeAction cl s (.readState ⟨index, rctx⟩)

/-- A step of the cluster leaves the nodes as they were, or is a step one node takes as its cluster lets it. -/
theorem step_node_cases {a : ClusterAction} (h : cl.step a = some cl') :
    cl'.nodes = cl.nodes ∨ ∃ n s s' b, cl.nodes[n]? = some s ∧ s.step b = some s' ∧
      cl'.nodes = cl.nodes.set n s' ∧ cl.NodeAction s b := by
  cases a with
  | node n a =>
    simp only [step] at h
    split at h
    · cases h
    · obtain ⟨s, s', hs, hb, rfl⟩ := update_some h
      exact .inr ⟨n, s, s', a, hs, hb, rfl, .own (Bool.eq_false_iff.2 ‹_›)⟩
  | commit n k term =>
    simp only [step, Option.bind_eq_bind, Option.bind_eq_some] at h
    obtain ⟨t, -, ⟨_, r⟩, -, h⟩ := h
    split at h
    · cases h
    · obtain ⟨e, -, h⟩ := Option.bind_eq_some.1 h
      cases h
      exact .inl rfl
  | deliver n =>
    simp only [step, Option.bind_eq_bind, Option.bind_eq_some, Option.some.injEq] at h
    obtain ⟨le, hle, cl₁, hu, rfl⟩ := h
    obtain ⟨s, s', hs, hb, rfl⟩ := update_some hu
    exact .inr ⟨n, s, s', _, hs, hb, rfl, .entry (List.getElem?_mem hle)⟩
  | install n index snap =>
    simp only [step] at h
    split at h
    · obtain ⟨cl₁, hu, rfl⟩ := Option.map_eq_some'.1 h
      obtain ⟨s, s', hs, hb, rfl⟩ := update_some hu
      exact .inr ⟨n, s, s', _, hs, hb, rfl, .sentinel⟩
    · cases h
  | answer n k index =>
    simp only [step, Option.bind_eq_bind, Option.bind_eq_some] at h
    obtain ⟨t, ht, h⟩ := h
    split at h
    · rename_i c rctx hk
      obtain ⟨s, s', hs, hb, rfl⟩ := update_some h
      rw [ht, Option.some.injEq] at hs
      subst hs
      exact .inr ⟨n, t, s', _, ht, hb, rfl, .readState hk⟩
    · cases h

end Cluster

/-- Every node of a reachable cluster is a reachable replicator. -/
theorem ClusterReachable.node {cl : Cluster} (h : ClusterReachable cl) : ∀ s ∈ cl.nodes, Reachable s := by
  induction h with
  | init nodes =>
    intro s hs
    obtain ⟨⟨store, id, now⟩, -, rfl⟩ := List.mem_map.1 hs
    exact .init store id now
  | step a _ hstep ih =>
    rcases Cluster.step_cases hstep with ⟨heq, -⟩ | ⟨-, n, s, s', b, hs, hb, heq⟩
    · rw [heq]; exact ih
    · intro t ht
      rw [heq] at ht
      rcases List.mem_or_eq_of_mem_set ht with ht | rfl
      · exact ih t ht
      · exact (ih s (List.getElem?_mem hs)).step b hb

theorem ClusterReachable.run {cl cl' : Cluster} {as : List ClusterAction} (hcl : ClusterReachable cl)
    (h : cl.run as = some cl') : ClusterReachable cl' := by
  induction as generalizing cl with
  | nil => cases h; exact hcl
  | cons a as ih =>
    obtain ⟨cl₁, h₁, h⟩ := Option.bind_eq_some.1 h
    exact ih (hcl.step a h₁) h

/-- What evaluating a run says of the cluster it ends in. -/
theorem Cluster.exists_of_run_any {cl : Cluster} {acts : List ClusterAction} {P : Cluster → Prop}
    [DecidablePred P] (h : (cl.run acts).any fun cl' => P cl') : ∃ cl', cl.run acts = some cl' ∧ P cl' := by
  cases hr : cl.run acts with
  | none => rw [hr] at h; cases h
  | some cl' => rw [hr] at h; exact ⟨cl', rfl, of_decide_eq_true h⟩

/-! ### Two nodes answering each other's requests -/

/-- Nodes 1 and 65537 (both member id `uint16 = 1`) started at the same time each `Save` once, and both draw
the request id `2 ^ 48 + 1`; the engine commits node 65537's proposal, and node 1's `readCommits` applies it. -/
def otherNodeSaveTrace : List ClusterAction :=
  [.node 0 (.save 0 [1]), .node 0 (.register 0), .node 0 (.propose 0 none),
   .node 1 (.save 0 [2]), .node 1 (.register 0), .node 1 (.propose 0 none),
   .commit 1 0 1, .deliver 0, .node 0 .applySave, .node 0 .applyReply, .node 0 (.receive 0)]

/-- Node 1's `Save` of `[1]` returns `[2]`: what node 1's store answered for the one committed entry, which
carries node 65537's envelope; node 1's own envelope was never committed. -/
theorem save_answered_by_other_node : ∃ cl, ClusterReachable cl ∧ cl.nodes.map Replicator.id = [1, 65537] ∧
    cl.log.map LogEntry.node = [1] ∧
    (cl.nodes[0]?.map fun s => s.storeLog) = some [.save ⟨1, 1⟩ [2] [2] none] ∧
    (cl.nodes[0]?.bind fun s => s.calls 0) =
      some ⟨.save [1], .returned (2 ^ 48 + 1) [2] none .received, some ⟨[2], none⟩,
        some (.entry ⟨1, 1, .entryNormal, marshalRequest ⟨2 ^ 48 + 1, [2]⟩⟩)⟩ := by
  have h : ∃ cl, (Cluster.init [(echoStore, 1, 0), (echoStore, 65537, 0)]).run otherNodeSaveTrace = some cl ∧
      cl.nodes.map Replicator.id = [1, 65537] ∧ cl.log.map LogEntry.node = [1] ∧
      (cl.nodes[0]?.map fun s => s.storeLog) = some [.save ⟨1, 1⟩ [2] [2] none] ∧
      (cl.nodes[0]?.bind fun s => s.calls 0) =
        some ⟨.save [1], .returned (2 ^ 48 + 1) [2] none .received, some ⟨[2], none⟩,
          some (.entry ⟨1, 1, .entryNormal, marshalRequest ⟨2 ^ 48 + 1, [2]⟩⟩)⟩ :=
    ⟨_, rfl, by decide, by decide, by decide, by decide⟩
  obtain ⟨cl, hrun, hp⟩ := h
  exact ⟨cl, (ClusterReachable.init _).run hrun, hp⟩

/-- Nodes 1 and 2 each add a member: both count their first conf change as 1.  The engine commits node 2's
conf change and then node 1's, and node 1's `readCommits` applies the first. -/
def confChangeClashTrace : List ClusterAction :=
  [.node 0 (.addMember 0 (.ok ⟨3, "http://127.0.0.1:9023"⟩) none), .node 0 (.register 0), .node 0 (.propose 0 none),
   .node 1 (.addMember 0 (.ok ⟨4, "http://127.0.0.1:9024"⟩) none), .node 1 (.register 0), .node 1 (.propose 0 none),
   .commit 1 0 1, .commit 0 0 1, .deliver 0, .node 0 .applyReply, .node 0 (.receive 0)]

/-- The log holds two conf changes with ID 1, and node 1's `proposeConfigChange` returns `nil` once node 2's
conf change was applied, before its own. -/
theorem conf_change_answered_by_other_node : ∃ cl, ClusterReachable cl ∧ cl.nodes.map Replicator.id = [1, 2] ∧
    (cl.log.map fun le => (le.node, (unmarshalConfChange le.entry.data).map ConfChange.id)) =
      [(1, some 1), (0, some 1)] ∧
    (cl.nodes[0]?.map Replicator.taken) = some 1 ∧
    (cl.nodes[0]?.bind fun s => (s.calls 0).map Call.phase) = some (.returned 1 [] none .received) := by
  have h : ∃ cl, (Cluster.init [(echoStore, 1, 0), (echoStore, 2, 0)]).run confChangeClashTrace = some cl ∧
      cl.nodes.map Replicator.id = [1, 2] ∧
      (cl.log.map fun le => (le.node, (unmarshalConfChange le.entry.data).map ConfChange.id)) =
        [(1, some 1), (0, some 1)] ∧
      (cl.nodes[0]?.map Replicator.taken) = some 1 ∧
      (cl.nodes[0]?.bind fun s => (s.calls 0).map Call.phase) = some (.returned 1 [] none .received) :=
    ⟨_, rfl, by decide, by decide, by decide, by decide⟩
  obtain ⟨cl, hrun, hp⟩ := h
  exact ⟨cl, (ClusterReachable.init _).run hrun, hp⟩

/-! ### A `Save` whose envelope is empty -/

/-- Node `65536` (member id `uint16(65536) = 0`), started `2 ^ 40 - 1` milliseconds after the epoch, runs 256
`Save`s of the empty payload; the 256th draws id 0, since the generator's counter starts at `(2 ^ 40 - 1) * 2 ^ 8`.
It registers and proposes, and the engine commits its envelope and hands it to the node's `readCommits`. -/
def emptySaveTrace : List ClusterAction :=
  (List.range 256).map (fun c => .node 0 (.save c [])) ++
    [.node 0 (.register 255), .node 0 (.propose 255 none), .commit 0 0 1, .deliver 0, .node 0 .applyAdvance]

set_option maxRecDepth 2000 in
/-- The committed entry of the `Save` with id 0 has no data, and node `65536`'s `readCommits` takes it and moves
on without calling `store.Save` or triggering the waiter: the `Save` stays registered under id 0, its slot empty. -/
theorem empty_save_never_applied : ∃ cl, ClusterReachable cl ∧ cl.nodes.map Replicator.id = [65536] ∧
    (cl.log.map fun le => (le.node, le.entry.data)) = [(0, [])] ∧
    (cl.nodes[0]?.map fun s => (s.taken, s.storeLog, s.crash)) = some (1, [], none) ∧
    (cl.nodes[0]?.map fun s => (s.calls 255, s.waiter 0)) =
      some (some ⟨.save [], .waiting 0, none, none⟩, some 255) := by
  obtain ⟨cl, hrun, hp⟩ := Cluster.exists_of_run_any
    (by decide : ((Cluster.init [(echoStore, 65536, (2 ^ 40 - 1) * 10 ^ 6)]).run emptySaveTrace).any fun cl =>
      cl.nodes.map Replicator.id = [65536] ∧ (cl.log.map fun le => (le.node, le.entry.data)) = [(0, [])] ∧
      (cl.nodes[0]?.map fun s => (s.taken, s.storeLog, s.crash)) = some (1, [], none) ∧
      (cl.nodes[0]?.map fun s => (s.calls 255, s.waiter 0)) =
        some (some ⟨.save [], .waiting 0, none, none⟩, some 255))
  exact ⟨cl, (ClusterReachable.init _).run hrun, hp⟩

end Nexus
