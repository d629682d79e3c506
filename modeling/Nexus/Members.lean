import Mathlib.Data.List.Nodup
import Nexus.Replicator.Step

/-!
# Making a replicator and listing its members

`api.NewRaftReplicator` refuses a nil store, passes on an error from the options, and otherwise hands out
`NewReplicator(store, options)`: the initial state of the model (`newRaftReplicator_reachable`).

`replicator.ListMembers` asks the engine for the leader it knows (`getLeaderId`) and walks the peer map
`rpeers`. It reports each peer under its id, with its URL and a status:
* the leader is `LEADER`;
* the node itself gets its own Raft state;
* any other peer is `OFFLINE` if the transport has never been active with it, `FOLLOWER` if some leader is
  known, and `UNKNOWN` otherwise.

The engine's answers are arguments: the leader id, the peers, the transport's `ActiveSince` (0 for the zero
time) and the node's Raft state. Go walks a map in no fixed order, so the peers come as a list `rpeers` in the
order of one such walk, with distinct ids. The map returned holds the peers and nothing else
(`listMembers_some`, `listMembers_eq_none`). Hence it does not depend on the walk's order, and the one member
reported `LEADER` is the leader.
-/

namespace Nexus

/-- `api.NewRaftReplicator(store, opts...)`. `store` is `none` for a nil store, and `options` is what
`raft.NewOptions(opts...)` returned: the node id with the start time of its id generator. -/
def newRaftReplicator (store : Option Store) (options : Except Error (Nat × Nat)) : Except Error Replicator :=
  match store with
  | none => .error (.message "Store must be given")
  | some store => options.map fun (id, now) => newReplicator store id now

/-- Every replicator `NewRaftReplicator` hands out starts in the model's initial state, so every invariant of
`Nexus.Replicator` holds along its runs. -/
theorem newRaftReplicator_reachable {store : Option Store} {options : Except Error (Nat × Nat)} {r : Replicator}
    (h : newRaftReplicator store options = .ok r) : Reachable r := by
  cases store with
  | none => cases h
  | some store =>
    cases options with
    | error e => cases h
    | ok o => cases h; exact .init store o.1 o.2

/-- `models.NodeInfo_Status`. -/
inductive NodeStatus
  | unknown | leader | follower | candidate | offline
  deriving DecidableEq, Repr

/-- `models.NodeInfo`: what `ListMembers` reports of one member. -/
structure NodeInfo where
  nodeUrl : String
  nodeId : Nat
  status : NodeStatus
  deriving DecidableEq, Repr

/-- The engine's `raft.StateType`: the role the node holds. -/
inductive StateType
  | stateFollower | stateCandidate | stateLeader | statePreCandidate
  deriving DecidableEq, Repr

/-- `StateType.String()`. -/
def StateType.string : StateType → String
  | .stateFollower => "StateFollower"
  | .stateCandidate => "StateCandidate"
  | .stateLeader => "StateLeader"
  | .statePreCandidate => "StatePreCandidate"

/-- The status `ListMembers` gives the peer `id`. The leader is `lead`, the node is `self` in the Raft state
`raftState`, and `activeSince id` is when the transport became active with the peer (0 for never). -/
def memberStatus (lead self : Nat) (raftState : StateType) (activeSince : Nat → Nat) (id : Nat) : NodeStatus :=
  if id = lead then .leader
  else if id = self then
    let status := raftState.string
    if status = "StateFollower" then .follower
    else if status = "StateCandidate" ∨ status = "StatePreCandidate" then .candidate
    else .unknown
  else if activeSince id = 0 then .offline
  else if lead ≠ 0 then .follower
  else .unknown

/-- One turn of `ListMembers`' loop, for the peer `id` at `url`: `members[id] = &nodeInfo`. -/
def putMember (status : Nat → NodeStatus) (members : Nat → Option NodeInfo) (peer : Nat × String) :
    Nat → Option NodeInfo :=
  Function.update members peer.1 (some ⟨peer.2, peer.1, status peer.1⟩)

/-- `replicator.ListMembers`: the leader id, and the map from each peer's id to its `NodeInfo`. -/
def listMembers (repl : Replicator) (lead : Nat) (raftState : StateType) (activeSince : Nat → Nat)
    (rpeers : List (Nat × String)) : Nat × (Nat → Option NodeInfo) :=
  (lead, rpeers.foldl (putMember (memberStatus lead repl.id raftState activeSince)) fun _ => none)

theorem memberStatus_eq_leader {lead self : Nat} {raftState : StateType} {activeSince : Nat → Nat} {id : Nat} :
    memberStatus lead self raftState activeSince id = .leader ↔ id = lead := by
  simp only [memberStatus]
  split_ifs <;> simp_all

/-! ### The loop -/

section Loop

variable {status : Nat → NodeStatus} {id : Nat}

/-- The loop leaves alone every id that is not a peer's. -/
theorem foldl_putMember_of_not_mem {l : List (Nat × String)} (hid : id ∉ l.map Prod.fst)
    (members : Nat → Option NodeInfo) : l.foldl (putMember status) members id = members id := by
  induction l generalizing members with
  | nil => rfl
  | cons p l ih =>
    simp only [List.map_cons, List.mem_cons, not_or] at hid
    rw [List.foldl_cons, ih hid.2, putMember, Function.update_noteq hid.1]

/-- After the loop, a peer's id holds that peer's `NodeInfo`. -/
theorem foldl_putMember_of_mem {l : List (Nat × String)} (hnd : (l.map Prod.fst).Nodup) {url : String}
    (hmem : (id, url) ∈ l) (members : Nat → Option NodeInfo) :
    l.foldl (putMember status) members id = some ⟨url, id, status id⟩ := by
  induction l generalizing members with
  | nil => cases hmem
  | cons p l ih =>
    rw [List.map_cons, List.nodup_cons] at hnd
    rw [List.foldl_cons]
    rcases List.mem_cons.1 hmem with rfl | hmem
    · rw [foldl_putMember_of_not_mem hnd.1, putMember, Function.update_same]
    · exact ih hnd.2 hmem _

end Loop

section ListMembers

variable {repl : Replicator} {lead : Nat} {raftState : StateType} {activeSince : Nat → Nat}
  {rpeers : List (Nat × String)} {id : Nat}

/-- `ListMembers` reports a peer under its id, with its URL and the status `memberStatus` gives it. -/
theorem listMembers_some (hnd : (rpeers.map Prod.fst).Nodup) {info : NodeInfo} :
    (listMembers repl lead raftState activeSince rpeers).2 id = some info ↔
      (id, info.nodeUrl) ∈ rpeers ∧ info.nodeId = id ∧
        info.status = memberStatus lead repl.id raftState activeSince id := by
  constructor
  · intro h
    dsimp only [listMembers] at h
    by_cases hid : id ∈ rpeers.map Prod.fst
    · obtain ⟨⟨_, url⟩, hmem, rfl⟩ := List.mem_map.1 hid
      rw [foldl_putMember_of_mem hnd hmem, Option.some.injEq] at h
      exact h ▸ ⟨hmem, rfl, rfl⟩
    · rw [foldl_putMember_of_not_mem hid] at h
      cases h
  · rintro ⟨hmem, hid, hst⟩
    dsimp only [listMembers]
    rw [foldl_putMember_of_mem hnd hmem, ← hst, ← hid]

/-- `ListMembers` reports no one but the peers. -/
theorem listMembers_eq_none (hid : id ∉ rpeers.map Prod.fst) :
    (listMembers repl lead raftState activeSince rpeers).2 id = none :=
  foldl_putMember_of_not_mem hid _

/-- Whatever order Go walks the peer map in, `ListMembers` returns the same members. -/
theorem list_members_order_free {rpeers' : List (Nat × String)} (hnd : (rpeers.map Prod.fst).Nodup)
    (hp : rpeers.Perm rpeers') :
    listMembers repl lead raftState activeSince rpeers = listMembers repl lead raftState activeSince rpeers' := by
  refine Prod.ext rfl (hp.foldl_eq' (fun x hx y hy members => ?_) _)
  by_cases hxy : x.1 = y.1
  · rw [List.inj_on_of_nodup_map hnd hx hy hxy]
  · exact Function.update_comm hxy _ _ _

theorem list_members_order_free_two_peers :
    ([(1, "a"), (2, "b")].map Prod.fst).Nodup ∧ [(1, "a"), (2, "b")].Perm [(2, "b"), (1, "a")] ∧
      listMembers (newReplicator echoStore 1 0) 2 .stateFollower (fun _ => 0) [(1, "a"), (2, "b")] =
        listMembers (newReplicator echoStore 1 0) 2 .stateFollower (fun _ => 0) [(2, "b"), (1, "a")] :=
  have hnd : ([(1, "a"), (2, "b")].map Prod.fst).Nodup := by decide
  have hp : [(1, "a"), (2, "b")].Perm [(2, "b"), (1, "a")] := .swap _ _ _
  ⟨hnd, hp, list_members_order_free hnd hp⟩

/-- A member is reported `LEADER` exactly when its id is the leader's, and one is exactly when the leader is a
peer: `ListMembers` never reports two leaders, nor a leader that is not the engine's. -/
theorem list_members_leader (hnd : (rpeers.map Prod.fst).Nodup) :
    (∀ id info, (listMembers repl lead raftState activeSince rpeers).2 id = some info →
      (info.status = .leader ↔ id = lead)) ∧
    ((∃ id info, (listMembers repl lead raftState activeSince rpeers).2 id = some info ∧ info.status = .leader) ↔
      lead ∈ rpeers.map Prod.fst) := by
  have hst : ∀ id info, (listMembers repl lead raftState activeSince rpeers).2 id = some info →
      (info.status = .leader ↔ id = lead) := fun id info h => by
    rw [((listMembers_some hnd).1 h).2.2, memberStatus_eq_leader]
  refine ⟨hst, ⟨fun ⟨id, info, h, hl⟩ => ?_, fun hlead => ?_⟩⟩
  · obtain ⟨hmem, -, -⟩ := (listMembers_some hnd).1 h
    exact (hst id info h).1 hl ▸ List.mem_map_of_mem Prod.fst hmem
  · obtain ⟨⟨_, url⟩, hmem, rfl⟩ := List.mem_map.1 hlead
    exact ⟨_, ⟨url, _, .leader⟩,
      (listMembers_some hnd).2 ⟨hmem, rfl, (memberStatus_eq_leader.2 rfl).symm⟩, rfl⟩

theorem list_members_leader_two_peers :
    ([(1, "a"), (2, "b")].map Prod.fst).Nodup ∧
    (∀ id info, (listMembers (newReplicator echoStore 1 0) 2 .stateFollower (fun _ => 0) [(1, "a"), (2, "b")]).2 id =
        some info → (info.status = .leader ↔ id = 2)) ∧
    ((∃ id info, (listMembers (newReplicator echoStore 1 0) 2 .stateFollower (fun _ => 0) [(1, "a"), (2, "b")]).2 id =
        some info ∧ info.status = .leader) ↔ 2 ∈ [(1, "a"), (2, "b")].map Prod.fst) :=
  have hnd : ([(1, "a"), (2, "b")].map Prod.fst).Nodup := by decide
  ⟨hnd, list_members_leader hnd⟩

end ListMembers

end Nexus
