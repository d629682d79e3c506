import Nexus.Replicator.Answers
import Nexus.Replicator.Ids
import Nexus.Log

/-!
# An answer reaches the request it answers

A node's `readCommits` triggers, for every entry of the one committed log, the key the entry decodes to, and
`readReadStates` the key a read state's context decodes to; which goroutine receives the answer depends only on
the key.  So the answers are routed right exactly when the keys are: `Cluster.KeysDistinct` asks that no two
goroutines of the cluster hold the same key, and `Cluster.RequestsFit` that every request fits the wire types,
so that it decodes back to its goroutine's key.  Under the two:

* a `Save` that returns what its slot received returns what its node's store answered for the log entry that
  carries its own envelope (`save_answered_by_own_entry`);
* a `Load` waits for the read index the engine reported for its own `ReadIndex`
  (`load_index_from_own_read_state`);
* a `proposeConfigChange` that returns what its slot received returns `nil`, once its node took the log entry
  of its own conf change (`conf_change_answered_by_own_entry`).

The keys are distinct when every node's member id `uint16(id)` is its own and not 0, no counter has reached
`2^48`, and only one node proposes configuration changes (`Cluster.KeysDistinct.of_members`); the runs of
`Nexus.Cluster` show what goes wrong without the first or the last condition.

The proofs join the node invariant `AnswerInv` (who filled a slot, with what) to the cluster invariant
`ClusterInv` of `Nexus.Log` (which request each log entry and read state answers).
-/

namespace Nexus

/-! ### Keys on the wire -/

/-- The key a node triggers for a request: what the engine's entry for it, or the read state answering it,
decodes to. -/
def Request.key : Request → Option Nat
  | .propose data => (unmarshalRequest data).map NexusInternalRequest.id
  | .proposeConfChange cc => (unmarshalConfChange (marshalConfChange cc)).map ConfChange.id
  | .readIndex rctx => uint64 rctx

theorem Request.key_entry {r : Request} {term index : Nat} {e : Entry} (h : r.entry term index = some e) :
    e.key = r.key := by
  cases r <;> simp only [Request.entry, Option.some.injEq, reduceCtorEq] at h <;> subst h <;> rfl

/-- The request fits the wire types: the marshalled envelope, and a conf change's context, shorter than `2^64`
bytes, a conf change's type and node id below `2^64`. -/
def Request.Fits : Request → Prop
  | .propose data => data.length < 2 ^ 64
  | .proposeConfChange cc => cc.type < 2 ^ 64 ∧ cc.nodeID < 2 ^ 64 ∧ (cc.context.map List.length).getD 0 < 2 ^ 64
  | .readIndex _ => True

instance Request.decFits (r : Request) : Decidable r.Fits :=
  match r with
  | .propose data => inferInstanceAs (Decidable (data.length < 2 ^ 64))
  | .proposeConfChange cc => inferInstanceAs
      (Decidable (cc.type < 2 ^ 64 ∧ cc.nodeID < 2 ^ 64 ∧ (cc.context.map List.length).getD 0 < 2 ^ 64))
  | .readIndex _ => inferInstanceAs (Decidable True)

/-- A goroutine's request, once it fits the wire types, decodes to the goroutine's key. -/
theorem Op.key_request {op : Op} {id : Nat} (hid : id < 2 ^ 64) (hfit : (op.request id).Fits) :
    (op.request id).key = some id := by
  cases op with
  | save data =>
    have hlen : data.length < 2 ^ 64 := lt_of_le_of_lt (length_req_le_marshalRequest ⟨id, data⟩) hfit
    simp [Op.request, Request.key, @unmarshalRequest_marshalRequest ⟨id, data⟩ hid hlen]
  | load data => simp only [Op.request, Request.key, uint64_putUint64, Nat.mod_eq_of_lt hid]
  | confChange cc =>
    obtain ⟨-, hn, hc⟩ := hfit
    have hctx : ∀ ctx, ({ cc with id := id } : ConfChange).context = some ctx → ctx.length < 2 ^ 64 :=
      fun ctx h => by
        have h' : cc.context = some ctx := h
        simpa [h'] using hc
    simp [Op.request, Request.key, unmarshalConfChange_marshalConfChange hid hn hctx]

/-! ### Distinct keys -/

namespace Cluster

/-- No two goroutines of the cluster hold the same waiter key. -/
def KeysDistinct (cl : Cluster) : Prop :=
  ∀ (n n' : Nat) (s s' : Replicator) (c c' : Nat) (call call' : Call), cl.nodes[n]? = some s →
    cl.nodes[n']? = some s' → s.calls c = some call → s'.calls c' = some call' → call.phase.id = call'.phase.id →
    n = n' ∧ c = c'

/-- Every request handed to the engine fits the wire types. -/
def RequestsFit (cl : Cluster) : Prop := ∀ s ∈ cl.nodes, ∀ x ∈ s.requests, x.2.Fits

instance (cl : Cluster) : Decidable cl.RequestsFit :=
  inferInstanceAs (Decidable (∀ s ∈ cl.nodes, ∀ x ∈ s.requests, x.2.Fits))

end Cluster

/-! ### When the keys are distinct -/

/-- The keys are distinct across the cluster while every node's member id `uint16(id)` is its own and not 0, no
counter has reached `2^48`, and only the first node proposes configuration changes. -/
theorem Cluster.KeysDistinct.of_members {cl : Cluster} (hcl : ClusterReachable cl)
    (hids : (cl.nodes.map fun s => s.id % 2 ^ 16).Nodup) (hm : ∀ s ∈ cl.nodes, 0 < s.id % 2 ^ 16)
    (hg : ∀ s ∈ cl.nodes, s.idGen.suffix < 2 ^ 48) (hn : ∀ s ∈ cl.nodes, s.confChangeCount < 2 ^ 48)
    (hcc : ∀ s ∈ cl.nodes.tail, s.confChangeCount = 0) : cl.KeysDistinct := by
  intro n n' s s' c c' call call' hs hs' hc hc' hid
  have hk : ∀ {t}, t ∈ cl.nodes → KeyInv t := fun ht =>
    keyInv_of_reachable (hcl.node _ ht) (hm _ ht) (hg _ ht) (hn _ ht)
  have hms := List.getElem?_mem hs
  have hms' := List.getElem?_mem hs'
  by_cases hnn : n = n'
  · subst hnn
    rw [hs] at hs'; cases hs'
    exact ⟨rfl, (hk hms).distinct c c' call call' hc hc' hid⟩
  · exfalso
    -- two nodes have distinct member ids, and one of them counts no conf change
    have hmid : s.id % 2 ^ 16 ≠ s'.id % 2 ^ 16 := fun h =>
      hnn (List.getElem?_inj (by simpa using (List.getElem?_eq_some_iff.1 hs).1) hids
        (by simp only [List.getElem?_map, hs, hs', Option.map_some', h]))
    have htail : ∀ {k : Nat} {t : Replicator}, 0 < k → cl.nodes[k]? = some t → t.confChangeCount = 0 :=
      fun {k t} hk ht => by
        obtain ⟨i, rfl⟩ := Nat.exists_eq_add_of_lt hk
        exact hcc t (List.getElem?_mem (by rw [List.getElem?_tail]; simpa using ht))
    have h0 : s.confChangeCount = 0 ∨ s'.confChangeCount = 0 := by
      rcases Nat.eq_zero_or_pos n with rfl | hpos
      · exact .inr (htail (by omega) hs')
      · exact .inl (htail hpos hs)
    have hm₁ := hm s hms
    have hm₂ := hm s' hms'
    have hn₁ := hn s hms
    have hn₂ := hn s' hms'
    -- a conf change's ID lies below `2^48`, a `Save`'s or `Load`'s id above it, under its node's member id
    rcases ((hk hms).drawn c call hc).range hn₁ (hg s hms) with ⟨-, h₁, h₁'⟩ | ⟨k, hk₁, hk₁', hid₁⟩ <;>
      rcases ((hk hms').drawn c' call' hc').range hn₂ (hg s' hms') with ⟨-, h₂, h₂'⟩ | ⟨k', hk₂, hk₂', hid₂⟩ <;>
      omega

/-! ### Routing -/

section Routing

variable {cl : Cluster} (hcl : ClusterReachable cl) (hkeys : cl.KeysDistinct) (hfit : cl.RequestsFit)
include hcl hkeys hfit

/-- A request whose key is a goroutine's key is that goroutine's own request. -/
theorem Cluster.request_owner {n m c c₀ : Nat} {s s₀ : Replicator} {call : Call} {r : Request}
    (hs : cl.nodes[n]? = some s) (hc : s.calls c = some call) (hs₀ : cl.nodes[m]? = some s₀)
    (hr : (c₀, r) ∈ s₀.requests) (hkey : r.key = some call.phase.id) :
    m = n ∧ s₀ = s ∧ c₀ = c ∧ r = call.op.request call.phase.id := by
  have hR₀ := hcl.node s₀ (List.getElem?_mem hs₀)
  obtain ⟨call₀, hc₀, rfl, -⟩ := (slotInv_of_reachable hR₀).requests_slot hr
  have hkey₀ := Op.key_request ((key_lt_of_reachable hR₀).2 c₀ call₀ hc₀) (hfit s₀ (List.getElem?_mem hs₀) _ hr)
  rw [hkey₀, Option.some.injEq] at hkey
  obtain ⟨rfl, rfl⟩ := hkeys m n s₀ s c₀ c call₀ call hs₀ hs hc₀ hc hkey
  rw [hs] at hs₀; cases hs₀
  rw [hc] at hc₀; cases hc₀
  exact ⟨rfl, rfl, rfl, rfl⟩

/-- Whoever filled a goroutine's slot answered the goroutine's own request: an entry is the engine's entry for
it, a read state answers its own `ReadIndex`, and an own error is its own, with which it returned. -/
theorem Cluster.slot_source_own {n c : Nat} {s : Replicator} {call : Call} (hs : cl.nodes[n]? = some s)
    (hc : s.calls c = some call) :
    (∀ e, call.source = some (.entry e) → ∃ le ∈ cl.log, le.entry = e ∧ le.node = n ∧
      s.requests[le.request]? = some (c, call.op.request call.phase.id) ∧
      ∃ term index, (call.op.request call.phase.id).entry term index = some e) ∧
    (∀ rd, call.source = some (.readState rd) → ∃ k : Nat, s.requests[k]? = some (c, .readIndex rd.requestCtx) ∧
      call.op.request call.phase.id = .readIndex rd.requestCtx) ∧
    (call.source = some .own → call.phase.OwnExit) := by
  have hR := hcl.node s (List.getElem?_mem hs)
  have hI := clusterInv_of_reachable hcl
  have hsrc := ((answerInv_of_reachable hR).calls c call hc).1
  refine ⟨fun e he => ?_, fun rd hrd => ?_, fun hown => ?_⟩
  · rw [he] at hsrc
    obtain ⟨hmem, hkey, -⟩ := hsrc
    obtain ⟨le, hle, rfl⟩ := hI.mem_log hs hmem
    obtain ⟨s₀, c₀, r, term, index, hs₀, hk, hr⟩ := hI.origin le hle
    rw [Request.key_entry hr] at hkey
    obtain ⟨hn, rfl, rfl, rfl⟩ :=
      Cluster.request_owner hcl hkeys hfit hs hc hs₀ (List.getElem?_mem hk) hkey
    exact ⟨le, hle, rfl, hn, hk, term, index, hr⟩
  · rw [hrd] at hsrc
    obtain ⟨hmem, hkey, -⟩ := hsrc
    obtain ⟨k, c₀, hk⟩ := hI.answered n s rd hs hmem
    obtain ⟨-, -, rfl, hr⟩ := Cluster.request_owner hcl hkeys hfit hs hc hs (List.getElem?_mem hk) hkey
    exact ⟨k, hk, hr.symm⟩
  · rw [hown] at hsrc
    obtain ⟨c', call', hc', hid, hx⟩ := hsrc
    obtain ⟨-, rfl⟩ := hkeys n n s s c' c call' call hs hs hc' hc hid
    rw [hc] at hc'; cases hc'
    exact hx

/-- A `Save` past its `Propose` whose slot holds `v`, and that did not fill the slot itself, holds what its node's
store answered for the log entry carrying its own envelope. -/
theorem Cluster.save_slot_own_entry {n c : Nat} {s : Replicator} {data : Bytes} {p : Phase}
    {v : InternalNexusResponse} {src : Option Source} (hs : cl.nodes[n]? = some s)
    (hc : s.calls c = some ⟨.save data, p, some v, src⟩) (hp : p.Proposed) (hown : ¬p.OwnExit) :
    ∃ le ∈ cl.log, le.node = n ∧ s.requests[le.request]? = some (c, .propose (marshalRequest ⟨p.id, data⟩)) ∧
      Commit.entry le.entry ∈ s.commits ∧ StoreCall.save ⟨le.entry.index, le.entry.term⟩ data v.res v.err ∈ s.storeLog := by
  have hR := hcl.node s (List.getElem?_mem hs)
  obtain ⟨hsrc, -, hreq⟩ := (answerInv_of_reachable hR).calls c _ hc
  have hok := (slotInv_of_reachable hR).call_ok c
  rw [hc] at hok
  obtain ⟨hent, hrd, hownx⟩ := Cluster.slot_source_own hcl hkeys hfit hs hc
  -- its own envelope decodes back to its id and payload
  have hlen : data.length < 2 ^ 64 :=
    lt_of_le_of_lt (length_req_le_marshalRequest ⟨p.id, data⟩) (hfit s (List.getElem?_mem hs) _ (hreq hp))
  have hid : p.id < 2 ^ 64 := (key_lt_of_reachable hR).2 c _ hc
  have hfilled : src.isSome := hok.1.2 rfl
  rcases src with _ | (e | rd | _)
  · cases hfilled
  · obtain ⟨le, hle, rfl, hn, hk, term, index, hentry⟩ := hent e rfl
    simp only [Op.request, Request.entry, Option.some.injEq] at hentry
    obtain ⟨hmem, -, v', hv, hans⟩ := hsrc
    obtain rfl := Option.some.inj hv
    unfold Entry.Answers at hans
    rw [← hentry] at hans
    obtain ⟨r, hr, hmem'⟩ := hans
    rw [unmarshalRequest_marshalRequest hid hlen, Option.some.injEq] at hr
    subst hr
    refine ⟨le, hle, hn, hk, hmem, ?_⟩
    rw [← hentry]
    exact hmem'
  · obtain ⟨k, -, hr⟩ := hrd rd rfl
    cases hr
  · exact absurd (hownx rfl) hown

/-- A configuration change whose slot holds `v`, and that did not fill the slot itself, holds the answer to its
own log entry: `v.err` is `nil`, and its node's `readCommits` took that entry. -/
theorem Cluster.conf_slot_own_entry {n c : Nat} {s : Replicator} {cc : ConfChange} {p : Phase}
    {v : InternalNexusResponse} {src : Option Source} (hs : cl.nodes[n]? = some s)
    (hc : s.calls c = some ⟨.confChange cc, p, some v, src⟩) (hown : ¬p.OwnExit) :
    v.err = none ∧ ∃ le ∈ cl.log, le.node = n ∧
      s.requests[le.request]? = some (c, .proposeConfChange { cc with id := p.id }) ∧
      Commit.entry le.entry ∈ s.commits := by
  have hR := hcl.node s (List.getElem?_mem hs)
  have hsrc := ((answerInv_of_reachable hR).calls c _ hc).1
  have hok := (slotInv_of_reachable hR).call_ok c
  rw [hc] at hok
  obtain ⟨hent, hrd, hownx⟩ := Cluster.slot_source_own hcl hkeys hfit hs hc
  have hfilled : src.isSome := hok.1.2 rfl
  rcases src with _ | (e | rd | _)
  · cases hfilled
  · -- the entry that answered it is its own conf change, answered with `nil`
    obtain ⟨le, hle, rfl, hn, hk, term, index, hentry⟩ := hent e rfl
    simp only [Op.request, Request.entry, Option.some.injEq] at hentry
    obtain ⟨hmem, -, v', hv, hans⟩ := hsrc
    unfold Entry.Answers at hans
    rw [← hentry] at hans
    rw [hans, Option.some.injEq] at hv
    exact ⟨by rw [hv], le, hle, hn, hk, hmem⟩
  · obtain ⟨k, -, hr⟩ := hrd rd rfl
    cases hr
  · exact absurd (hownx rfl) hown

end Routing

/-- Nodes 1 and 2, started at time 0 over echoing stores.  Node 1 runs a `Save` of `[1]`, a `Load` and an
`AddMember`, node 2 a `Save` of `[2]`; the engine commits node 2's proposal, then node 1's and its conf change,
answers node 1's `ReadIndex` with 2, and node 1's `readCommits` applies the three entries. -/
def routingTrace : List ClusterAction :=
  [.node 0 (.save 0 [1]), .node 0 (.register 0), .node 0 (.propose 0 none),
   .node 0 (.load 1 [7]), .node 0 (.register 1), .node 0 (.propose 1 none),
   .node 0 (.addMember 2 (.ok ⟨3, "http://127.0.0.1:9023"⟩) none), .node 0 (.register 2), .node 0 (.propose 2 none),
   .node 1 (.save 0 [2]), .node 1 (.register 0), .node 1 (.propose 0 none),
   .commit 1 0 1, .commit 0 0 1, .commit 0 2 1, .answer 0 1 2,
   .deliver 0, .node 0 .applySave, .node 0 .applyReply, .node 0 .applyAdvance,
   .deliver 0, .node 0 .applySave, .node 0 .applyReply, .node 0 .applyAdvance,
   .deliver 0, .node 0 .applyReply, .node 0 .applyAdvance,
   .node 0 (.receive 0), .node 0 (.receive 1), .node 0 (.receive 2)]

/-- The run of `routingTrace` ends in a cluster whose keys are distinct and whose requests fit. -/
theorem routingTrace_run {P : Cluster → Prop}
    (h : ∃ cl, (Cluster.init [(echoStore, 1, 0), (echoStore, 2, 0)]).run routingTrace = some cl ∧ P cl) :
    ∃ cl, ClusterReachable cl ∧ cl.KeysDistinct ∧ cl.RequestsFit ∧ P cl := by
  obtain ⟨cl, hrun, hp⟩ := h
  have hcl := (ClusterReachable.init _).run hrun
  have hfacts : ∃ cl', (Cluster.init [(echoStore, 1, 0), (echoStore, 2, 0)]).run routingTrace = some cl' ∧
      (cl'.nodes.map fun s => s.id % 2 ^ 16).Nodup ∧ (∀ s ∈ cl'.nodes, 0 < s.id % 2 ^ 16) ∧
      (∀ s ∈ cl'.nodes, s.idGen.suffix < 2 ^ 48) ∧ (∀ s ∈ cl'.nodes, s.confChangeCount < 2 ^ 48) ∧
      (∀ s ∈ cl'.nodes.tail, s.confChangeCount = 0) ∧ cl'.RequestsFit :=
    ⟨_, rfl, by decide, by decide, by decide, by decide, by decide, by decide⟩
  obtain ⟨cl', hrun', hids, hm, hg, hn, hcc, hfit⟩ := hfacts
  rw [hrun, Option.some.injEq] at hrun'
  subst hrun'
  exact ⟨cl, hcl, Cluster.KeysDistinct.of_members hcl hids hm hg hn hcc, hfit, hp⟩

/-- A `Save` that returned what its slot received returned what its node's store answered for the log entry
carrying its own envelope, an entry its node's `readCommits` took. -/
theorem save_answered_by_own_entry {cl : Cluster} (hcl : ClusterReachable cl) (hkeys : cl.KeysDistinct)
    (hfit : cl.RequestsFit) {n c id : Nat} {s : Replicator} {data res : Bytes} {err : Option Error}
    {slot : Option InternalNexusResponse} {src : Option Source} (hs : cl.nodes[n]? = some s)
    (hc : s.calls c = some ⟨.save data, .returned id res err .received, slot, src⟩) :
    ∃ le ∈ cl.log, le.node = n ∧ s.requests[le.request]? = some (c, .propose (marshalRequest ⟨id, data⟩)) ∧
      Commit.entry le.entry ∈ s.commits ∧ StoreCall.save ⟨le.entry.index, le.entry.term⟩ data res err ∈ s.storeLog := by
  have hR := hcl.node s (List.getElem?_mem hs)
  have htook : slot = some ⟨res, err⟩ := ((answerInv_of_reachable hR).calls c _ hc).2.1
  subst htook
  exact Cluster.save_slot_own_entry hcl hkeys hfit hs hc (by simp [Phase.Proposed]) fun h => h

/-- In `routingTrace`, node 1's `Save` of `[1]` returns what its store answered for the third log entry's
envelope, its own, and not for node 2's entry applied before it. -/
theorem save_answered_by_own_entry_routed : ∃ cl s, ClusterReachable cl ∧ cl.nodes[0]? = some s ∧
    ∃ le ∈ cl.log, le.node = 0 ∧ s.requests[le.request]? = some (0, .propose (marshalRequest ⟨2 ^ 48 + 1, [1]⟩)) ∧
      Commit.entry le.entry ∈ s.commits ∧ StoreCall.save ⟨le.entry.index, le.entry.term⟩ [1] [1] none ∈ s.storeLog := by
  obtain ⟨cl, hcl, hkeys, hfit, hcall⟩ := routingTrace_run (P := fun cl =>
    (cl.nodes[0]?.bind fun s => (s.calls 0).map fun call => (call.op, call.phase)) =
      some (.save [1], .returned (2 ^ 48 + 1) [1] none .received)) ⟨_, rfl, by decide⟩
  obtain ⟨s, hs, hc⟩ := Option.bind_eq_some.1 hcall
  obtain ⟨⟨op, phase, slot, src⟩, hc, hop⟩ := Option.map_eq_some'.1 hc
  cases hop
  exact ⟨cl, s, hcl, hs, save_answered_by_own_entry hcl hkeys hfit hs hc⟩

/-- A `Load` that left its read-index phase without an error waits for the read index the engine reported for
its own `ReadIndex` request. -/
theorem load_index_from_own_read_state {cl : Cluster} (hcl : ClusterReachable cl) (hkeys : cl.KeysDistinct)
    (hfit : cl.RequestsFit) {n c id index : Nat} {ready : Bool} {s : Replicator} {data : Bytes}
    {slot : Option InternalNexusResponse} {src : Option Source} (hs : cl.nodes[n]? = some s)
    (hc : s.calls c = some ⟨.load data, .applyWaiting id index ready, slot, src⟩) :
    ∃ rd ∈ s.readStates, index = rd.index % 2 ^ 64 ∧ rd.requestCtx = putUint64 id ∧
      ∃ k : Nat, s.requests[k]? = some (c, .readIndex rd.requestCtx) := by
  have hR := hcl.node s (List.getElem?_mem hs)
  obtain ⟨hsrc, ⟨res, htook, hidx⟩, -⟩ := (answerInv_of_reachable hR).calls c _ hc
  have hok := (slotInv_of_reachable hR).call_ok c
  rw [hc] at hok
  obtain ⟨hent, hrd, hown⟩ := Cluster.slot_source_own hcl hkeys hfit hs hc
  have hfilled : src.isSome := hok.1.2 (by rw [htook]; rfl)
  rcases src with _ | (e | rd | _)
  · cases hfilled
  · obtain ⟨-, -, -, -, -, term, index, hentry⟩ := hent e rfl
    cases hentry
  · obtain ⟨hmem, -, hv⟩ := hsrc
    obtain ⟨k, hk, hr⟩ := hrd rd rfl
    rw [htook, Option.some.injEq, InternalNexusResponse.mk.injEq] at hv
    rw [hv.1, uint64_putUint64, Option.some.injEq] at hidx
    simp only [Op.request, Request.readIndex.injEq] at hr
    exact ⟨rd, hmem, hidx.symm, hr.symm, k, hk⟩
  · exact (hown rfl).elim

/-- In `routingTrace`, node 1's `Load` waits for index 2, the index the engine reported for its `ReadIndex`. -/
theorem load_index_from_own_read_state_routed : ∃ cl s, ClusterReachable cl ∧ cl.nodes[0]? = some s ∧
    ∃ rd ∈ s.readStates, 2 = rd.index % 2 ^ 64 ∧ rd.requestCtx = putUint64 (2 ^ 48 + 2) ∧
      ∃ k : Nat, s.requests[k]? = some (1, .readIndex rd.requestCtx) := by
  obtain ⟨cl, hcl, hkeys, hfit, hcall⟩ := routingTrace_run (P := fun cl =>
    (cl.nodes[0]?.bind fun s => (s.calls 1).map fun call => (call.op, call.phase)) =
      some (.load [7], .applyWaiting (2 ^ 48 + 2) 2 true)) ⟨_, rfl, by decide⟩
  obtain ⟨s, hs, hc⟩ := Option.bind_eq_some.1 hcall
  obtain ⟨⟨op, phase, slot, src⟩, hc, hop⟩ := Option.map_eq_some'.1 hc
  cases hop
  exact ⟨cl, s, hcl, hs, load_index_from_own_read_state hcl hkeys hfit hs hc⟩

/-- A `proposeConfigChange` that returned what its slot received returned `nil`, and its node's `readCommits`
took the log entry of its own conf change. -/
theorem conf_change_answered_by_own_entry {cl : Cluster} (hcl : ClusterReachable cl) (hkeys : cl.KeysDistinct)
    (hfit : cl.RequestsFit) {n c id : Nat} {s : Replicator} {cc : ConfChange} {res : Bytes} {err : Option Error}
    {slot : Option InternalNexusResponse} {src : Option Source} (hs : cl.nodes[n]? = some s)
    (hc : s.calls c = some ⟨.confChange cc, .returned id res err .received, slot, src⟩) :
    err = none ∧ ∃ le ∈ cl.log, le.node = n ∧
      s.requests[le.request]? = some (c, .proposeConfChange { cc with id := id }) ∧ Commit.entry le.entry ∈ s.commits := by
  have hR := hcl.node s (List.getElem?_mem hs)
  obtain ⟨res', htook⟩ := ((answerInv_of_reachable hR).calls c _ hc).2.1
  subst htook
  exact Cluster.conf_slot_own_entry hcl hkeys hfit hs hc fun h => h

/-- In `routingTrace`, node 1's `AddMember` returns `nil` once node 1 took its own conf change. -/
theorem conf_change_answered_by_own_entry_routed : ∃ cl s, ClusterReachable cl ∧ cl.nodes[0]? = some s ∧
    ∃ le ∈ cl.log, le.node = 0 ∧ s.requests[le.request]? = some (2, .proposeConfChange
      ⟨1, confChangeAddNode, 3, some "http://127.0.0.1:9023".toUTF8.data.toList⟩) ∧
      Commit.entry le.entry ∈ s.commits := by
  obtain ⟨cl, hcl, hkeys, hfit, hcall⟩ := routingTrace_run (P := fun cl =>
    (cl.nodes[0]?.bind fun s => (s.calls 2).map fun call => (call.op, call.phase)) =
      some (.confChange ⟨0, confChangeAddNode, 3, some "http://127.0.0.1:9023".toUTF8.data.toList⟩,
        .returned 1 [] none .received)) ⟨_, rfl, by decide⟩
  obtain ⟨s, hs, hc⟩ := Option.bind_eq_some.1 hcall
  obtain ⟨⟨op, phase, slot, src⟩, hc, hop⟩ := Option.map_eq_some'.1 hc
  cases hop
  exact ⟨cl, s, hcl, hs, (conf_change_answered_by_own_entry hcl hkeys hfit hs hc).2⟩

/-! ### Conf changes on the wire -/

theorem addMemberChange_type {opts : Except Error NodeOptions} {dial : Option Error} {cc : ConfChange}
    (h : addMemberChange opts dial = .ok cc) : cc.type = confChangeAddNode := by
  unfold addMemberChange at h
  split at h
  · cases h
  · split at h <;> cases h; rfl

theorem removeMemberChange_type {opts : Except Error NodeOptions} {cc : ConfChange}
    (h : removeMemberChange opts = .ok cc) : cc.type = confChangeRemoveNode := by
  cases opts <;> cases h; rfl

/-- Every conf change a goroutine runs is one that `AddMember` or `RemoveMember` built: a `ConfChangeAddNode` or a
`ConfChangeRemoveNode`, so its `Type` survives the `int32` of the wire. -/
theorem Replicator.confChange_type_of_reachable {s : Replicator} (hs : Reachable s) {c : Nat} {call : Call}
    {cc : ConfChange} (hc : s.calls c = some call) (hop : call.op = .confChange cc) :
    cc.type = confChangeAddNode ∨ cc.type = confChangeRemoveNode := by
  induction hs generalizing c call with
  | init => cases hc
  | @step s₀ s₁ a hs₀ hstep ih =>
    cases hc₀ : s₀.calls c with
    | some call₀ =>
      have hev := (slotInv_of_reachable hs₀).step_evolves hstep c
      rw [hc₀, hc] at hev
      exact ih hc₀ (hev.1.symm.trans hop)
    | none =>
      -- goroutine `c` is new: the step started it with the operation it built
      have hnew : ∀ c₀ op, s₀.spawn c₀ op = some s₁ → call.op = op := fun c₀ op h => by
        obtain ⟨-, rfl⟩ := Replicator.spawn_some h
        by_cases hcc : c = c₀
        · subst hcc
          simp only [Function.update_same, Option.some.injEq] at hc
          rw [← hc]
        · simp [Function.update_noteq hcc, hc₀] at hc
      obtain ⟨-, h⟩ := Replicator.step_some hstep
      cases a with
      | save c₀ data => cases hop.symm.trans (hnew c₀ _ (by simpa only [Replicator.act] using h))
      | load c₀ data => cases hop.symm.trans (hnew c₀ _ (by simpa only [Replicator.act] using h))
      | addMember c₀ opts dial =>
        simp only [Replicator.act] at h
        split at h
        · rename_i cc₀ hb
          cases hop.symm.trans (hnew c₀ _ h)
          exact .inl (addMemberChange_type hb)
        · cases h; rw [hc₀] at hc; cases hc
      | removeMember c₀ opts =>
        simp only [Replicator.act] at h
        split at h
        · rename_i cc₀ hb
          cases hop.symm.trans (hnew c₀ _ h)
          exact .inr (removeMemberChange_type hb)
        · cases h; rw [hc₀] at hc; cases hc
      | _ =>
        rcases Replicator.step_spawn hstep with ⟨⟨⟩, -⟩ | ⟨-, -, -, hnone⟩
        rw [hnone c hc₀] at hc
        cases hc

/-- A membership change that returned `nil` is committed as its call built it: the log holds an `EntryConfChange`
of its node, which that node took, and whose data `ConfChange.Unmarshal` decodes, on every replica, to exactly the
`ConfChange` that `AddMember` or `RemoveMember` built, with the ID the call drew. -/
theorem conf_change_committed_as_built {cl : Cluster} (hcl : ClusterReachable cl) (hkeys : cl.KeysDistinct)
    (hfit : cl.RequestsFit) {n c id : Nat} {s : Replicator} {cc : ConfChange} {res : Bytes} {err : Option Error}
    {slot : Option InternalNexusResponse} {src : Option Source} (hs : cl.nodes[n]? = some s)
    (hc : s.calls c = some ⟨.confChange cc, .returned id res err .received, slot, src⟩) :
    ∃ le ∈ cl.log, le.node = n ∧ le.entry.type = .entryConfChange ∧
      unmarshalConfChange le.entry.data = some { cc with id := id } ∧ Commit.entry le.entry ∈ s.commits := by
  have hR := hcl.node s (List.getElem?_mem hs)
  obtain ⟨res', htook⟩ := ((answerInv_of_reachable hR).calls c _ hc).2.1
  subst htook
  obtain ⟨-, le, hle, hn, hk, htaken⟩ := Cluster.conf_slot_own_entry hcl hkeys hfit hs hc fun h => h
  -- the engine's entry for the request carries the marshalled `ConfChange`
  obtain ⟨term, index, he⟩ := Cluster.request_entry hcl hs hk hle hn rfl
  simp only [Request.entry, Option.some.injEq] at he
  -- which decodes back, each of its fields fitting its wire type
  obtain ⟨-, hnode, hctx⟩ : Request.Fits (.proposeConfChange { cc with id := id }) :=
    hfit s (List.getElem?_mem hs) _ (List.getElem?_mem hk)
  have htype : cc.type < 2 ^ 32 := by
    rcases Replicator.confChange_type_of_reachable hR hc rfl with h | h <;> rw [h] <;> decide
  refine ⟨le, hle, hn, by rw [← he], ?_, htaken⟩
  rw [← he]
  refine (unmarshalConfChange_marshalConfChange ((key_lt_of_reachable hR).2 c _ hc) hnode
    fun b (hb : cc.context = some b) => by simpa [hb] using hctx).trans ?_
  simp only [Nat.mod_eq_of_lt htype, Phase.id]

/-- In `routingTrace`, node 1's `AddMember` of node 3 returns `nil`, and the log holds the `ConfChangeAddNode` of
node 3 at its URL, with ID 1. -/
theorem conf_change_committed_as_built_routed : ∃ cl s, ClusterReachable cl ∧ cl.nodes[0]? = some s ∧
    ∃ le ∈ cl.log, le.node = 0 ∧ le.entry.type = .entryConfChange ∧
      unmarshalConfChange le.entry.data =
        some ⟨1, confChangeAddNode, 3, some "http://127.0.0.1:9023".toUTF8.data.toList⟩ ∧
      Commit.entry le.entry ∈ s.commits := by
  obtain ⟨cl, hcl, hkeys, hfit, hcall⟩ := routingTrace_run (P := fun cl =>
    (cl.nodes[0]?.bind fun s => (s.calls 2).map fun call => (call.op, call.phase)) =
      some (.confChange ⟨0, confChangeAddNode, 3, some "http://127.0.0.1:9023".toUTF8.data.toList⟩,
        .returned 1 [] none .received)) ⟨_, rfl, by decide⟩
  obtain ⟨s, hs, hc⟩ := Option.bind_eq_some.1 hcall
  obtain ⟨⟨op, phase, slot, src⟩, hc, hop⟩ := Option.map_eq_some'.1 hc
  cases hop
  exact ⟨cl, s, hcl, hs, conf_change_committed_as_built hcl hkeys hfit hs hc⟩

end Nexus
