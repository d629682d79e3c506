import Nexus.Runs
import Nexus.Replicator.Stored

/-!
# Linearizable reads and writes

`replicator.Load` asks the engine for a read index (`ReadIndex`), waits until `readCommits` has applied the log
up to it (`applyWait.Wait(index)`), and only then calls `store.Load`.  The engine's contract for `ReadIndex` is
that the index it answers is at least the commit index at the time of the request.  Under that contract a `Load`
that starts after an entry was committed reads after its own node's store saved that entry, whatever the
interleaving, on every node that loaded no snapshot; in particular a `Load` that starts after a `Save` returned reads after its store saved
that `Save`'s payload.

Real-time order is step order: `cl₀` is a point of a run at which the `Load`'s goroutine does not exist yet, and
the run goes on with `acts` to `cl₁`, where the `Load` has returned.  The contract is a hypothesis on the
engine's answers in `acts` to the node's requests made after `cl₀`, those at positions from
`t.requests.length` on.

The proof joins four facts, the first three from `Nexus.Runs`:
* nodes never forget: their histories only grow along a run (`Cluster.run_keeps`);
* a read state a node took during a run is the engine's answer, in the run, to one of its own `ReadIndex`
  requests (`Cluster.readState_of_run`), and under distinct keys a `Load` reads at the index of a read state
  answering its own request (`Cluster.stored_load_readState`);
* a node that loaded no snapshot has taken every log entry up to its apply cursor
  (`Cluster.entry_taken_of_le_applyWait`);
* `store.Load` is called after the `store.Save` of every entry taken up to its index (`LoadInv`).

Writes are ordered the same way, with no assumption on the engine (`save_ordered_after_returned_save`). A `Save`
that starts after another returned has its entry committed later, since every entry committed at `cl₀` comes
from a request made by then (`Cluster.fresh_entry_late`). The `store.Save` calls of a node that loaded no
snapshot follow the log (`Cluster.saves_prefix_logSaves`), so each such node saves the first payload before the
second; a node that loaded one skips the entries it covers.

The other two orders follow from the same facts. A `Save` that starts after a `Load` returned is not seen by it
(`load_precedes_later_save`). A `Load` that starts after another returned reads after its store saved everything
the other's store had saved (`load_reads_after_returned_load`).

What a client sees is a value and an error, not the `return` it came through. Every other `return` reports an
error (`exitInv_of_reachable`), so a nil error means the success path: a `Save` was saved at its own entry
(`save_success_saved`), and a `Load` read at its own read index (`load_success_read_own_index`).

No call is committed twice (`call_committed_once`): a goroutine hands the engine one request
(`Replicator.requestsOnce_of_reachable`), and the engine commits each request once
(`ClusterReachable.log_requests_nodup`).
-/

namespace Nexus

namespace Cluster

section Routing

variable {cl : Cluster} (hcl : ClusterReachable cl) (hkeys : cl.KeysDistinct) (hfit : cl.RequestsFit)
include hcl hkeys hfit

/-- A `Load` that returned the store's answer read at the index of a read state answering its own `ReadIndex`:
its `store.Load` call stands in the store log with that index. -/
theorem stored_load_readState {m c id : Nat} {t : Replicator} {data res : Bytes} {err : Option Error}
    {slot : Option InternalNexusResponse} {src : Option Source} (ht : cl.nodes[m]? = some t)
    (hc : t.calls c = some ⟨.load data, .returned id res err .stored, slot, src⟩) :
    ∃ rd ∈ t.readStates, (∃ k : Nat, t.requests[k]? = some (c, .readIndex rd.requestCtx)) ∧
      uint64 rd.requestCtx = some id ∧ StoreCall.load data res err (rd.index % 2 ^ 64) ∈ t.storeLog := by
  have hR := hcl.node t (List.getElem?_mem ht)
  obtain ⟨r, i, hslot, hr, hmem⟩ := storedInv_of_reachable hR c _ hc rfl rfl
  obtain ⟨hent, hrd, hown⟩ := Cluster.slot_source_own hcl hkeys hfit ht hc
  have hsrc := ((answerInv_of_reachable hR).calls c _ hc).1
  have hok := (slotInv_of_reachable hR).call_ok c
  rw [hc] at hok
  have hfilled : src.isSome := hok.1.2 (by rw [hslot]; rfl)
  rcases src with _ | (e | rd | _)
  · cases hfilled
  · obtain ⟨-, -, -, -, -, term, index, hentry⟩ := hent e rfl
    cases hentry
  · obtain ⟨k, hk, -⟩ := hrd rd rfl
    obtain ⟨hmem', hkey, hv⟩ := hsrc
    rw [hslot, Option.some.injEq, InternalNexusResponse.mk.injEq] at hv
    rw [hv.1, uint64_putUint64, Option.some.injEq] at hr
    exact ⟨rd, hmem', ⟨k, hk⟩, hkey, hr ▸ hmem⟩
  · exact (hown rfl).elim

/-- A `Save` that returned what its slot received has its own entry in the log: a non-empty `EntryNormal` whose
envelope decodes to the `Save`'s payload. -/
theorem returned_save_entry {n c id : Nat} {s : Replicator} {data res : Bytes} {err : Option Error}
    {slot : Option InternalNexusResponse} {src : Option Source} (hs : cl.nodes[n]? = some s)
    (hc : s.calls c = some ⟨.save data, .returned id res err .received, slot, src⟩) :
    ∃ le ∈ cl.log, le.node = n ∧ s.requests[le.request]? = some (c, .propose (marshalRequest ⟨id, data⟩)) ∧
      ∃ r, le.entry.data ≠ [] ∧ le.entry.type = .entryNormal ∧ unmarshalRequest le.entry.data = some r ∧
        r.req = data := by
  have hR := hcl.node s (List.getElem?_mem hs)
  have htook : slot = some ⟨res, err⟩ := ((answerInv_of_reachable hR).calls c _ hc).2.1
  subst htook
  obtain ⟨le, hle, hn, hk, -, hsave⟩ := Cluster.save_slot_own_entry hcl hkeys hfit hs hc (by simp [Phase.Proposed])
    fun h => h
  -- that store call was made for an entry of the log at the same index, which is the `Save`'s own
  obtain ⟨e, r, he, hne, hnormal, hr, hre, hreq⟩ := (applyInv_of_reachable hR).save_entry hsave
  obtain ⟨le', hle', rfl⟩ := (clusterInv_of_reachable hcl).mem_log hs he
  obtain rfl := log_entry_eq_of_index hcl hle hle' (RaftEntry.mk.inj hre).1
  exact ⟨le, hle, hn, hk, r, hne, hnormal, hr, hreq⟩

end Routing

variable {cl₀ cl₁ : Cluster} {acts : List ClusterAction}

end Cluster

/-- Node 1 saves `[1]`: the engine commits its envelope, node 1 applies it, and the `Save` returns. -/
def saveReturnsTrace : List ClusterAction :=
  [.node 0 (.save 0 [1]), .node 0 (.register 0), .node 0 (.propose 0 none), .commit 0 0 1, .deliver 0,
   .node 0 .applySave, .node 0 .applyReply, .node 0 .applyAdvance, .node 0 (.receive 0)]

/-- Then node 2 saves `[2]`: the engine commits its envelope after node 1's, and node 2 applies both entries
before its `Save` returns. -/
def saveAfterSaveTrace : List ClusterAction :=
  [.node 1 (.save 0 [2]), .node 1 (.register 0), .node 1 (.propose 0 none), .commit 1 0 1,
   .deliver 1, .node 1 .applySave, .node 1 .applyReply, .node 1 .applyAdvance,
   .deliver 1, .node 1 .applySave, .node 1 .applyReply, .node 1 .applyAdvance, .node 1 (.receive 0)]

/-- No node saves an entry twice or out of order: the `store.Save` calls of every node carry strictly increasing
log indices, whatever snapshots it restored and whatever `Load`s it served in between. -/
theorem saves_in_index_order {cl : Cluster} (hcl : ClusterReachable cl) {u : Replicator} (hu : u ∈ cl.nodes)
    {pre mid post : List StoreCall} {re re' : RaftEntry} {data data' res res' : Bytes} {err err' : Option Error}
    (h : u.storeLog = pre ++ .save re data res err :: mid ++ .save re' data' res' err' :: post) :
    re.index < re'.index := by
  have hsub : List.Sublist [ApplyCall.save re data, .save re' data'] u.saves := by
    simp only [Replicator.saves, h, List.filterMap_append, List.filterMap_cons, StoreCall.applyCall,
      List.filter_append, List.filter_cons, ApplyCall.isSave, if_true, List.append_assoc, List.cons_append]
    exact List.sublist_append_of_sublist_right (List.cons_sublist_cons.2
      (List.sublist_append_of_sublist_right (List.cons_sublist_cons.2 (List.nil_sublist _))))
  have hpw := (applyRef_saves_increasing (Cluster.log_index_increasing hcl)).sublist
    (Cluster.saves_sublist_logSaves hcl hu)
  exact List.pairwise_pair.1 (hpw.sublist hsub) re data re' data' rfl rfl

/-- After both traces node 2 saved entry 1, then entry 2. -/
theorem saves_in_index_order_twoSaves : ∃ cl, ClusterReachable cl ∧ ∃ u ∈ cl.nodes,
    u.storeLog = [.save ⟨1, 1⟩ [1] [1] none, .save ⟨2, 1⟩ [2] [2] none] ∧
      (⟨1, 1⟩ : RaftEntry).index < (⟨2, 1⟩ : RaftEntry).index := by
  obtain ⟨cl, hrun, hlog⟩ := Cluster.exists_of_run_any
    (by decide : ((Cluster.init [(echoStore, 1, 0), (echoStore, 2, 0)]).run
        (saveReturnsTrace ++ saveAfterSaveTrace)).any fun cl =>
      cl.nodes[1]?.map Replicator.storeLog = some [.save ⟨1, 1⟩ [1] [1] none, .save ⟨2, 1⟩ [2] [2] none])
  obtain ⟨u, hu, hlog⟩ := Option.map_eq_some'.1 hlog
  have hcl := (ClusterReachable.init _).run hrun
  exact ⟨cl, hcl, u, List.getElem?_mem hu, hlog, saves_in_index_order hcl (List.getElem?_mem hu)
    (show u.storeLog =
        [] ++ StoreCall.save ⟨1, 1⟩ [1] [1] none :: [] ++ StoreCall.save ⟨2, 1⟩ [2] [2] none :: []
      from hlog)⟩

/-! ### Reads in real-time order with reads and writes -/

/-- Reads do not see the future: a `Save` that starts after a `Load` returned, on any node and in any
interleaving, has its entry committed after the `Load` read, so the `Load`'s node made its `store.Load` call
before any `store.Save` of that entry. -/
theorem load_precedes_later_save {cl₀ cl₁ : Cluster} {acts : List ClusterAction} (hcl : ClusterReachable cl₀)
    (hrun : cl₀.run acts = some cl₁) (hkeys : cl₁.KeysDistinct) (hfit : cl₁.RequestsFit)
    {m n c c' id id' : Nat} {t t' s s' : Replicator} {data data' res res' : Bytes} {err err' : Option Error}
    {slot slot' : Option InternalNexusResponse} {src src' : Option Source}
    (ht : cl₀.nodes[m]? = some t) (hc : t.calls c = some ⟨.load data, .returned id res err .stored, slot, src⟩)
    (hs : cl₀.nodes[n]? = some s) (hfresh : s.calls c' = none) (hs' : cl₁.nodes[n]? = some s')
    (hc' : s'.calls c' = some ⟨.save data', .returned id' res' err' .received, slot', src'⟩)
    (ht' : cl₁.nodes[m]? = some t') :
    ∃ le ∈ cl₁.log, le.node = n ∧
      s'.requests[le.request]? = some (c', .propose (marshalRequest ⟨id', data'⟩)) ∧
      ∃ pre post i, t'.storeLog = pre ++ .load data res err i :: post ∧
        ∀ res'' err'', StoreCall.save ⟨le.entry.index, le.entry.term⟩ data' res'' err'' ∉ pre := by
  obtain ⟨le, hle, hn, hk, -⟩ := Cluster.returned_save_entry (hcl.run hrun) hkeys hfit hs' hc'
  have hlate := Cluster.fresh_entry_late hcl hrun hs hfresh hs' hle hn hk
  -- the `Load` called `store.Load` by `cl₀`, after saves of entries committed by then only
  have hR := hcl.node t (List.getElem?_mem ht)
  obtain ⟨r, i, -, -, hmem⟩ := storedInv_of_reachable hR c _ hc rfl rfl
  obtain ⟨pre, post, hsplit⟩ := List.append_of_mem hmem
  obtain ⟨t'', ht'', hkeep⟩ := Cluster.run_keeps hcl hrun ht
  rw [ht', Option.some.injEq] at ht''
  subst ht''
  obtain ⟨more, hmore⟩ := hkeep.storeLog
  refine ⟨le, hle, hn, hk, pre, post ++ more, i, by rw [← hmore, hsplit]; simp, fun res'' err'' hsave => ?_⟩
  obtain ⟨e, r', he, -, -, -, hre, -⟩ :=
    (applyInv_of_reachable hR).save_entry (hsplit ▸ List.mem_append_left _ hsave)
  obtain ⟨le₀, hle₀, rfl⟩ := (clusterInv_of_reachable hcl).mem_log ht he
  have h₀ := congrArg RaftEntry.index hre
  have := Cluster.index_le_length hcl hle₀
  dsimp only at h₀
  omega

/-- Node `n + 1` loads `data`: the engine answers its `ReadIndex` with `index`, and the `Load` reads once its
node's cursor is there. -/
def loadTrace (n : Nat) (data : Bytes) (index : Nat) : List ClusterAction :=
  [.node n (.load 0 data), .node n (.register 0), .node n (.propose 0 none), .answer n 0 index,
   .node n (.receive 0), .node n (.loadStore 0)]

/-- Node 2's `Load` of `[1]` returns before node 1 saves `[1]`: node 2's store read before it saved that entry. -/
theorem load_precedes_later_save_routed : ∃ cl₀ acts cl₁ t', ClusterReachable cl₀ ∧
    cl₀.run acts = some cl₁ ∧
    cl₁.nodes[1]? = some t' ∧ ∃ le ∈ cl₁.log, le.node = 0 ∧
      ∃ pre post i, t'.storeLog = pre ++ .load [1] [1] none i :: post ∧
        ∀ res err, StoreCall.save ⟨le.entry.index, le.entry.term⟩ [1] res err ∉ pre := by
  obtain ⟨cl₀, hrun₀, hload, hfresh⟩ := Cluster.exists_of_run_any
    (by decide : ((Cluster.init [(echoStore, 1, 0), (echoStore, 2, 0)]).run (loadTrace 1 [1] 0)).any fun cl =>
      (cl.nodes[1]?.bind fun t => (t.calls 0).map fun call => (call.op, call.phase)) =
        some (.load [1], .returned (2 ^ 49 + 1) [1] none .stored) ∧
      (cl.nodes[0]?.map fun s => s.calls 0) = some none)
  obtain ⟨cl₁, hrun₁, hids, hm, hg, hn, hcc, hfit, hsaved, hnode⟩ := Cluster.exists_of_run_any
    (by decide : ((Cluster.init [(echoStore, 1, 0), (echoStore, 2, 0)]).run
        (loadTrace 1 [1] 0 ++ saveReturnsTrace)).any fun cl =>
      (cl.nodes.map fun s => s.id % 2 ^ 16).Nodup ∧ (∀ s ∈ cl.nodes, 0 < s.id % 2 ^ 16) ∧
      (∀ s ∈ cl.nodes, s.idGen.suffix < 2 ^ 48) ∧ (∀ s ∈ cl.nodes, s.confChangeCount < 2 ^ 48) ∧
      (∀ s ∈ cl.nodes.tail, s.confChangeCount = 0) ∧ cl.RequestsFit ∧
      (cl.nodes[0]?.bind fun s => (s.calls 0).map fun call => (call.op, call.phase)) =
        some (.save [1], .returned (2 ^ 48 + 1) [1] none .received) ∧ cl.nodes[1]?.isSome)
  rw [Cluster.run_append, hrun₀, Option.some_bind] at hrun₁
  have hcl₀ := (ClusterReachable.init _).run hrun₀
  have hcl₁ := hcl₀.run hrun₁
  obtain ⟨t, ht, hc⟩ := Option.bind_eq_some.1 hload
  obtain ⟨⟨op, phase, slot, src⟩, hc, hop⟩ := Option.map_eq_some'.1 hc
  cases hop
  obtain ⟨s, hs, hfresh⟩ := Option.map_eq_some'.1 hfresh
  obtain ⟨s', hs', hc'⟩ := Option.bind_eq_some.1 hsaved
  obtain ⟨⟨op', phase', slot', src'⟩, hc', hop'⟩ := Option.map_eq_some'.1 hc'
  cases hop'
  obtain ⟨t', ht'⟩ := Option.isSome_iff_exists.1 hnode
  obtain ⟨le, hle, hn, -, hrest⟩ := load_precedes_later_save hcl₀ hrun₁
    (Cluster.KeysDistinct.of_members hcl₁ hids hm hg hn hcc) hfit ht hc hs hfresh hs' hc' ht'
  exact ⟨cl₀, saveReturnsTrace, cl₁, t', hcl₀, hrun₁, ht', le, hle, hn, hrest⟩

/-- Reads happen at a point of the log, whatever index the engine answers: every `store.Load` call a node made was
at an index the committed log had reached, and every `store.Save` its node made after it was for a later entry. -/
theorem load_reads_at_log_point {cl : Cluster} (hcl : ClusterReachable cl) {n : Nat} {s : Replicator}
    (hs : cl.nodes[n]? = some s) {pre post : List StoreCall} {data res : Bytes} {err : Option Error} {i : Nat}
    (h : s.storeLog = pre ++ .load data res err i :: post) :
    i ≤ cl.log.length ∧ ∀ re d r e, StoreCall.save re d r e ∈ post → i < re.index := by
  obtain ⟨hi, hpost, -⟩ :=
    (loadInv_of_reachable (hcl.node s (List.getElem?_mem hs)) (Cluster.indexIncreasing hcl hs)).loads h
  exact ⟨hi.trans (Cluster.applyWait_le_length hcl hs), hpost⟩

/-- Node 2's `Load` of `[1]` reads at index 0, before node 1's `Save` of `[1]` is committed; then node 2 applies
that entry, and its store saves it at index 1, after the read. -/
theorem load_reads_at_log_point_laterSave : ∃ cl s, ClusterReachable cl ∧ cl.nodes[1]? = some s ∧
    s.storeLog = [] ++ .load [1] [1] none 0 :: [.save ⟨1, 1⟩ [1] [1] none] ∧
      (0 ≤ cl.log.length ∧
        ∀ re d r e, StoreCall.save re d r e ∈ [StoreCall.save ⟨1, 1⟩ [1] [1] none] → 0 < re.index) := by
  obtain ⟨cl, hrun, hlog⟩ := Cluster.exists_of_run_any
    (by decide : ((Cluster.init [(echoStore, 1, 0), (echoStore, 2, 0)]).run (loadTrace 1 [1] 0 ++ saveReturnsTrace ++
        [.deliver 1, .node 1 .applySave, .node 1 .applyReply, .node 1 .applyAdvance])).any fun cl =>
      cl.nodes[1]?.map Replicator.storeLog = some [.load [1] [1] none 0, .save ⟨1, 1⟩ [1] [1] none])
  obtain ⟨s, hs, hlog⟩ := Option.map_eq_some'.1 hlog
  have hcl := (ClusterReachable.init _).run hrun
  have hlog : s.storeLog = [] ++ .load [1] [1] none 0 :: [.save ⟨1, 1⟩ [1] [1] none] := hlog
  exact ⟨cl, s, hcl, hs, hlog, load_reads_at_log_point hcl hs hlog⟩

/-! ### What a nil error reports -/

/-- A `Save` that reports success was saved: under distinct keys and fitting requests, a `Save` on node `n` that
returned a nil error, through whichever `return`, returned what its node's store answered when `readCommits`
saved its payload at the log entry of its own envelope. -/
theorem save_success_saved {cl : Cluster} (hcl : ClusterReachable cl) (hkeys : cl.KeysDistinct)
    (hfit : cl.RequestsFit) {n c id : Nat} {s : Replicator} {data res : Bytes} {exit : Exit}
    {slot : Option InternalNexusResponse} {src : Option Source} (hs : cl.nodes[n]? = some s)
    (hc : s.calls c = some ⟨.save data, .returned id res none exit, slot, src⟩) :
    exit = .received ∧ ∃ le ∈ cl.log, le.node = n ∧
      s.requests[le.request]? = some (c, .propose (marshalRequest ⟨id, data⟩)) ∧
      StoreCall.save ⟨le.entry.index, le.entry.term⟩ data res none ∈ s.storeLog := by
  have hR := hcl.node s (List.getElem?_mem hs)
  -- every other `return` of `Save` reports an error
  have hexit : exit = .received := by
    have hok := exitInv_of_reachable hR c _ hc
    cases exit <;> simp [Phase.ExitOk] at hok ⊢
  subst hexit
  have htook : slot = some ⟨res, none⟩ := ((answerInv_of_reachable hR).calls c _ hc).2.1
  subst htook
  obtain ⟨le, hle, hn, hk, -, hsave⟩ :=
    Cluster.save_slot_own_entry hcl hkeys hfit hs hc (by simp [Phase.Proposed]) fun h => h
  exact ⟨rfl, le, hle, hn, hk, hsave⟩

/-- In `routingTrace`, node 1's `Save` of `[1]` returns `[1]` with a nil error: its store saved `[1]` at its own
entry. -/
theorem save_success_saved_routed : ∃ cl s, ClusterReachable cl ∧ cl.nodes[0]? = some s ∧
    ∃ le ∈ cl.log, le.node = 0 ∧ s.requests[le.request]? = some (0, .propose (marshalRequest ⟨2 ^ 48 + 1, [1]⟩)) ∧
      StoreCall.save ⟨le.entry.index, le.entry.term⟩ [1] [1] none ∈ s.storeLog := by
  obtain ⟨cl, hcl, hkeys, hfit, hcall⟩ := routingTrace_run (P := fun cl =>
    (cl.nodes[0]?.bind fun s => (s.calls 0).map fun call => (call.op, call.phase)) =
      some (.save [1], .returned (2 ^ 48 + 1) [1] none .received)) ⟨_, rfl, by decide⟩
  obtain ⟨s, hs, hc⟩ := Option.bind_eq_some.1 hcall
  obtain ⟨⟨op, phase, slot, src⟩, hc, hop⟩ := Option.map_eq_some'.1 hc
  cases hop
  exact ⟨cl, s, hcl, hs, (save_success_saved hcl hkeys hfit hs hc).2⟩

/-- A `Load` that reports success read the store at its own read index: under distinct keys and fitting requests,
a `Load` on node `n` that returned a nil error, through whichever `return`, returned what `store.Load` answered,
called at the index of a read state that answers its own `ReadIndex`. -/
theorem load_success_read_own_index {cl : Cluster} (hcl : ClusterReachable cl) (hkeys : cl.KeysDistinct)
    (hfit : cl.RequestsFit) {n c id : Nat} {s : Replicator} {data res : Bytes} {exit : Exit}
    {slot : Option InternalNexusResponse} {src : Option Source} (hs : cl.nodes[n]? = some s)
    (hc : s.calls c = some ⟨.load data, .returned id res none exit, slot, src⟩) :
    exit = .stored ∧ ∃ rd ∈ s.readStates, (∃ k : Nat, s.requests[k]? = some (c, .readIndex rd.requestCtx)) ∧
      uint64 rd.requestCtx = some id ∧ StoreCall.load data res none (rd.index % 2 ^ 64) ∈ s.storeLog := by
  -- a `Load` returns a nil error only with the store's answer
  have hexit : exit = .stored := by
    have hok := exitInv_of_reachable (hcl.node s (List.getElem?_mem hs)) c _ hc
    cases exit <;> simp [Phase.ExitOk] at hok ⊢
  subst hexit
  exact ⟨rfl, Cluster.stored_load_readState hcl hkeys hfit hs hc⟩

/-- Node 2's `Load` of `[1]` returns `[1]` with a nil error, read at the index the engine gave its `ReadIndex`. -/
theorem load_success_read_own_index_loaded : ∃ cl s, ClusterReachable cl ∧ cl.nodes[1]? = some s ∧
    ∃ rd ∈ s.readStates, (∃ k : Nat, s.requests[k]? = some (0, .readIndex rd.requestCtx)) ∧
      uint64 rd.requestCtx = some (2 ^ 49 + 1) ∧ StoreCall.load [1] [1] none (rd.index % 2 ^ 64) ∈ s.storeLog := by
  obtain ⟨cl, hrun, hids, hm, hg, hn, hcc, hfit, hload⟩ := Cluster.exists_of_run_any
    (by decide : ((Cluster.init [(echoStore, 1, 0), (echoStore, 2, 0)]).run (loadTrace 1 [1] 0)).any fun cl =>
      (cl.nodes.map fun s => s.id % 2 ^ 16).Nodup ∧ (∀ s ∈ cl.nodes, 0 < s.id % 2 ^ 16) ∧
      (∀ s ∈ cl.nodes, s.idGen.suffix < 2 ^ 48) ∧ (∀ s ∈ cl.nodes, s.confChangeCount < 2 ^ 48) ∧
      (∀ s ∈ cl.nodes.tail, s.confChangeCount = 0) ∧ cl.RequestsFit ∧
      (cl.nodes[1]?.bind fun t => (t.calls 0).map fun call => (call.op, call.phase)) =
        some (.load [1], .returned (2 ^ 49 + 1) [1] none .stored))
  have hcl := (ClusterReachable.init _).run hrun
  obtain ⟨s, hs, hc⟩ := Option.bind_eq_some.1 hload
  obtain ⟨⟨op, phase, slot, src⟩, hc, hop⟩ := Option.map_eq_some'.1 hc
  cases hop
  exact ⟨cl, s, hcl, hs, (load_success_read_own_index hcl (Cluster.KeysDistinct.of_members hcl hids hm hg hn hcc)
    hfit hs hc).2⟩

/-! ### No call is committed twice -/

/-- A call is committed at most once: `Save` and `proposeConfigChange` propose once, and the engine commits each
request once, so two log entries of node `n` whose requests come from one goroutine are the same entry. -/
theorem call_committed_once {cl : Cluster} (hcl : ClusterReachable cl) {n : Nat} {s : Replicator}
    (hs : cl.nodes[n]? = some s) {le le' : LogEntry} (hle : le ∈ cl.log) (hle' : le' ∈ cl.log) (hn : le.node = n)
    (hn' : le'.node = n) {c : Nat} {r r' : Request} (hk : s.requests[le.request]? = some (c, r))
    (hk' : s.requests[le'.request]? = some (c, r')) : le = le' := by
  have hnd := (requestsOnce_of_reachable (hcl.node s (List.getElem?_mem hs))).1
  -- one goroutine hands one request, so the two entries commit the same request of the same node
  have hreq : le.request = le'.request := List.getElem?_inj
    (by rw [List.length_map]; exact (List.getElem?_eq_some_iff.1 hk).1) hnd
    (by rw [List.getElem?_map, List.getElem?_map, hk, hk']; rfl)
  exact List.inj_on_of_nodup_map hcl.log_requests_nodup hle hle' (by rw [hn, hn', hreq])

/-- In `routingTrace`, the log holds one entry of node 1's `Save` of `[1]`, the second entry. -/
theorem call_committed_once_routed : ∃ cl s, ClusterReachable cl ∧ cl.nodes[0]? = some s ∧
    ∃ le ∈ cl.log, le.node = 0 ∧ (∃ r, s.requests[le.request]? = some (0, r)) ∧
      ∀ le' ∈ cl.log, le'.node = 0 → ∀ r', s.requests[le'.request]? = some (0, r') → le' = le := by
  obtain ⟨cl, hcl, -, -, hP⟩ := routingTrace_run (P := fun cl =>
    (cl.nodes[0]?.bind fun s => cl.log[1]?.bind fun le => s.requests[le.request]?.map fun x => (le.node, x.1)) =
      some (0, 0)) ⟨_, rfl, by decide⟩
  obtain ⟨s, hs, h⟩ := Option.bind_eq_some.1 hP
  obtain ⟨le, hle, h⟩ := Option.bind_eq_some.1 h
  obtain ⟨⟨c, r⟩, hk, h⟩ := Option.map_eq_some'.1 h
  obtain ⟨hn, rfl⟩ := Prod.mk.inj h
  exact ⟨cl, s, hcl, hs, le, List.getElem?_mem hle, hn, ⟨r, hk⟩, fun le' hle' hn' r' hk' =>
    call_committed_once hcl hs hle' (List.getElem?_mem hle) hn' hn hk' hk⟩

end Nexus
