import Mathlib.Data.List.Nodup
import Nexus.Replicator.Apply
import Nexus.Cluster

/-!
# The committed log and what the nodes take from it

`ClusterInv` records what the engine did in every reachable cluster (`clusterInv_of_reachable`): the entries a
node's `readCommits` took are, in order, some of the log's entries up to the node's applied index; a node that
restored no snapshot took exactly the first ones, all of them up to that index while it lives; every log entry is
the entry of the request it came from; every read state a node took answers one of its own `ReadIndex` requests.

With `apply_calls_ref` on each node this is replication: every node's `store.Save` calls are, in order, some of
those the committed log asks for, each saved once, and a node that restored no snapshot made the first of them;
so of any two such nodes, one has made a prefix of the other's `Save` calls (`replicas_saves_follow_log`).  This
holds whatever the waiter does with the answers, in the runs of `Nexus.Cluster` too.
-/

namespace Nexus

/-- What the engine did: every node's applied index is within the log, the entries a node took are log entries up
to it in order, and those of a node that restored no snapshot are the log's first ones, as many as the index while
the node lives; every log entry is the entry of the request it came from, and every read state a node took answers
one of its `ReadIndex` requests. -/
structure ClusterInv (cl : Cluster) : Prop where
  applied_le : ∀ n, cl.applied n ≤ cl.log.length
  taken : ∀ (n : Nat) (s : Replicator), cl.nodes[n]? = some s →
    s.entries.Sublist ((cl.log.take (cl.applied n)).map LogEntry.entry)
  takenFirst : ∀ (n : Nat) (s : Replicator), cl.nodes[n]? = some s → s.loadedSnapshot = false →
    s.entries <+: cl.log.map LogEntry.entry
  takenAll : ∀ (n : Nat) (s : Replicator), cl.nodes[n]? = some s → s.crash = none → s.loadedSnapshot = false →
    s.taken = cl.applied n
  origin : ∀ le ∈ cl.log, ∃ (s : Replicator) (c : Nat) (r : Request) (term index : Nat),
    cl.nodes[le.node]? = some s ∧ s.requests[le.request]? = some (c, r) ∧ r.entry term index = some le.entry
  answered : ∀ (n : Nat) (s : Replicator) (rd : ReadState), cl.nodes[n]? = some s → rd ∈ s.readStates →
    ∃ k c : Nat, s.requests[k]? = some (c, .readIndex rd.requestCtx)

theorem getElem?_of_prefix_of_getElem? {α : Type} {l l' : List α} (h : l <+: l') {k : Nat} {x : α} (hk : l[k]? = some x) :
    l'[k]? = some x := by
  obtain ⟨t, rfl⟩ := h
  rw [List.getElem?_append_left (List.getElem?_eq_some_iff.1 hk).1]
  exact hk

/-- After node `n` stepped to `s'`, node `m` is `s'` if it is `n`, and as it was otherwise. -/
theorem getElem?_set_node {nodes : List Replicator} {n m : Nat} {s s' t : Replicator} (hs : nodes[n]? = some s)
    (ht : (nodes.set n s')[m]? = some t) : m = n ∧ t = s' ∨ m ≠ n ∧ nodes[m]? = some t := by
  rw [List.getElem?_set'] at ht
  split at ht
  · subst_vars
    rw [hs] at ht
    exact .inl ⟨rfl, (Option.some.inj ht).symm⟩
  · exact .inr ⟨Ne.symm ‹_›, ht⟩

theorem Action.taken_of_fromEngine {a : Action} (h : a.fromEngine = false) : a.taken = [] := by
  cases a <;> first | rfl | cases h

theorem Replicator.entries_of_commits {s s' : Replicator} {more : List Commit} (h : s'.commits = s.commits ++ more) :
    s'.entries = s.entries ++ more.filterMap Commit.entry? := by
  rw [Replicator.entries, h, List.filterMap_append]; rfl

theorem Replicator.loadedSnapshot_of_commits {s s' : Replicator} {more : List Commit}
    (h : s'.commits = s.commits ++ more) : s'.loadedSnapshot = (s.loadedSnapshot || more.any Commit.isSnapshot) := by
  rw [Replicator.loadedSnapshot, h, List.any_append]; rfl

namespace ClusterInv

variable {cl cl' : Cluster}

/-- A live node that restored no snapshot took exactly the log's entries up to its applied index. -/
theorem entries_eq (hI : ClusterInv cl) {n : Nat} {s : Replicator} (hs : cl.nodes[n]? = some s)
    (hcrash : s.crash = none) (hsnap : s.loadedSnapshot = false) :
    s.entries = (cl.log.take (cl.applied n)).map LogEntry.entry :=
  (hI.taken n s hs).eq_of_length (by
    rw [List.length_map, List.length_take, Nat.min_eq_left (hI.applied_le n)]
    exact hI.takenAll n s hs hcrash hsnap)

/-- Every entry a node took is in the log. -/
theorem mem_log (hI : ClusterInv cl) {n : Nat} {s : Replicator} {e : Entry} (hs : cl.nodes[n]? = some s)
    (he : Commit.entry e ∈ s.commits) : ∃ le ∈ cl.log, le.entry = e := by
  obtain ⟨le, hle, rfl⟩ := List.mem_map.1 ((hI.taken n s hs).subset (List.mem_filterMap.2 ⟨_, he, rfl⟩))
  exact ⟨le, List.mem_of_mem_take hle, rfl⟩

theorem init (nodes : List (Store × Nat × Nat)) : ClusterInv (Cluster.init nodes) := by
  have hfresh : ∀ (n : Nat) (s : Replicator), (Cluster.init nodes).nodes[n]? = some s →
      s.commits = [] ∧ s.readStates = [] :=
    fun n s hs => by
      obtain ⟨⟨store, id, now⟩, -, rfl⟩ := List.mem_map.1 (List.getElem?_mem hs)
      exact ⟨rfl, rfl⟩
  refine ⟨fun _ => Nat.zero_le _, fun n s hs => ?_, fun n s hs _ => ?_, fun n s hs _ _ => ?_, (fun _ h => by cases h),
    fun n s rd hs hrd => ?_⟩
  · simp [Replicator.entries, (hfresh n s hs).1]
  · simp [Replicator.entries, (hfresh n s hs).1]
  · simp [Replicator.taken, Replicator.entries, (hfresh n s hs).1, Cluster.init]
  · rw [(hfresh n s hs).2] at hrd
    cases hrd

/-- Node `n` takes a step `b` and the engine leaves it at position `j` of the log: `readCommits` took only log
entries up to `j`, the first ones if the node restored no snapshot, all `j` of them while it lives; and
`readReadStates` only answers to the node's own `ReadIndex` requests. -/
theorem update (hI : ClusterInv cl) {n j : Nat} {s s' : Replicator} {b : Action} (hs : cl.nodes[n]? = some s)
    (hb : s.step b = some s') (hj : j ≤ cl.log.length)
    (htaken : s'.entries.Sublist ((cl.log.take j).map LogEntry.entry))
    (hfirst : s'.loadedSnapshot = false → s'.entries <+: cl.log.map LogEntry.entry)
    (hall : s'.crash = none → s'.loadedSnapshot = false → s'.taken = j)
    (hrd : ∀ rd ∈ b.readStatesTaken, ∃ k c : Nat, s.requests[k]? = some (c, .readIndex rd.requestCtx)) :
    ClusterInv { cl with nodes := cl.nodes.set n s', applied := Function.update cl.applied n j } := by
  have hl := Replicator.step_logs hb
  have hq := hl.requests_prefix
  have hn : (cl.nodes.set n s')[n]? = some s' := by
    rw [List.getElem?_set_self (List.getElem?_eq_some_iff.1 hs).1]
  -- every node but `n` is as it was, at the same position
  have hother : ∀ {m t}, (cl.nodes.set n s')[m]? = some t → m = n ∧ t = s' ∨
      cl.nodes[m]? = some t ∧ Function.update cl.applied n j m = cl.applied m := fun ht =>
    (getElem?_set_node hs ht).imp_right fun ⟨hm, ht⟩ => ⟨ht, Function.update_noteq hm _ _⟩
  refine ⟨fun m => ?_, fun m t ht => ?_, fun m t ht => ?_, fun m t ht => ?_, fun le hle => ?_,
    fun m t rd ht hrd' => ?_⟩
  · by_cases hm : m = n
    · subst hm; simpa using hj
    · simpa [hm] using hI.applied_le m
  · rcases hother ht with ⟨rfl, rfl⟩ | ⟨ht, hm⟩
    · simpa using htaken
    · dsimp only; rw [hm]; exact hI.taken m t ht
  · rcases hother ht with ⟨rfl, rfl⟩ | ⟨ht, -⟩
    · exact hfirst
    · exact hI.takenFirst m t ht
  · rcases hother ht with ⟨rfl, rfl⟩ | ⟨ht, hm⟩
    · simpa using hall
    · dsimp only; rw [hm]; exact hI.takenAll m t ht
  · obtain ⟨t, c, r, term, index, ht, hk, he⟩ := hI.origin le hle
    by_cases hm : le.node = n
    · rw [hm] at ht ⊢
      rw [hs] at ht; cases ht
      exact ⟨s', c, r, term, index, hn, getElem?_of_prefix_of_getElem? hq hk, he⟩
    · exact ⟨t, c, r, term, index, by rw [List.getElem?_set_ne (Ne.symm hm)]; exact ht, hk, he⟩
  · rcases getElem?_set_node hs ht with ⟨rfl, rfl⟩ | ⟨-, ht⟩
    · have hold : rd ∈ s.readStates ∨ rd ∈ b.readStatesTaken := by
        rcases hl.readStates with hr | hr <;> rw [hr] at hrd'
        · exact .inl hrd'
        · exact List.mem_append.1 hrd'
      obtain ⟨k, c, hk⟩ := hold.elim (hI.answered m s rd hs) (hrd rd)
      exact ⟨k, c, getElem?_of_prefix_of_getElem? hq hk⟩
    · exact hI.answered m t rd ht hrd'

/-- Node `n` takes a step that takes nothing from `commitC`, and stays where it is in the log. -/
theorem update_quiet (hI : ClusterInv cl) {n : Nat} {s s' : Replicator} {b : Action} (hs : cl.nodes[n]? = some s)
    (hb : s.step b = some s') (hc : s'.commits = s.commits)
    (hrd : ∀ rd ∈ b.readStatesTaken, ∃ k c : Nat, s.requests[k]? = some (c, .readIndex rd.requestCtx)) :
    ClusterInv { cl with nodes := cl.nodes.set n s' } := by
  have hent : s'.entries = s.entries := by rw [Replicator.entries, hc]; rfl
  have hsnap : s'.loadedSnapshot = s.loadedSnapshot := by rw [Replicator.loadedSnapshot, hc]; rfl
  have h := hI.update (j := cl.applied n) hs hb (hI.applied_le n) (hent ▸ hI.taken n s hs)
    (fun h => hent ▸ hI.takenFirst n s hs (hsnap ▸ h))
    (fun _ h => by rw [Replicator.taken, hent]; exact hI.takenAll n s hs (Replicator.step_some hb).1 (hsnap ▸ h)) hrd
  rwa [Function.update_eq_self] at h

theorem step (hI : ClusterInv cl) {a : ClusterAction} (h : cl.step a = some cl') : ClusterInv cl' := by
  cases a with
  | node n a =>
    simp only [Cluster.step] at h
    split at h
    · cases h
    · rename_i hfe
      obtain ⟨s, s', hs, hb, rfl⟩ := Cluster.update_some h
      refine hI.update_quiet hs hb ?_ (fun rd hrd => ?_)
      · rcases Replicator.step_commits hb with hc | hc
        · rw [hc, Action.taken_of_fromEngine (Bool.eq_false_iff.2 hfe), List.append_nil]
        · exact hc.1
      · cases a <;> first | exact absurd rfl hfe | cases hrd
  | commit n k term =>
    simp only [Cluster.step, Option.bind_eq_bind, Option.bind_eq_some] at h
    obtain ⟨s, hs, ⟨c, r⟩, hk, h⟩ := h
    split at h
    · cases h
    · obtain ⟨e, he, h⟩ := Option.bind_eq_some.1 h
      cases h
      refine ⟨fun m => (hI.applied_le m).trans (by simp), fun m t ht => ?_, fun m t ht hsnap => ?_, hI.takenAll,
        fun le hle => ?_, hI.answered⟩
      · simpa [List.take_append_of_le_length (hI.applied_le m)] using hI.taken m t ht
      · rw [List.map_append]
        exact (hI.takenFirst m t ht hsnap).trans (List.prefix_append _ _)
      · rcases List.mem_append.1 hle with hle | hle
        · exact hI.origin le hle
        · rw [List.mem_singleton.1 hle]
          exact ⟨s, c, r, term, _, hs, hk, he⟩
  | deliver n =>
    simp only [Cluster.step, Option.bind_eq_bind, Option.bind_eq_some, Option.some.injEq] at h
    obtain ⟨le, hle, cl₁, hu, rfl⟩ := h
    obtain ⟨s, s', hs, hb, rfl⟩ := Cluster.update_some hu
    have hlt : cl.applied n < cl.log.length := (List.getElem?_eq_some_iff.1 hle).1
    have hcrash := (Replicator.step_some hb).1
    rcases Replicator.step_commits hb with hc | ⟨hc, hdead⟩
    · -- the node took the next entry of the log
      have hent : s'.entries = s.entries ++ [le.entry] := Replicator.entries_of_commits hc
      have hsnap : s'.loadedSnapshot = s.loadedSnapshot := by
        simp [Replicator.loadedSnapshot_of_commits hc, Action.taken, Commit.isSnapshot]
      have htake : (cl.log.take (cl.applied n + 1)).map LogEntry.entry =
          (cl.log.take (cl.applied n)).map LogEntry.entry ++ [le.entry] := by
        rw [List.take_succ, hle]; simp
      refine hI.update hs hb hlt (by rw [hent, htake]; exact (hI.taken n s hs).append_right _) (fun h => ?_)
        (fun _ h => ?_) (fun rd hrd => by cases hrd)
      · rw [hent, hI.entries_eq hs hcrash (hsnap ▸ h), ← htake]
        exact (List.take_prefix _ _).map _
      · rw [Replicator.taken, hent, List.length_append, ← Replicator.taken, hI.takenAll n s hs hcrash (hsnap ▸ h)]
        rfl
    · -- the entry killed it
      have hent : s'.entries = s.entries := by rw [Replicator.entries, hc]; rfl
      have hsnap : s'.loadedSnapshot = s.loadedSnapshot := by rw [Replicator.loadedSnapshot, hc]; rfl
      refine hI.update hs hb hlt
        (hent ▸ (hI.taken n s hs).trans ((List.take_sublist_take_left _ (Nat.le_succ _)).map _))
        (fun h => hent ▸ hI.takenFirst n s hs (hsnap ▸ h)) (fun h _ => ?_) (fun rd hrd => by cases hrd)
      rw [h] at hdead
      cases hdead
  | install n index snap =>
    simp only [Cluster.step] at h
    split at h
    · obtain ⟨hle, hidx, hok⟩ := ‹_ ∧ _›
      obtain ⟨cl₁, hu, rfl⟩ := Option.map_eq_some'.1 h
      obtain ⟨s, s', hs, hb, rfl⟩ := Cluster.update_some hu
      have hcrash := (Replicator.step_some hb).1
      -- a nil is no entry
      have hent : s'.entries = s.entries := by
        rcases Replicator.step_commits hb with hc | ⟨hc, -⟩
        · simp [Replicator.entries_of_commits hc, Action.taken, Commit.entry?]
        · rw [Replicator.entries, hc]; rfl
      -- unless it found a snapshot, the node is where it was
      have hstay : s'.loadedSnapshot = false →
          s.loadedSnapshot = false ∧ (s'.crash = none → index = cl.applied n) := fun h => by
        rcases Replicator.step_commits hb with hc | ⟨hc, hdead⟩
        · simp only [Replicator.loadedSnapshot_of_commits hc, Action.taken, List.any_cons, List.any_nil,
            Commit.isSnapshot, Bool.or_false, Bool.or_eq_false_iff] at h
          exact ⟨h.1, fun _ => hok.resolve_left (by simp [h.2])⟩
        · rw [Replicator.loadedSnapshot, hc] at h
          exact ⟨h, fun h' => by rw [h'] at hdead; cases hdead⟩
      refine hI.update hs hb hidx (hent ▸ (hI.taken n s hs).trans ((List.take_sublist_take_left _ hle).map _))
        (fun h => hent ▸ hI.takenFirst n s hs (hstay h).1) (fun hc h => ?_) (fun rd hrd => by cases hrd)
      rw [Replicator.taken, hent, (hstay h).2 hc]
      exact hI.takenAll n s hs hcrash (hstay h).1
    · cases h
  | answer n k index =>
    simp only [Cluster.step, Option.bind_eq_bind, Option.bind_eq_some] at h
    obtain ⟨s, hs, h⟩ := h
    split at h
    · rename_i c rctx hk
      obtain ⟨s₀, s', hs₀, hb, rfl⟩ := Cluster.update_some h
      rw [hs] at hs₀; cases hs₀
      refine hI.update_quiet hs hb ?_ (fun rd hrd => ?_)
      · rcases Replicator.step_commits hb with hc | hc
        · simpa [Action.taken] using hc
        · exact hc.1
      · rw [Action.readStatesTaken, List.mem_singleton] at hrd
        exact ⟨k, c, by rw [hrd]; exact hk⟩
    · cases h

end ClusterInv

theorem clusterInv_of_reachable {cl : Cluster} (h : ClusterReachable cl) : ClusterInv cl := by
  induction h with
  | init nodes => exact ClusterInv.init nodes
  | step a _ hstep ih => exact ih.step hstep

/-- The engine commits each request of each node at most once: no two log entries share a node and a request. -/
theorem ClusterReachable.log_requests_nodup {cl : Cluster} (hcl : ClusterReachable cl) :
    (cl.log.map fun le => (le.node, le.request)).Nodup := by
  induction hcl with
  | init nodes => exact List.nodup_nil
  | step a _ hstep ih =>
    rcases Cluster.step_cases hstep with ⟨-, le, hlog, -, hfresh⟩ | ⟨hlog, -⟩ <;> rw [hlog]
    · rw [List.map_append, List.map_singleton, ← List.concat_eq_append]
      refine ih.concat fun hx => ?_
      obtain ⟨le', hle', hkey⟩ := List.mem_map.1 hx
      simp only [Prod.mk.injEq] at hkey
      simp only [Cluster.committed, List.any_eq_false, Bool.and_eq_true, beq_iff_eq, not_and] at hfresh
      exact hfresh le' hle' hkey.1 hkey.2
    · exact ih

/-- The log entry of node `n`'s `k`-th request is that request's entry. -/
theorem Cluster.request_entry {cl : Cluster} (hcl : ClusterReachable cl) {n k c : Nat} {s : Replicator} {r : Request}
    (hs : cl.nodes[n]? = some s) (hk : s.requests[k]? = some (c, r)) {le : LogEntry} (hle : le ∈ cl.log)
    (hn : le.node = n) (hlek : le.request = k) : ∃ term index, r.entry term index = some le.entry := by
  obtain ⟨s₀, c₀, r₀, term, index, hs₀, hk₀, he⟩ := (clusterInv_of_reachable hcl).origin le hle
  rw [hn, hs, Option.some.injEq] at hs₀
  subst hs₀
  rw [hlek, hk, Option.some.injEq, Prod.mk.injEq] at hk₀
  obtain ⟨-, rfl⟩ := hk₀
  exact ⟨term, index, he⟩

/-! ### Every node applies the committed log -/

/-- Whether a store call of `readCommits` is a `Save`. -/
def ApplyCall.isSave : ApplyCall → Bool
  | .save .. => true
  | .restore _ => false

/-- The `store.Save` calls a node's `readCommits` made, in order. -/
def Replicator.saves (s : Replicator) : List ApplyCall :=
  (s.storeLog.filterMap StoreCall.applyCall).filter ApplyCall.isSave

/-- The `store.Save` calls the committed log asks of every node, in log order. -/
def Cluster.logSaves (cl : Cluster) : List ApplyCall := applyRef (cl.log.map fun le => .entry le.entry)

/-- A snapshot asks only for a `Restore`, an entry only for a `Save`. -/
theorem applyRef_filter_isSave (cs : List Commit) :
    (applyRef cs).filter ApplyCall.isSave = applyRef ((cs.filterMap Commit.entry?).map Commit.entry) := by
  induction cs with
  | nil => rfl
  | cons x cs ih =>
    rw [← List.singleton_append, applyRef_append, List.filter_append, ih, List.filterMap_append, List.map_append,
      applyRef_append, applyRef_singleton]
    congr 1
    cases x with
    | sentinel snap => cases snap <;> rfl
    | entry e =>
      show (applyOne (.entry e)).filter ApplyCall.isSave = applyRef [.entry e]
      simp only [applyRef_singleton, applyOne]
      split
      · split <;> rfl
      · rfl

theorem applyRef_prefix {p q : List Commit} (h : p <+: q) : applyRef p <+: applyRef q := by
  obtain ⟨t, rfl⟩ := h
  rw [applyRef_append]
  exact List.prefix_append _ _

theorem applyRef_sublist {p q : List Commit} (h : p.Sublist q) : (applyRef p).Sublist (applyRef q) := by
  induction h with
  | slnil => exact List.Sublist.refl _
  | cons x _ ih => simpa [applyRef] using ih.trans (List.sublist_append_right (applyOne x) _)
  | cons₂ x _ ih => simpa [applyRef] using ih.append_left (applyOne x)

/-- A node's `store.Save` calls are the first of those the entries it took ask for. -/
theorem Replicator.saves_prefix_entries {s : Replicator} (hs : Reachable s) :
    s.saves <+: applyRef (s.entries.map Commit.entry) := by
  rw [Replicator.entries, ← applyRef_filter_isSave, ← (applyInv_of_reachable hs).calls_ref, List.filter_append]
  exact List.prefix_append _ _

/-- A node's `store.Save` calls are, in order, some of those the committed log asks for. -/
theorem Cluster.saves_sublist_logSaves {cl : Cluster} (hcl : ClusterReachable cl) {s : Replicator}
    (hs : s ∈ cl.nodes) : s.saves.Sublist cl.logSaves := by
  obtain ⟨n, hn⟩ := List.getElem?_of_mem hs
  have hlog := applyRef_sublist
    ((((clusterInv_of_reachable hcl).taken n s hn).trans ((List.take_sublist _ _).map _)).map Commit.entry)
  rw [List.map_map] at hlog
  exact (Replicator.saves_prefix_entries (hcl.node s hs)).sublist.trans hlog

/-- The `store.Save` calls of a node that restored no snapshot are the first of those the committed log asks
for. -/
theorem Cluster.saves_prefix_logSaves {cl : Cluster} (hcl : ClusterReachable cl) {s : Replicator}
    (hs : s ∈ cl.nodes) (hsnap : s.loadedSnapshot = false) : s.saves <+: cl.logSaves := by
  obtain ⟨n, hn⟩ := List.getElem?_of_mem hs
  have hlog := applyRef_prefix (((clusterInv_of_reachable hcl).takenFirst n s hn hsnap).map Commit.entry)
  rw [List.map_map] at hlog
  exact (Replicator.saves_prefix_entries (hcl.node s hs)).trans hlog

/-- Every node's `store.Save` calls are, in order, some of those the committed log asks for: each committed
`EntryNormal` is saved at most once, in log order, and nothing else is saved.  A node that restored no snapshot
made the first of them, so of any two such nodes, one has made a prefix of the other's `Save` calls. -/
theorem replicas_saves_follow_log {cl : Cluster} (hcl : ClusterReachable cl) :
    (∀ s ∈ cl.nodes, s.saves.Sublist cl.logSaves) ∧
    (∀ s ∈ cl.nodes, s.loadedSnapshot = false → s.saves <+: cl.logSaves) ∧
    ∀ s₁ ∈ cl.nodes, ∀ s₂ ∈ cl.nodes, s₁.loadedSnapshot = false → s₂.loadedSnapshot = false →
      s₁.saves <+: s₂.saves ∨ s₂.saves <+: s₁.saves :=
  ⟨fun _ hs => Cluster.saves_sublist_logSaves hcl hs, fun _ hs h => Cluster.saves_prefix_logSaves hcl hs h,
    fun _ h₁ _ h₂ hs₁ hs₂ => List.prefix_or_prefix_of_prefix (Cluster.saves_prefix_logSaves hcl h₁ hs₁)
      (Cluster.saves_prefix_logSaves hcl h₂ hs₂)⟩

/-- Node 1 saves `[1]` and `[2]`, the engine commits both and node 1 applies both; node 2 is sent a snapshot that
covers the first entry, restores it, and applies the second. -/
def snapshotTrace : List ClusterAction :=
  [.node 0 (.save 0 [1]), .node 0 (.register 0), .node 0 (.propose 0 none),
   .node 0 (.save 1 [2]), .node 0 (.register 1), .node 0 (.propose 1 none),
   .commit 0 0 1, .commit 0 1 1,
   .deliver 0, .node 0 .applySave, .node 0 .applyReply, .node 0 .applyAdvance,
   .deliver 0, .node 0 .applySave, .node 0 .applyReply, .node 0 .applyAdvance,
   .install 1 1 (.ok [1]), .node 1 .applyRestore,
   .deliver 1, .node 1 .applySave, .node 1 .applyReply, .node 1 .applyAdvance]

/-- In `snapshotTrace` node 2's `Save` calls skip the entry its snapshot covered: some of the log's, not the first
ones; node 1's are the log's. -/
theorem replicas_saves_follow_log_snapshot : ∃ cl, ClusterReachable cl ∧
    cl.logSaves = [.save ⟨1, 1⟩ [1], .save ⟨2, 1⟩ [2]] ∧
    cl.nodes.map (fun s => (s.loadedSnapshot, s.saves)) =
      [(false, [.save ⟨1, 1⟩ [1], .save ⟨2, 1⟩ [2]]), (true, [.save ⟨2, 1⟩ [2]])] ∧
    ∀ s ∈ cl.nodes, s.saves.Sublist [.save ⟨1, 1⟩ [1], .save ⟨2, 1⟩ [2]] := by
  have h : ∃ cl, (Cluster.init [(echoStore, 1, 0), (echoStore, 2, 0)]).run snapshotTrace = some cl ∧
      cl.logSaves = [.save ⟨1, 1⟩ [1], .save ⟨2, 1⟩ [2]] ∧
      cl.nodes.map (fun s => (s.loadedSnapshot, s.saves)) =
        [(false, [.save ⟨1, 1⟩ [1], .save ⟨2, 1⟩ [2]]), (true, [.save ⟨2, 1⟩ [2]])] :=
    ⟨_, rfl, by decide, by decide⟩
  obtain ⟨cl, hrun, hlog, hnodes⟩ := h
  have hcl := (ClusterReachable.init _).run hrun
  exact ⟨cl, hcl, hlog, hnodes, fun s hs => hlog ▸ (replicas_saves_follow_log hcl).1 s hs⟩

end Nexus
