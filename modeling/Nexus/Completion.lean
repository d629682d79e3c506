import Nexus.Progress
import Nexus.Replicator.Envelope

/-!
# Completion: a goroutine waiting on the engine can always finish

No answer to a goroutine's own request is lost: a node that answered the log entry of one of its own
goroutines' requests has filled that goroutine's slot (`ownAnswered_of_reachable`).  A `waiter.Trigger` for an
entry finds the goroutine registered under the entry's key unless the slot was already filled, and the
goroutine registered before its request could be committed.

With the catch-up of `Nexus.Progress`, each client goroutine waiting on the engine, on a node that loaded no
snapshot, has a continuation in which it returns:

* a `Save` with a nonzero id returns what its node's store answered for the log entry of its own envelope, once
  the engine has committed the envelope (`save_completes`); the envelope of id 0 and no payload is empty, and
  `readCommits` skips it (`empty_save_never_applied`);
* a configuration change returns `nil` once the engine has committed its `ConfChange` (`conf_change_completes`);
* a `Save` that returned at its deadline after proposing is not undone: its envelope can still be committed and
  saved (`timed_out_save_still_applies`);
* a `Load` returns what `store.Load` answered after `store.Save` was called for every entry the log held when
  the engine answered its `ReadIndex` with the log's last index (`load_completes`): the read is linearizable.
-/

namespace Nexus

/-! ### The entries a node answered -/

/-- How many entries `readCommits` has answered: all it took, but the last one while its `store.Save` or its
`waiter.Trigger` is still to come. -/
def Replicator.replied (s : Replicator) : Nat :=
  match s.applier with
  | .save .. | .reply .. => s.taken - 1
  | _ => s.taken

namespace Replicator

variable {s s' : Replicator}

theorem replied_le_taken (s : Replicator) : s.replied ≤ s.taken := by
  unfold replied; split <;> omega

/-- A step answers no entry twice and at most the next one: the waiter's trigger answers the entry it is for,
and an empty entry is answered when it is taken. -/
theorem replied_step {a : Action} (hi : ApplyInv s) (h : s.step a = some s') :
    s'.replied ≤ s.replied ∨ s'.replied = s.replied + 1 ∧ ∃ e, s'.entries[s.replied]? = some e ∧
      (e.data = [] ∨ ∃ id v, s.applier = .reply id v e ∧ a = .applyReply) := by
  have hsame : ∀ {t : Replicator}, t.applier = s.applier → t.commits = s.commits → t.replied ≤ s.replied :=
    fun ha hc => by simp only [replied, taken, entries, ha, hc, le_refl]
  rcases step_frame h with ⟨-, h₂, h₃, -⟩ | ⟨c, rfl⟩ | ⟨snap, rfl⟩ | rfl | ⟨e, rfl⟩ | rfl | rfl | rfl | ⟨err, rfl⟩
  · exact .inl (hsame h₂ h₃)
  · obtain ⟨_, _, _, _, _, -, rfl⟩ := loadStore_some (step_some h).2
    exact .inl (hsame rfl rfl)
  · -- a sentinel is no entry
    obtain ⟨hidle, ⟨-, rfl⟩ | ⟨_, -, rfl⟩ | ⟨_, -, rfl⟩⟩ := applySentinel_some (step_some h).2
    · left; simp [replied, taken, entries, hidle, Commit.entry?]
    · exact .inl (hsame rfl rfl)
    · left; simp [replied, taken, entries, hidle, Commit.entry?]
  · obtain ⟨_, hap, ⟨-, rfl⟩ | ⟨_, -, rfl⟩⟩ := applyRestore_some (step_some h).2 <;>
      (left; simp [replied, taken, entries, hap, die])
  · obtain ⟨hidle, ⟨hd, rfl⟩ | ⟨-, -, rfl⟩ | ⟨_, -, -, -, rfl⟩ | ⟨_, -, -, -, rfl⟩⟩ := applyEntry_some (step_some h).2
    · -- an empty entry is answered as it is taken
      right
      simp only [replied, taken, entries, hidle, List.filterMap_append, List.length_append]
      exact ⟨rfl, e, by simp [Commit.entry?], .inl hd⟩
    · exact .inl (hsame rfl rfl)
    all_goals left; simp [replied, taken, entries, hidle, Commit.entry?]
  · obtain ⟨_, _, hap, rfl⟩ := applySave_some (step_some h).2
    left; simp [replied, taken, entries, hap]
  · -- the trigger answers the entry taken last
    obtain ⟨id, v, e, s₁, hap, h₁, rfl⟩ := applyReply_some (step_some h).2
    obtain ⟨w, calls, rfl⟩ := trigger_frame h₁
    have hcur := hi.cursor
    rw [hap] at hcur
    obtain ⟨pre, hpre, -⟩ := hcur
    refine .inr ⟨?_, e, ?_, .inr ⟨id, v, hap, rfl⟩⟩ <;>
      simp [replied, taken, entries, hap, hpre, Commit.entry?]
  · obtain ⟨_, hap, rfl⟩ := applyAdvance_some (step_some h).2
    left; simp [replied, taken, entries, hap]
  · obtain ⟨hidle, ⟨-, rfl⟩ | ⟨_, -, rfl⟩⟩ := closeCommits_some (step_some h).2
    · left; simp [replied, taken, entries, hidle]
    · exact .inl (hsame rfl rfl)

end Replicator

/-! ### No answer is lost -/

/-- Node `n` at `s` filled the slot of each of its goroutines whose own request's log entry is among the entries
it answered and decodes to the goroutine's key. -/
def Replicator.OwnAnswered (s : Replicator) (log : List LogEntry) (n : Nat) : Prop :=
  ∀ le ∈ log, le.entry ∈ s.entries.take s.replied → le.node = n → le.entry.data ≠ [] →
    ∀ (c : Nat) (r : Request) (call : Call), s.requests[le.request]? = some (c, r) → s.calls c = some call →
    le.entry.key = some call.phase.id → call.slot.isSome

/-- No answer to a goroutine's own request is lost: every node filled the slot of each of its goroutines whose
request's log entry it answered. -/
def Cluster.OwnAnswered (cl : Cluster) : Prop :=
  ∀ (n : Nat) (s : Replicator), cl.nodes[n]? = some s → s.OwnAnswered cl.log n

/-- What a node had answered are still its first entries after it took more. -/
theorem Replicator.take_replied_of_prefix {s s' : Replicator} (hk : s.commits <+: s'.commits) :
    s'.entries.take s.replied = s.entries.take s.replied := by
  have hp : s.entries <+: s'.entries := hk.filterMap _
  have hle : s.replied ≤ s.entries.length := s.replied_le_taken
  rw [List.prefix_iff_eq_take.1 hp, List.take_take, Nat.min_eq_left hle]

/-- An answered entry stays answered across a step that keeps the histories and evolves the goroutines. -/
theorem Replicator.OwnAnswered.keep {s s' : Replicator} {log : List LogEntry} {n : Nat} (hI : s.OwnAnswered log n)
    (hsl : SlotInv s) (hk : s.Keeps s') (horigin : ∀ le ∈ log, le.node = n → ∃ x, s.requests[le.request]? = some x)
    {le : LogEntry} (hlog : le ∈ log) (hle : le.entry ∈ s.entries.take s.replied) (hn : le.node = n)
    (hd : le.entry.data ≠ []) {c : Nat} {r : Request} {call' : Call} (hr : s'.requests[le.request]? = some (c, r))
    (hc' : s'.calls c = some call') (hkey : le.entry.key = some call'.phase.id) : call'.slot.isSome := by
  obtain ⟨x, hx⟩ := horigin le hlog hn
  rw [getElem?_of_prefix_of_getElem? hk.requests hx, Option.some.injEq] at hr
  subst hr
  obtain ⟨call, hc, -, -⟩ := hsl.requests_slot (List.getElem?_mem hx)
  have hev := hk.calls c
  rw [hc, hc'] at hev
  obtain ⟨-, hid, hslot, -⟩ := hev
  have hfill := hI le hlog hle hn hd c r call hx hc (hid ▸ hkey)
  rcases hslot with hnone | ⟨hs, -⟩
  · rw [hnone] at hfill; cases hfill
  · rw [hs]; exact hfill

/-- The waiter's trigger for an entry fills the slot of each goroutine whose request the entry carries: the
goroutine is registered under the entry's key unless its slot is already filled. -/
theorem Replicator.trigger_fills_own {s s₁ : Replicator} {id : Nat} {v : InternalNexusResponse} {e : Entry}
    (hsl : SlotInv s) (h₁ : s.trigger id v (.entry e) = some s₁) (hid : e.key = some id) {c : Nat} {r : Request}
    (hr : (c, r) ∈ s.requests) {call' : Call} (hc' : s₁.calls c = some call') (hkey : e.key = some call'.phase.id) :
    call'.slot.isSome := by
  obtain ⟨call, hc, -, hw | hslot⟩ := hsl.requests_slot hr
  · have hev := Replicator.trigger_evolves h₁ c
    rw [hc, hc'] at hev
    have hid' : id = call.phase.id := by
      rw [hid, Option.some.injEq] at hkey
      rw [hkey, hev.2.1]
    subst hid'
    rcases Replicator.trigger_some h₁ with ⟨hw', -⟩ | ⟨c₀, hw', hc₀, -⟩ | ⟨c₀, call₀, hw', hc₀, -, rfl⟩
    · rw [hw] at hw'; cases hw'
    · rw [hw, Option.some.injEq] at hw'
      subst hw'
      rw [hc] at hc₀; cases hc₀
    · rw [hw, Option.some.injEq] at hw'
      subst hw'
      simp only [Function.update_same, Option.some.injEq] at hc'
      rw [← hc']
      rfl
  · have hev := Replicator.trigger_evolves h₁ c
    rw [hc] at hev
    obtain ⟨call'', h'', hslot'', -⟩ := hev.slot hslot
    rw [hc', Option.some.injEq] at h''
    subst h''
    rw [hslot'']
    exact hslot

namespace Cluster.OwnAnswered

variable {cl cl' : Cluster}

theorem init (nodes : List (Store × Nat × Nat)) : (Cluster.init nodes).OwnAnswered := by
  intro n s hs le hle
  simp [Cluster.init] at hle

theorem step (hcl : ClusterReachable cl) (hI : cl.OwnAnswered) {a : ClusterAction} (h : cl.step a = some cl') :
    cl'.OwnAnswered := by
  have hCI := clusterInv_of_reachable hcl
  -- the request of every log entry is recorded at its node
  have horigin : ∀ {m t}, cl.nodes[m]? = some t → ∀ le ∈ cl.log, le.node = m →
      ∃ x, t.requests[le.request]? = some x := fun ht le hle hm => by
    obtain ⟨t₀, c, r, -, -, hs₀, hk, -⟩ := hCI.origin le hle
    rw [hm, ht] at hs₀
    cases hs₀
    exact ⟨_, hk⟩
  rcases Cluster.step_cases h with ⟨hnodes, x, hlog, hidx, -⟩ | ⟨hlog, n, s, s', b, hs, hb, hnodes⟩
  · -- the engine appended an entry that no node has taken
    intro m t ht le hle hent
    rw [hnodes] at ht
    rw [hlog] at hle
    rcases List.mem_append.1 hle with hle | hle
    · exact hI m t ht le hle hent
    · obtain ⟨le', hle', he⟩ := hCI.mem_log ht (Replicator.mem_commits_of_mem_entries (List.mem_of_mem_take hent))
      have := Cluster.index_le_length hcl hle'
      rw [List.mem_singleton.1 hle] at he
      rw [he, hidx] at this
      omega
  · -- node `n` stepped
    intro m t ht
    rw [hnodes] at ht
    rw [hlog]
    rcases getElem?_set_node hs ht with ⟨rfl, rfl⟩ | ⟨-, ht⟩
    · have hR := hcl.node s (List.getElem?_mem hs)
      have hsl := slotInv_of_reachable hR
      have hk := Replicator.Keeps.step hsl hb
      intro le hlog hle hn hd c r call' hr hc' hkey
      have hold : le.entry ∈ s.entries.take s.replied → call'.slot.isSome := fun h =>
        (hI m s hs).keep hsl hk (horigin hs) hlog h hn hd hr hc' hkey
      have htake := Replicator.take_replied_of_prefix hk.commits
      rcases Replicator.replied_step (applyInv_of_reachable hR) hb with hle' | ⟨hrep, e, he, hcase⟩
      · exact hold (htake ▸ List.take_subset_take_left _ hle' hle)
      rw [hrep, List.take_succ, he, htake] at hle
      rcases List.mem_append.1 hle with hle | hle
      · exact hold hle
      -- the entry answered in this step: the one the node took last
      obtain rfl : le.entry = e := List.mem_singleton.1 hle
      rcases hcase with hempty | ⟨id, v, hap, rfl⟩
      · exact absurd hempty hd
      obtain ⟨id', v', e', s₁, hap', h₁, rfl⟩ := Replicator.applyReply_some (Replicator.step_some hb).2
      rw [hap] at hap'
      cases hap'
      have hans := (answerInv_of_reachable hR).applier
      rw [hap] at hans
      obtain ⟨w, calls, rfl⟩ := Replicator.trigger_frame h₁
      exact Replicator.trigger_fills_own hsl h₁ hans.2.1 (List.getElem?_mem hr) hc' hkey
    · exact hI m t ht

end Cluster.OwnAnswered

/-- No answer to a goroutine's own request is lost, in every reachable cluster. -/
theorem ownAnswered_of_reachable {cl : Cluster} (hcl : ClusterReachable cl) : cl.OwnAnswered := by
  induction hcl with
  | init nodes => exact .init nodes
  | step a hcl hstep ih => exact ih.step hcl hstep

/-! ### Continuations -/

theorem Replicator.ClientsKept.back {s s' : Replicator} (hk : s.ClientsKept s') {c : Nat} {call' : Call}
    (hc' : s'.calls c = some call') : ∃ call, s.calls c = some call ∧ call'.phase.id = call.phase.id := by
  cases hc : s.calls c with
  | none => rw [hk.fresh c hc] at hc'; cases hc'
  | some call =>
    have hev := hk.calls c
    rw [hc, hc'] at hev
    exact ⟨call, rfl, hev.2.1⟩

namespace Cluster

variable {cl cl' : Cluster}

theorem KeysDistinct.kept (hkeys : cl.KeysDistinct) (hk : cl.ClientsKept cl') : cl'.KeysDistinct := by
  intro n n' s s' c c' call call' hs hs' hc hc' hid
  obtain ⟨t, ht, hkt⟩ := hk n s hs
  obtain ⟨t', ht', hkt'⟩ := hk n' s' hs'
  obtain ⟨y, hy, hyid⟩ := hkt.back hc
  obtain ⟨y', hy', hyid'⟩ := hkt'.back hc'
  exact hkeys n n' t t' c c' y y' ht ht' hy hy' (hyid.symm.trans (hid.trans hyid'))

theorem RequestsFit.kept (hfit : cl.RequestsFit) (hk : cl.ClientsKept cl') : cl'.RequestsFit := by
  intro s' hs' x hx
  obtain ⟨m, hm⟩ := List.getElem?_of_mem hs'
  obtain ⟨s, hs, hks⟩ := hk m s' hm
  exact hfit s (List.getElem?_mem hs) x (hks.requests ▸ hx)

theorem clientsKept_of_nodes (h : cl'.nodes = cl.nodes) : cl.ClientsKept cl' := fun _ s hs =>
  ⟨s, h ▸ hs, .refl s⟩

/-- The engine commits a node's proposal, unless the log holds it already. -/
theorem commit_request {n k c : Nat} {s : Replicator} {r : Request} (hs : cl.nodes[n]? = some s)
    (hk : s.requests[k]? = some (c, r)) (hr : ∀ rctx, r ≠ .readIndex rctx) :
    ∃ acts cl₁, cl.run acts = some cl₁ ∧ cl₁.nodes = cl.nodes ∧ ∃ le ∈ cl₁.log, le.node = n ∧ le.request = k := by
  cases hcomm : cl.committed n k with
  | true =>
    obtain ⟨le, hle, hle'⟩ := List.any_eq_true.1 hcomm
    simp only [Bool.and_eq_true, beq_iff_eq] at hle'
    exact ⟨[], cl, rfl, rfl, le, hle, hle'⟩
  | false =>
    obtain ⟨e, he⟩ : ∃ e, r.entry 1 (cl.log.length + 1) = some e := by
      cases r with
      | propose d => exact ⟨_, rfl⟩
      | proposeConfChange cc => exact ⟨_, rfl⟩
      | readIndex rctx => exact absurd rfl (hr rctx)
    refine ⟨[.commit n k 1], { cl with log := cl.log ++ [⟨e, n, k⟩] }, ?_, rfl, ⟨e, n, k⟩, by simp, rfl, rfl⟩
    simp [run, step, hs, hk, hcomm, he]

/-- The engine answers node `n`'s `ReadIndex`. -/
theorem step_answer {n k c index : Nat} {rctx : Bytes} {s s' : Replicator} (hs : cl.nodes[n]? = some s)
    (hk : s.requests[k]? = some (c, .readIndex rctx)) (h : s.step (.readState ⟨index, rctx⟩) = some s') :
    cl.step (.answer n k index) = some { cl with nodes := cl.nodes.set n s' } := by
  simp [step, update, hs, hk, h]

end Cluster

/-- A goroutine that returned stays as it returned across steps that no client goroutine ran. -/
theorem Replicator.ClientsKept.returned {s s' : Replicator} (hk : s.ClientsKept s') (hsl : SlotInv s) {c : Nat}
    {call : Call} (hc : s.calls c = some call) (hr : call.phase.Returned) : s'.calls c = some call := by
  have hev := hk.calls c
  rw [hc] at hev
  obtain ⟨call', hc', hop, -, hslot, hphase⟩ :
      ∃ call', s'.calls c = some call' ∧ Call.Evolves (some call) (some call') := by
    cases h : s'.calls c with
    | none => rw [h] at hev; exact hev.elim
    | some call' => exact ⟨call', rfl, h ▸ hev⟩
  -- a returned goroutine took a filled slot, which keeps its value and its filler
  have hfilled : call.slot.isSome := by
    have hok := hsl.call_ok c
    rw [hc] at hok
    exact hok.2.2 (by rcases call with ⟨_, _ | _ | _ | _ | _, _, _⟩ <;> trivial)
  rcases hslot with hnone | ⟨hslot, hsrc⟩
  · rw [hnone] at hfilled; cases hfilled
  · rw [hc']
    rcases call with ⟨op, phase, slot, src⟩
    rcases call' with ⟨op', phase', slot', src'⟩
    simp only at hop hslot hsrc hphase
    rw [hop, hslot, hsrc, hphase hr]

/-- Once `readCommits` is between two elements, its node's store has saved every non-empty `EntryNormal` it
took. -/
theorem Replicator.saved_of_taken {s : Replicator} (hs : Reachable s) (hidle : s.applier = .idle) {e : Entry}
    {r : NexusInternalRequest} (he : Commit.entry e ∈ s.commits) (hne : e.data ≠ []) (ht : e.type = .entryNormal)
    (hr : unmarshalRequest e.data = some r) :
    ∃ res err, StoreCall.save ⟨e.index, e.term⟩ r.req res err ∈ s.storeLog := by
  have hcalls : s.storeLog.filterMap StoreCall.applyCall = applyRef s.commits := by
    simpa [hidle, Applier.pending] using (applyInv_of_reachable hs).calls_ref
  exact exists_save_of_mem (hcalls ▸ mem_applyRef he hne ht hr)

/-- A goroutine waiting for the entry of its own proposal can always have its slot filled: the engine commits the
proposal, and its node takes the whole log, answering the entry. -/
theorem Cluster.proposal_fills {cl : Cluster} (hcl : ClusterReachable cl) (hfit : cl.RequestsFit) {n c id : Nat}
    {s : Replicator} {op : Op} {slot : Option InternalNexusResponse} {src : Option Source}
    (hs : cl.nodes[n]? = some s) (hc : s.calls c = some ⟨op, .waiting id, slot, src⟩)
    (hprop : ∀ rctx, op.request id ≠ .readIndex rctx)
    (hd : ∀ term index e, (op.request id).entry term index = some e → e.data ≠ [])
    (hcrash : s.crash = none) (hopen : s.applier ≠ .closed)
    (hsnap : s.loadedSnapshot = false) :
    ∃ acts cl' s' v src', cl.run acts = some cl' ∧ cl.ClientsKept cl' ∧ cl'.nodes[n]? = some s' ∧
      s'.crash = none ∧ s'.calls c = some ⟨op, .waiting id, some v, src'⟩ := by
  have hR := hcl.node s (List.getElem?_mem hs)
  -- its request was handed to the engine, which commits it
  have hreq : (c, op.request id) ∈ s.requests := ((answerInv_of_reachable hR).calls c _ hc).2.2 trivial
  obtain ⟨k, hk⟩ := List.getElem?_of_mem hreq
  obtain ⟨acts₁, cl₁, hrun₁, hnodes₁, le, hle, hn, hlek⟩ := Cluster.commit_request hs hk hprop
  have hcl₁ := hcl.run hrun₁
  have hs₁ : cl₁.nodes[n]? = some s := by rw [hnodes₁]; exact hs
  have hkept₁ := Cluster.clientsKept_of_nodes hnodes₁
  -- the log entry carries its request, and decodes to its key
  obtain ⟨term, index, he⟩ := Cluster.request_entry hcl₁ hs₁ hk hle hn hlek
  have hkey : le.entry.key = some id := by
    rw [Request.key_entry he]
    exact Op.key_request ((key_lt_of_reachable hR).2 c _ hc) (hfit s (List.getElem?_mem hs) _ hreq)
  -- the node takes the whole log
  obtain ⟨acts₂, cl₂, s₂, -, hrun₂, hlog₂, hkept₂, hs₂, hk₂, hidle, hcrash₂, hent⟩ :=
    Cluster.catchUp_whole hcl₁ (hfit.kept hkept₁) hs₁ hcrash hopen hsnap
  obtain ⟨slot₂, src₂, hc₂, -⟩ := hk₂.waiting hc trivial
  -- it answered its own entry, so the slot is filled
  have hreplied : s₂.replied = s₂.entries.length := by simp [Replicator.replied, Replicator.taken, hidle]
  have hfilled := ownAnswered_of_reachable (hcl₁.run hrun₂) n s₂ hs₂ le (hlog₂ ▸ hle)
    (by rw [hreplied, List.take_length, hent]; exact List.mem_map_of_mem _ hle) hn (hd _ _ _ he) c _ _
    (by rw [hk₂.requests, hlek]; exact hk) hc₂ hkey
  obtain ⟨v, rfl⟩ := Option.isSome_iff_exists.1 hfilled
  exact ⟨acts₁ ++ acts₂, cl₂, s₂, v, src₂, by rw [Cluster.run_append, hrun₁, Option.some_bind, hrun₂],
    hkept₁.trans hkept₂, hs₂, hcrash₂, hc₂⟩

/-- A `Save` waiting for its answer can always return it: once the engine has committed its envelope and handed
its node the log, `readCommits` answers the entry with what `store.Save` returned for it, and the `Save` returns
exactly that. -/
theorem save_completes {cl : Cluster} (hcl : ClusterReachable cl) (hkeys : cl.KeysDistinct) (hfit : cl.RequestsFit)
    {n c id : Nat} {s : Replicator} {data : Bytes} {slot : Option InternalNexusResponse} {src : Option Source}
    (hs : cl.nodes[n]? = some s) (hc : s.calls c = some ⟨.save data, .waiting id, slot, src⟩) (hid : 0 < id)
    (hcrash : s.crash = none) (hopen : s.applier ≠ .closed)
    (hsnap : s.loadedSnapshot = false) :
    ∃ acts cl' s', cl.run acts = some cl' ∧ cl'.nodes[n]? = some s' ∧ ∃ res err,
      (s'.calls c).map Call.phase = some (.returned id res err .received) ∧
      ∃ le ∈ cl'.log, le.node = n ∧ s'.requests[le.request]? = some (c, .propose (marshalRequest ⟨id, data⟩)) ∧
        StoreCall.save ⟨le.entry.index, le.entry.term⟩ data res err ∈ s'.storeLog := by
  -- its envelope is not empty, so its node answers it
  obtain ⟨acts, cl', s', v, src', hrun, hkept, hs', hcrash', hc'⟩ := Cluster.proposal_fills hcl hfit hs hc nofun
    (fun _ _ e he => by
      simp only [Op.request, Request.entry, Option.some.injEq] at he
      rw [← he]
      exact fun h => Nat.pos_iff_ne_zero.1 hid ((marshalRequest_eq_nil_iff _).1 h).1) hcrash hopen hsnap
  -- with what its node's store answered for its entry, which it returns
  obtain ⟨le, hle, hn, hk, -, hsave⟩ :=
    Cluster.save_slot_own_entry (hcl.run hrun) (hkeys.kept hkept) (hfit.kept hkept) hs' hc' trivial fun h => h
  have h₃ : s'.run [.receive c] = some (s'.setPhase c (.returned id v.res v.err .received)) := by
    simp [Replicator.run, Replicator.step, Replicator.act, Replicator.receive, hcrash', hc']
  refine ⟨acts ++ [.node n (.receive c)],
    { cl' with nodes := cl'.nodes.set n (s'.setPhase c (.returned id v.res v.err .received)) }, _, ?_,
    List.getElem?_set_self (List.getElem?_eq_some_iff.1 hs').1, v.res, v.err,
    by rw [Replicator.setPhase_calls_of hc', Function.update_same]; rfl, le, hle, hn, hk, hsave⟩
  rw [Cluster.run_append, hrun, Option.some_bind]
  exact Cluster.run_node hs' (by simp [Action.fromEngine]) h₃

/-- In `routingTrace` before the engine committed anything, node 1's waiting `Save` of `[1]` returns what its
store answered for its own log entry. -/
theorem save_completes_routed : ∃ cl, ClusterReachable cl ∧ ∃ acts cl' s', cl.run acts = some cl' ∧
    cl'.nodes[0]? = some s' ∧ ∃ res err,
      (s'.calls 0).map Call.phase = some (.returned (2 ^ 48 + 1) res err .received) ∧
      ∃ le ∈ cl'.log, le.node = 0 ∧ s'.requests[le.request]? = some (0, .propose (marshalRequest ⟨2 ^ 48 + 1, [1]⟩)) ∧
        StoreCall.save ⟨le.entry.index, le.entry.term⟩ [1] res err ∈ s'.storeLog := by
  obtain ⟨cl, hrun, hids, hm, hg, hn, hcc, hfit, hnode⟩ : ∃ cl,
      (Cluster.init [(echoStore, 1, 0), (echoStore, 2, 0)]).run (routingTrace.take 12) = some cl ∧
      (cl.nodes.map fun s => s.id % 2 ^ 16).Nodup ∧ (∀ s ∈ cl.nodes, 0 < s.id % 2 ^ 16) ∧
      (∀ s ∈ cl.nodes, s.idGen.suffix < 2 ^ 48) ∧ (∀ s ∈ cl.nodes, s.confChangeCount < 2 ^ 48) ∧
      (∀ s ∈ cl.nodes.tail, s.confChangeCount = 0) ∧ cl.RequestsFit ∧
      (cl.nodes[0]?.map fun s => (s.calls 0, s.crash, s.applier, s.loadedSnapshot)) =
        some (some ⟨.save [1], .waiting (2 ^ 48 + 1), none, none⟩, none, .idle, false) :=
    ⟨_, rfl, by decide, by decide, by decide, by decide, by decide, by decide, by decide⟩
  have hcl := (ClusterReachable.init _).run hrun
  obtain ⟨s, hs, hsa⟩ := Option.map_eq_some'.1 hnode
  simp only [Prod.mk.injEq] at hsa
  obtain ⟨hc, hcrash, hidle, hsnap⟩ := hsa
  exact ⟨cl, hcl, save_completes hcl (Cluster.KeysDistinct.of_members hcl hids hm hg hn hcc) hfit hs hc
    (by decide) hcrash (by rw [hidle]; nofun) hsnap⟩

/-- A configuration change waiting for its entry can always complete: once the engine has committed its
`ConfChange` and handed its node the log, `proposeConfigChange` returns `nil`, so `AddMember` or `RemoveMember`
succeeds, and the log holds its own change. -/
theorem conf_change_completes {cl : Cluster} (hcl : ClusterReachable cl) (hkeys : cl.KeysDistinct)
    (hfit : cl.RequestsFit) {n c id : Nat} {s : Replicator} {cc : ConfChange} {slot : Option InternalNexusResponse}
    {src : Option Source} (hs : cl.nodes[n]? = some s)
    (hc : s.calls c = some ⟨.confChange cc, .waiting id, slot, src⟩)
    (hcrash : s.crash = none) (hopen : s.applier ≠ .closed)
    (hsnap : s.loadedSnapshot = false) :
    ∃ acts cl' s', cl.run acts = some cl' ∧ cl'.nodes[n]? = some s' ∧
      (s'.calls c).map Call.phase = some (.returned id [] none .received) ∧
      ∃ le ∈ cl'.log, le.node = n ∧
        s'.requests[le.request]? = some (c, .proposeConfChange { cc with id := id }) := by
  -- a marshalled `ConfChange` is never empty, so its node answers it
  obtain ⟨acts, cl', s', v, src', hrun, hkept, hs', hcrash', hc'⟩ := Cluster.proposal_fills hcl hfit hs hc nofun
    (fun _ _ e he => by
      simp only [Op.request, Request.entry, Option.some.injEq] at he
      rw [← he]
      exact marshalConfChange_ne_nil _) hcrash hopen hsnap
  -- with `nil`, the answer to its own entry
  obtain ⟨herr, le, hle, hn, hk, -⟩ :=
    Cluster.conf_slot_own_entry (hcl.run hrun) (hkeys.kept hkept) (hfit.kept hkept) hs' hc' fun h => h
  have h₃ : s'.run [.receive c] = some (s'.setPhase c (.returned id [] v.err .received)) := by
    simp [Replicator.run, Replicator.step, Replicator.act, Replicator.receive, hcrash', hc']
  refine ⟨acts ++ [.node n (.receive c)],
    { cl' with nodes := cl'.nodes.set n (s'.setPhase c (.returned id [] v.err .received)) }, _, ?_,
    List.getElem?_set_self (List.getElem?_eq_some_iff.1 hs').1,
    by rw [Replicator.setPhase_calls_of hc', Function.update_same, herr]; rfl, le, hle, hn, hk⟩
  rw [Cluster.run_append, hrun, Option.some_bind]
  exact Cluster.run_node hs' (by simp [Action.fromEngine]) h₃

/-- In `routingTrace` before the engine committed anything, node 1's waiting `AddMember` returns `nil`. -/
theorem conf_change_completes_routed : ∃ cl, ClusterReachable cl ∧ ∃ acts cl' s', cl.run acts = some cl' ∧
    cl'.nodes[0]? = some s' ∧ (s'.calls 2).map Call.phase = some (.returned 1 [] none .received) ∧
    ∃ le ∈ cl'.log, le.node = 0 ∧ s'.requests[le.request]? = some (2, .proposeConfChange
      ⟨1, confChangeAddNode, 3, some "http://127.0.0.1:9023".toUTF8.data.toList⟩) := by
  obtain ⟨cl, hrun, hids, hm, hg, hn, hcc, hfit, hnode⟩ : ∃ cl,
      (Cluster.init [(echoStore, 1, 0), (echoStore, 2, 0)]).run (routingTrace.take 9) = some cl ∧
      (cl.nodes.map fun s => s.id % 2 ^ 16).Nodup ∧ (∀ s ∈ cl.nodes, 0 < s.id % 2 ^ 16) ∧
      (∀ s ∈ cl.nodes, s.idGen.suffix < 2 ^ 48) ∧ (∀ s ∈ cl.nodes, s.confChangeCount < 2 ^ 48) ∧
      (∀ s ∈ cl.nodes.tail, s.confChangeCount = 0) ∧ cl.RequestsFit ∧
      (cl.nodes[0]?.map fun s => (s.calls 2, s.crash, s.applier, s.loadedSnapshot)) =
        some (some ⟨.confChange ⟨0, confChangeAddNode, 3, some "http://127.0.0.1:9023".toUTF8.data.toList⟩,
          .waiting 1, none, none⟩, none, .idle, false) :=
    ⟨_, rfl, by decide, by decide, by decide, by decide, by decide, by decide, by decide⟩
  have hcl := (ClusterReachable.init _).run hrun
  obtain ⟨s, hs, hsa⟩ := Option.map_eq_some'.1 hnode
  simp only [Prod.mk.injEq] at hsa
  obtain ⟨hc, hcrash, hidle, hsnap⟩ := hsa
  exact ⟨cl, hcl, conf_change_completes hcl (Cluster.KeysDistinct.of_members hcl hids hm hg hn hcc) hfit hs hc
    hcrash (by rw [hidle]; nofun) hsnap⟩

/-- A deadline is no rollback: a `Save` that returned `context deadline exceeded` after handing its envelope to
the engine still reports the error, and yet the engine may commit the envelope, and its node's store then saves
the payload at the envelope's entry. -/
theorem timed_out_save_still_applies {cl : Cluster} (hcl : ClusterReachable cl) (hfit : cl.RequestsFit)
    {n c id : Nat} {s : Replicator} {data : Bytes} {e : ContextError} {slot : Option InternalNexusResponse}
    {src : Option Source} (hs : cl.nodes[n]? = some s)
    (hc : s.calls c = some ⟨.save data, .returned id [] (some (.context e)) .timeout, slot, src⟩) (hid : 0 < id)
    (hcrash : s.crash = none) (hopen : s.applier ≠ .closed)
    (hsnap : s.loadedSnapshot = false) :
    ∃ acts cl' s', cl.run acts = some cl' ∧ cl'.nodes[n]? = some s' ∧ s'.calls c = s.calls c ∧
      ∃ le ∈ cl'.log, le.node = n ∧
        s'.requests[le.request]? = some (c, .propose (marshalRequest ⟨id, data⟩)) ∧
        ∃ res err, StoreCall.save ⟨le.entry.index, le.entry.term⟩ data res err ∈ s'.storeLog := by
  have hR := hcl.node s (List.getElem?_mem hs)
  -- it handed its envelope to the engine before its deadline, and the engine commits it
  have hreq : (c, Op.request (.save data) id) ∈ s.requests :=
    ((answerInv_of_reachable hR).calls c _ hc).2.2 (by simp [Phase.Proposed])
  obtain ⟨k, hk⟩ := List.getElem?_of_mem hreq
  obtain ⟨acts₁, cl₁, hrun₁, hnodes₁, le, hle, hn, hlek⟩ := Cluster.commit_request hs hk nofun
  have hcl₁ := hcl.run hrun₁
  have hs₁ : cl₁.nodes[n]? = some s := by rw [hnodes₁]; exact hs
  -- the entry is its envelope, which decodes back to its id and payload
  obtain ⟨term, index, he⟩ := Cluster.request_entry hcl₁ hs₁ hk hle hn hlek
  simp only [Op.request, Request.entry, Option.some.injEq] at he
  have hlen : data.length < 2 ^ 64 :=
    lt_of_le_of_lt (length_req_le_marshalRequest ⟨id, data⟩) (hfit s (List.getElem?_mem hs) _ hreq)
  have hdec : unmarshalRequest (marshalRequest ⟨id, data⟩) = some ⟨id, data⟩ :=
    unmarshalRequest_marshalRequest ((key_lt_of_reachable hR).2 c _ hc) hlen
  have hne : marshalRequest ⟨id, data⟩ ≠ [] := fun h =>
    Nat.pos_iff_ne_zero.1 hid ((marshalRequest_eq_nil_iff _).1 h).1
  -- its node takes the whole log, and saves the payload
  obtain ⟨acts₂, cl₂, s₂, -, hrun₂, hlog₂, -, hs₂, hk₂, hidle, -, hent⟩ :=
    Cluster.catchUp_whole hcl₁ (hfit.kept (Cluster.clientsKept_of_nodes hnodes₁)) hs₁ hcrash hopen hsnap
  have hR₂ := (hcl₁.run hrun₂).node s₂ (List.getElem?_mem hs₂)
  have htaken : Commit.entry le.entry ∈ s₂.commits :=
    Replicator.mem_commits_of_mem_entries (by rw [hent]; exact List.mem_map_of_mem _ hle)
  rw [← he] at htaken
  obtain ⟨res, err, hsave⟩ := Replicator.saved_of_taken hR₂ hidle htaken hne rfl hdec
  refine ⟨acts₁ ++ acts₂, cl₂, s₂, by rw [Cluster.run_append, hrun₁, Option.some_bind, hrun₂], hs₂,
    (hk₂.returned (slotInv_of_reachable hR) hc trivial).trans hc.symm, le, hlog₂ ▸ hle, hn,
    by rw [hk₂.requests, hlek]; exact hk,
    res, err, by rw [← he]; exact hsave⟩

/-- In `routingTrace`, node 1's `Save` of `[1]` times out before the engine committed anything; the engine can
still commit its envelope, and node 1's store saves `[1]`. -/
theorem timed_out_save_still_applies_routed : ∃ cl s, ClusterReachable cl ∧ cl.nodes[0]? = some s ∧
    (s.calls 0).map Call.phase = some (.returned (2 ^ 48 + 1) [] (some (.context .deadlineExceeded)) .timeout) ∧
    ∃ acts cl' s', cl.run acts = some cl' ∧ cl'.nodes[0]? = some s' ∧ s'.calls 0 = s.calls 0 ∧
      ∃ le ∈ cl'.log, le.node = 0 ∧
        ∃ res err, StoreCall.save ⟨le.entry.index, le.entry.term⟩ [1] res err ∈ s'.storeLog := by
  obtain ⟨cl, hrun, hfit, hnode⟩ : ∃ cl,
      (Cluster.init [(echoStore, 1, 0), (echoStore, 2, 0)]).run
        (routingTrace.take 9 ++ [ClusterAction.node 0 (.timeout 0 .deadlineExceeded)]) = some cl ∧ cl.RequestsFit ∧
      (cl.nodes[0]?.map fun s =>
        ((s.calls 0).map fun call => (call.op, call.phase), s.crash, s.applier, s.loadedSnapshot)) =
        some (some (.save [1], .returned (2 ^ 48 + 1) [] (some (.context .deadlineExceeded)) .timeout), none,
          .idle, false) :=
    ⟨_, rfl, by decide, by decide⟩
  have hcl := (ClusterReachable.init _).run hrun
  obtain ⟨s, hs, hsa⟩ := Option.map_eq_some'.1 hnode
  simp only [Prod.mk.injEq] at hsa
  obtain ⟨hc, hcrash, hidle, hsnap⟩ := hsa
  obtain ⟨⟨op, phase, slot, src⟩, hc, hop⟩ := Option.map_eq_some'.1 hc
  cases hop
  obtain ⟨acts, cl', s', hrun', hs', hcalls, le, hle, hn, -, hsave⟩ := timed_out_save_still_applies hcl hfit hs hc
    (by decide) hcrash (by rw [hidle]; nofun) hsnap
  exact ⟨cl, s, hcl, hs, by rw [hc]; rfl, acts, cl', s', hrun', hs', hcalls, le, hle, hn, hsave⟩

/-- A `Load` waiting for its read index can always return: when the engine answers its `ReadIndex` with the log's
last index and hands its node the log, the `Load` waits for that index, which the node's cursor reaches, and it
returns what `store.Load` answered after `store.Save` was called for every entry of that log. -/
theorem load_completes {cl : Cluster} (hcl : ClusterReachable cl) (hfit : cl.RequestsFit) {n c id : Nat}
    {s : Replicator} {data : Bytes} (hs : cl.nodes[n]? = some s)
    (hc : s.calls c = some ⟨.load data, .waiting id, none, none⟩) (hcrash : s.crash = none)
    (hopen : s.applier ≠ .closed) (hsnap : s.loadedSnapshot = false) :
    ∃ acts cl' s', cl.run acts = some cl' ∧ cl'.nodes[n]? = some s' ∧ ∃ res err pre,
      (s'.calls c).map Call.phase = some (.returned id res err .stored) ∧
      s'.storeLog = pre ++ [.load data res err (cl.log.length % 2 ^ 64)] ∧ (res, err) = s'.store.load pre data ∧
      (pre.filterMap StoreCall.applyCall).filter ApplyCall.isSave = cl.logSaves := by
  have hR := hcl.node s (List.getElem?_mem hs)
  have hsl := slotInv_of_reachable hR
  -- its `ReadIndex` was handed to the engine, which answers it with the log's last index
  obtain ⟨k, hk⟩ := List.getElem?_of_mem (((answerInv_of_reachable hR).calls c _ hc).2.2 trivial)
  have hid : id < 2 ^ 64 := (key_lt_of_reachable hR).2 c _ hc
  have h₁ : s.step (.readState ⟨cl.log.length, putUint64 id⟩) = some _ :=
    Replicator.step_readState_waiting hid hcrash (hsl.waiter_iff.2 ⟨_, hc, trivial, rfl, rfl⟩) hc
  set s₁ : Replicator := { s with
    readStates := s.readStates ++ [⟨cl.log.length, putUint64 id⟩]
    waiter := Function.update s.waiter id none
    calls := Function.update s.calls c (some ⟨.load data, .waiting id, some ⟨putUint64 cl.log.length, none⟩,
      some (.readState ⟨cl.log.length, putUint64 id⟩)⟩) }
  have hd₁ := Cluster.step_answer hs hk h₁
  have hcl₁ := hcl.step _ hd₁
  have hn₁ : ({ cl with nodes := cl.nodes.set n s₁ } : Cluster).nodes[n]? = some s₁ :=
    List.getElem?_set_self (List.getElem?_eq_some_iff.1 hs).1
  have hkept₁ : cl.ClientsKept { cl with nodes := cl.nodes.set n s₁ } :=
    Cluster.ClientsKept.set hs (Replicator.ClientsKept.step hsl h₁ rfl) rfl
  -- the node takes the whole log, and the `Load` still waits, with the read index in its slot
  obtain ⟨acts₂, cl₂, s₂, -, hrun₂, hlog₂, -, hs₂, hk₂, hidle, hcrash₂, hent⟩ :=
    Cluster.catchUp_whole hcl₁ (hfit.kept hkept₁) hn₁ hcrash hopen hsnap
  obtain ⟨slot₂, src₂, hc₂, hslot | ⟨rfl, -⟩⟩ :=
    hk₂.waiting (show s₁.calls c = some _ from Function.update_same _ _ _) trivial
  · cases hslot
  -- the cursor reaches the log's last index, after the `Save` calls of the whole log
  obtain ⟨hsaves, hwait⟩ := Cluster.caughtUp (hcl₁.run hrun₂) hs₂ hidle (hlog₂ ▸ hent)
  simp only [Cluster.logSaves, hlog₂] at hsaves hwait
  set s₃ := s₂.setPhase c (.applyWaiting id (cl.log.length % 2 ^ 64) true)
  set r := s₃.store.load s₃.storeLog data
  set s₄ : Replicator := { s₃.setPhase c (.returned id r.1 r.2 .stored) with
    storeLog := s₃.storeLog ++ [.load data r.1 r.2 (cl.log.length % 2 ^ 64)] }
  have h₂ : s₂.run [.receive c, .loadStore c] = some s₄ := by
    simp [Replicator.run, Replicator.step, Replicator.act, Replicator.receive, Replicator.loadStore,
      Replicator.setPhase, hcrash₂, hc₂, uint64_putUint64, hwait, Nat.mod_le, s₄, r, s₃]
  refine ⟨[.answer n k cl.log.length] ++ acts₂ ++ [.node n (.receive c), .node n (.loadStore c)],
    { cl₂ with nodes := cl₂.nodes.set n s₄ }, s₄, ?_, List.getElem?_set_self (List.getElem?_eq_some_iff.1 hs₂).1,
    r.1, r.2, s₂.storeLog, by simp [s₄, Replicator.setPhase, hc₂, s₃], rfl, rfl, hsaves⟩
  rw [Cluster.run_append, Cluster.run_append]
  simp only [Cluster.run, hd₁, Option.some_bind]
  rw [hrun₂, Option.some_bind]
  exact Cluster.run_node hs₂ (by simp [Action.fromEngine]) h₂

/-- In `routingTrace` once the engine committed its three entries and before it answered node 1's `ReadIndex`,
node 1's `Load` of `[7]` reads at index 3, after its store saved node 2's `[2]` and its own `[1]`. -/
theorem load_completes_routed : ∃ cl, ClusterReachable cl ∧ ∃ acts cl' s', cl.run acts = some cl' ∧
    cl'.nodes[0]? = some s' ∧ ∃ res err pre,
      (s'.calls 1).map Call.phase = some (.returned (2 ^ 48 + 2) res err .stored) ∧
      s'.storeLog = pre ++ [.load [7] res err 3] ∧ (res, err) = s'.store.load pre [7] ∧
      (pre.filterMap StoreCall.applyCall).filter ApplyCall.isSave = [.save ⟨1, 1⟩ [2], .save ⟨2, 1⟩ [1]] := by
  obtain ⟨cl, hrun, hfit, hlen, hsaves, hnode⟩ : ∃ cl,
      (Cluster.init [(echoStore, 1, 0), (echoStore, 2, 0)]).run (routingTrace.take 15) = some cl ∧
      cl.RequestsFit ∧ cl.log.length = 3 ∧ cl.logSaves = [.save ⟨1, 1⟩ [2], .save ⟨2, 1⟩ [1]] ∧
      (cl.nodes[0]?.map fun s => (s.calls 1, s.crash, s.applier, s.loadedSnapshot)) =
        some (some ⟨.load [7], .waiting (2 ^ 48 + 2), none, none⟩, none, .idle, false) :=
    ⟨_, rfl, by decide, by decide, by decide, by decide⟩
  have hcl := (ClusterReachable.init _).run hrun
  obtain ⟨s, hs, hsa⟩ := Option.map_eq_some'.1 hnode
  simp only [Prod.mk.injEq] at hsa
  obtain ⟨hc, hcrash, hidle, hsnap⟩ := hsa
  obtain ⟨acts, cl', s', hrun', hs', res, err, pre, hp, hlog, hload, hpre⟩ :=
    load_completes hcl hfit hs hc hcrash (by rw [hidle]; nofun) hsnap
  exact ⟨cl, hcl, acts, cl', s', hrun', hs', res, err, pre, hp, by rw [hlog, hlen]; rfl, hload, hpre.trans hsaves⟩

end Nexus
