import Nexus.Routing

/-!
# Progress: no node is stuck behind the log

`readCommits` never blocks: from every reachable state it finishes what it took last (`Reachable.finish`),
since its `waiter.Trigger` finds an empty slot or none.  And the engine can always hand a node the rest of the
committed log: every entry is the entry of a request that fits the wire types, so it decodes, and
`readCommits` applies it without dying.  So every live node that loaded no snapshot catches up by deliveries and
steps of its own `readCommits` alone (`node_catches_up`): it takes the whole log, makes exactly the `store.Save`
calls the log asks for, and its apply cursor reaches the log's last index.

On the way: only a goroutine's own steps move it (`Replicator.step_pending_phase`), and a step that starts no
goroutine and hands the engine nothing keeps the goroutines and the requests (`Replicator.step_quiet`).
-/

namespace Nexus

theorem set_getElem?_self {α : Type} {l : List α} {n : Nat} {a : α} (h : l[n]? = some a) : l.set n a = l := by
  apply List.ext_getElem?
  intro i
  rw [List.getElem?_set]
  split
  · subst_vars; rw [h, if_pos (List.getElem?_eq_some_iff.1 h).1]
  · rfl

/-! ### Only a goroutine's own steps move it -/

/-- The client goroutine whose code an action runs, if it runs one.  `.propose c err` is goroutine `c`'s call
to `Propose`, `ReadIndex` or `ProposeConfChange` returning with the engine's answer `err`: a step of `c`, though
whether it ever returns is up to the engine and the context the call was given. -/
def Action.client : Action → Option Nat
  | .save c _ | .load c _ | .addMember c _ _ | .removeMember c _ | .register c | .propose c _ | .receive c
  | .timeout c _ | .loadStore c => some c
  | _ => none

namespace Replicator

variable {s s' : Replicator} {c : Nat} {call : Call}

theorem run_cons_of_step {a : Action} {s₁ : Replicator} (h : s.step a = some s₁) (as : List Action) :
    s.run (a :: as) = s₁.run as := by
  simp only [run, h, Option.some_bind]

theorem setPhase_calls_ne {c' : Nat} (p : Phase) (h : c ≠ c') : (s.setPhase c' p).calls c = s.calls c := by
  rw [setPhase_calls, if_neg h]

/-- A goroutine waiting for its slot is moved only by its own steps: every other step keeps its phase. -/
theorem step_pending_phase {a : Action} (h : s.step a = some s') (ha : a.client ≠ some c)
    (hc : s.calls c = some call) (hp : call.phase.Pending) :
    ∃ call', s'.calls c = some call' ∧ call'.phase = call.phase := by
  obtain ⟨-, h⟩ := step_some h
  have hsame : ∀ {t : Replicator}, t.calls c = s.calls c → ∃ call', t.calls c = some call' ∧ call'.phase = call.phase :=
    fun ht => ⟨call, ht.trans hc, rfl⟩
  have hne : ∀ {c'}, a.client = some c' → c ≠ c' := fun h' hcc => ha (hcc ▸ h')
  -- a goroutine's own trigger, then its return
  have hown : ∀ {c' id} {v : InternalNexusResponse} {s₁ : Replicator} {p : Phase}, a.client = some c' →
      s.trigger id v .own = some s₁ → ∃ call', (s₁.setPhase c' p).calls c = some call' ∧ call'.phase = call.phase :=
    fun ha' h₁ => by rw [setPhase_calls_ne _ (hne ha')]; exact trigger_phase h₁ hc
  -- another goroutine's start
  have hspawn : ∀ {c' : Nat} {op : Op}, a.client = some c' → s.spawn c' op = some s' →
      ∃ call', s'.calls c = some call' ∧ call'.phase = call.phase :=
    fun ha' h₁ => by obtain ⟨-, rfl⟩ := spawn_some h₁; exact hsame (Function.update_noteq (hne ha') _ _)
  cases a with
  | save c' data => exact hspawn rfl (show s.spawn c' (.save data) = some s' from h)
  | load c' data => exact hspawn rfl (show s.spawn c' (.load data) = some s' from h)
  | addMember c' opts dial =>
    simp only [act] at h
    split at h
    · exact hspawn rfl h
    · cases h; exact hsame rfl
  | removeMember c' opts =>
    simp only [act] at h
    split at h
    · exact hspawn rfl h
    · cases h; exact hsame rfl
  | register c' =>
    obtain ⟨_, _, _, _, -, ⟨-, rfl⟩ | ⟨-, rfl⟩⟩ := register_some h
    · exact hsame rfl
    · exact hsame (Function.update_noteq (hne rfl) _ _)
  | propose c' err =>
    obtain ⟨_, _, _, _, -, ⟨-, rfl⟩ | ⟨_, _, -, h₁, rfl⟩⟩ := propose_some h
    · exact hsame (Function.update_noteq (hne rfl) _ _)
    · exact hown rfl h₁
  | receive c' =>
    obtain ⟨_, _, _, _, -, hcases⟩ := receive_some h
    rcases hcases with ⟨_, -, rfl⟩ | ⟨_, -, rfl⟩ | ⟨_, _, -, -, rfl⟩ | ⟨_, -, -, -, rfl⟩ | ⟨_, _, -, -, -, rfl⟩
    all_goals first | exact hsame rfl | exact hsame (setPhase_calls_ne _ (hne rfl))
  | timeout c' e =>
    rcases timeout_some h with ⟨_, _, _, _, _, -, h₁, rfl⟩ | ⟨_, _, _, _, _, _, -, rfl⟩
    · exact hown rfl h₁
    · exact hsame (setPhase_calls_ne _ (hne rfl))
  | loadStore c' =>
    obtain ⟨_, _, _, _, _, -, rfl⟩ := loadStore_some h
    exact hsame (setPhase_calls_ne _ (hne rfl))
  | applySentinel snap =>
    obtain ⟨-, ⟨-, rfl⟩ | ⟨_, -, rfl⟩ | ⟨_, -, rfl⟩⟩ := applySentinel_some h <;> exact hsame rfl
  | applyRestore =>
    obtain ⟨_, -, ⟨-, rfl⟩ | ⟨_, -, rfl⟩⟩ := applyRestore_some h <;> exact hsame rfl
  | applyEntry e =>
    obtain ⟨-, ⟨-, rfl⟩ | ⟨-, -, rfl⟩ | ⟨_, -, -, -, rfl⟩ | ⟨_, -, -, -, rfl⟩⟩ := applyEntry_some h <;>
      exact hsame rfl
  | applySave =>
    obtain ⟨_, _, -, rfl⟩ := applySave_some h
    exact hsame rfl
  | applyReply =>
    obtain ⟨_, _, _, s₁, -, h₁, rfl⟩ := applyReply_some h
    obtain ⟨call', h₂, h₃⟩ := trigger_phase h₁ hc
    exact ⟨call', h₂, h₃⟩
  | applyAdvance =>
    obtain ⟨d, -, rfl⟩ := applyAdvance_some h
    refine ⟨call.release d, by simp [hc], ?_⟩
    rcases call.release_phase d with h' | ⟨_, _, h', -⟩
    · exact h'
    · rw [h'] at hp; exact False.elim hp
  | closeCommits err =>
    obtain ⟨-, ⟨-, rfl⟩ | ⟨_, -, rfl⟩⟩ := closeCommits_some h <;> exact hsame rfl
  | readState rd =>
    rcases readState_some h with ⟨-, rfl⟩ | ⟨_, -, h₁⟩
    · exact hsame rfl
    · exact trigger_phase h₁ hc

/-- A step that starts no goroutine and hands the engine no request keeps the requests and adds no goroutine. -/
theorem step_quiet {a : Action} (h : s.step a = some s') (hs : ¬a.Starts) (hp : ∀ c, a ≠ .propose c none) :
    s'.requests = s.requests ∧ ∀ c, s.calls c = none → s'.calls c = none := by
  refine ⟨?_, ?_⟩
  · rcases (step_logs h).requests with h' | ⟨c, _, rfl, -⟩
    · exact h'
    · exact absurd rfl (hp c)
  · rcases step_spawn h with ⟨h', -⟩ | ⟨-, -, -, h'⟩
    · exact absurd h' hs
    · exact h'

end Replicator

/-! ### `readCommits` finishes what it took -/

/-- The steps left to `readCommits` for what it took last: `store.Restore`; `store.Save`, `waiter.Trigger` and
`applyWait.Trigger`; or what remains of them. -/
def Applier.rest : Applier → List Action
  | .restore _ => [.applyRestore]
  | .save .. => [.applySave, .applyReply, .applyAdvance]
  | .reply .. => [.applyReply, .applyAdvance]
  | .advance _ => [.applyAdvance]
  | .idle | .closed => []

/-- `readCommits` finishes what it took last: its trigger finds an empty slot or none, so it never blocks, and
once `store.Restore` accepts a pending snapshot nothing kills the node. -/
theorem Reachable.finish {s : Replicator} (hs : Reachable s) (hcrash : s.crash = none) (hopen : s.applier ≠ .closed)
    (hrestore : ∀ data, s.applier = .restore data → s.store.restore s.storeLog data = none) :
    ∃ s', s.run s.applier.rest = some s' ∧ s'.applier = .idle ∧ s'.crash = none ∧ s'.commits = s.commits := by
  -- the waiter's trigger for the entry, then the cursor's
  have hreply : ∀ {t : Replicator} {id : Nat} {v : InternalNexusResponse} {e : Entry}, Reachable t →
      t.crash = none → t.applier = .reply id v e → ∃ t', t.run [.applyReply, .applyAdvance] = some t' ∧
        t'.applier = .idle ∧ t'.crash = none ∧ t'.commits = t.commits := by
    intro t id v e ht hc ha
    obtain ⟨t₁, h₁⟩ := Option.isSome_iff_exists.1 ((slotInv_of_reachable ht).trigger_isSome id v (.entry e))
    obtain ⟨w, calls, rfl⟩ := Replicator.trigger_frame h₁
    exact ⟨{ { t with waiter := w, calls := calls, applier := .advance e.index }.applyWaitTrigger e.index with
      applier := .idle }, by simp [Replicator.run, Replicator.step, Replicator.act, Replicator.applyReply,
        Replicator.applyAdvance, hc, ha, h₁], rfl, hc, rfl⟩
  cases hap : s.applier with
  | idle => exact ⟨s, rfl, hap, hcrash, rfl⟩
  | closed => exact absurd hap hopen
  | restore data =>
    exact ⟨{ s with storeLog := s.storeLog ++ [.restore data none], applier := .idle }, by
      simp [Applier.rest, Replicator.run, Replicator.step, Replicator.act, Replicator.applyRestore, hcrash, hap,
        hrestore data hap], rfl, hcrash, rfl⟩
  | save e r =>
    cases h₁ : s.step .applySave with
    | none => simp [Replicator.step, Replicator.act, Replicator.applySave, hcrash, hap] at h₁
    | some s₁ =>
      obtain ⟨e', r', -, rfl⟩ := Replicator.applySave_some (Replicator.step_some h₁).2
      obtain ⟨t, ht, h₂, h₃, h₄⟩ := hreply (hs.step _ h₁) hcrash rfl
      exact ⟨t, (Replicator.run_cons_of_step h₁ _).trans ht, h₂, h₃, h₄⟩
  | reply id v e => exact hreply hs hcrash hap
  | advance i =>
    exact ⟨{ s.applyWaitTrigger i with applier := .idle }, by
      simp [Applier.rest, Replicator.run, Replicator.step, Replicator.act, Replicator.applyAdvance, hcrash, hap],
      rfl, hcrash, rfl⟩

/-- An idle `readCommits` takes an entry that decodes to a key without dying. -/
theorem Replicator.applyEntry_of_key {s : Replicator} {e : Entry} {id : Nat} (hcrash : s.crash = none)
    (hidle : s.applier = .idle) (hkey : e.key = some id) :
    ∃ s', s.step (.applyEntry e) = some s' ∧ s'.commits = s.commits ++ [.entry e] ∧ s'.crash = none ∧
      s'.applier ≠ .closed ∧ ∀ data, s'.applier ≠ .restore data := by
  unfold Entry.key at hkey
  by_cases hd : e.data = []
  · exact ⟨{ s with commits := s.commits ++ [.entry e], applier := .advance e.index },
      by simp [Replicator.step, Replicator.act, Replicator.applyEntry, hcrash, hidle, hd], rfl, hcrash, nofun, nofun⟩
  · cases ht : e.type <;> rw [ht] at hkey
    · obtain ⟨r, hr, -⟩ := Option.map_eq_some'.1 hkey
      exact ⟨{ s with commits := s.commits ++ [.entry e], applier := .save e r },
        by simp [Replicator.step, Replicator.act, Replicator.applyEntry, hcrash, hidle, hd, ht, hr], rfl, hcrash,
        nofun, nofun⟩
    · obtain ⟨cc, hcc, -⟩ := Option.map_eq_some'.1 hkey
      exact ⟨{ s with commits := s.commits ++ [.entry e], applier := .reply cc.id ⟨e.data, none⟩ e },
        by simp [Replicator.step, Replicator.act, Replicator.applyEntry, hcrash, hidle, hd, ht, hcc], rfl, hcrash,
        nofun, nofun⟩

theorem Applier.client_rest {ap : Applier} {a : Action} (h : a ∈ ap.rest) :
    a.client = none ∧ a.fromEngine = false := by
  cases ap <;> simp only [Applier.rest, List.mem_cons, List.mem_singleton, List.not_mem_nil, or_false] at h <;>
    rcases h with rfl | rfl | rfl <;> exact ⟨rfl, rfl⟩

/-- `readCommits` restores only a snapshot it took. -/
theorem ApplyInv.loadedSnapshot_of_restore {s : Replicator} (hi : ApplyInv s) {data : Bytes}
    (h : s.applier = .restore data) : s.loadedSnapshot = true := by
  have hmem : ApplyCall.restore data ∈ applyRef s.commits := by
    rw [← hi.calls_ref, h]; simp [Applier.pending]
  obtain ⟨x, hx, hcall⟩ := List.mem_flatMap.1 hmem
  refine List.any_eq_true.2 ⟨x, hx, ?_⟩
  rcases x with (_ | _ | _) | e
  · rfl
  all_goals simp only [applyOne] at hcall
  · cases hcall
  · cases hcall
  · split at hcall
    · split at hcall <;> simp at hcall
    · cases hcall

/-! ### The cursor over the log -/

theorem lastIndex_eq (d : Nat) (cs : List Commit) :
    lastIndex d cs = (((cs.filterMap Commit.entry?).getLast?).map Entry.index).getD d := by
  induction cs generalizing d with
  | nil => rfl
  | cons x cs ih =>
    cases x with
    | sentinel _ => exact ih d
    | entry e =>
      rw [lastIndex, ih, show (Commit.entry e :: cs).filterMap Commit.entry? = e :: cs.filterMap Commit.entry? from rfl,
        List.getLast?_cons]
      cases (cs.filterMap Commit.entry?).getLast? <;> rfl

/-- Over entries numbered from 1, the cursor stands at the number of entries taken. -/
theorem cursorRef_of_numbered {cs : List Commit}
    (h : ∀ (j : Nat) (e : Entry), (cs.filterMap Commit.entry?)[j]? = some e → e.index = j + 1) :
    cursorRef cs = (cs.filterMap Commit.entry?).length := by
  rw [cursorRef, lastIndex_eq, List.getLast?_eq_getElem?]
  cases hj : (cs.filterMap Commit.entry?)[(cs.filterMap Commit.entry?).length - 1]? with
  | none =>
    rw [List.getElem?_eq_none_iff] at hj
    simp only [Option.map_none', Option.getD_none]
    omega
  | some e =>
    have := (List.getElem?_eq_some_iff.1 hj).1
    simp only [Option.map_some', Option.getD_some, h _ e hj]
    omega

/-! ### A node's steps in the cluster -/

namespace Cluster

variable {cl cl' : Cluster}

/-- A node's step that takes nothing from the engine's streams is a step of the cluster. -/
theorem step_node {n : Nat} {s s' : Replicator} {a : Action} (hs : cl.nodes[n]? = some s)
    (hfe : a.fromEngine = false) (h : s.step a = some s') :
    cl.step (.node n a) = some { cl with nodes := cl.nodes.set n s' } := by
  simp [step, update, hs, h, hfe]

/-- The engine hands node `n` the next log entry. -/
theorem step_deliver {n : Nat} {s s' : Replicator} {le : LogEntry} (hs : cl.nodes[n]? = some s)
    (hle : cl.log[cl.applied n]? = some le) (h : s.step (.applyEntry le.entry) = some s') :
    cl.step (.deliver n) =
      some { cl with nodes := cl.nodes.set n s', applied := Function.update cl.applied n (cl.applied n + 1) } := by
  simp [step, update, hs, hle, h]

theorem run_append (as bs : List ClusterAction) : cl.run (as ++ bs) = (cl.run as).bind (·.run bs) := by
  induction as generalizing cl with
  | nil => rfl
  | cons a as ih =>
    simp only [List.cons_append, run]
    cases cl.step a <;> simp [ih]

/-- Node `n`'s own steps that take nothing from the streams run in the cluster. -/
theorem run_node {n : Nat} {s s' : Replicator} {as : List Action} (hs : cl.nodes[n]? = some s)
    (has : ∀ a ∈ as, a.fromEngine = false) (h : s.run as = some s') :
    cl.run (as.map (.node n)) = some { cl with nodes := cl.nodes.set n s' } := by
  induction as generalizing cl s with
  | nil =>
    cases h
    simp [run, set_getElem?_self hs]
  | cons a as ih =>
    obtain ⟨s₁, h₁, h⟩ := Option.bind_eq_some.1 h
    have hs₁ : ({ cl with nodes := cl.nodes.set n s₁ } : Cluster).nodes[n]? = some s₁ :=
      List.getElem?_set_self (List.getElem?_eq_some_iff.1 hs).1
    rw [List.map_cons, run, step_node hs (has a (List.mem_cons_self _ _)) h₁, Option.some_bind,
      ih hs₁ (fun b hb => has b (List.mem_cons_of_mem _ hb)) h]
    simp [List.set_set]

/-- Every log entry is the engine's entry for the request of a goroutine of its node, and decodes to that
goroutine's key. -/
theorem log_entry_key (hcl : ClusterReachable cl) (hfit : cl.RequestsFit) {le : LogEntry} (hle : le ∈ cl.log) :
    ∃ s c call, cl.nodes[le.node]? = some s ∧ s.calls c = some call ∧
      s.requests[le.request]? = some (c, call.op.request call.phase.id) ∧ le.entry.key = some call.phase.id := by
  obtain ⟨s, c, r, term, index, hs, hk, he⟩ := (clusterInv_of_reachable hcl).origin le hle
  have hR := hcl.node s (List.getElem?_mem hs)
  obtain ⟨call, hc, rfl, -⟩ := (slotInv_of_reachable hR).requests_slot (List.getElem?_mem hk)
  refine ⟨s, c, call, hs, hc, hk, ?_⟩
  rw [Request.key_entry he]
  exact Op.key_request ((key_lt_of_reachable hR).2 c call hc) (hfit s (List.getElem?_mem hs) _ (List.getElem?_mem hk))

end Cluster

/-- The engine numbers the log from 1. -/
theorem ClusterReachable.log_index {cl : Cluster} (hcl : ClusterReachable cl) :
    ∀ (j : Nat) (le : LogEntry), cl.log[j]? = some le → le.entry.index = j + 1 := by
  induction hcl with
  | init nodes => intro j le h; simp [Cluster.init] at h
  | step a _ hstep ih =>
    intro j le h
    rcases Cluster.step_cases hstep with ⟨-, x, heq, hx, -⟩ | ⟨heq, -⟩ <;> rw [heq] at h
    · rcases Nat.lt_or_ge j (List.length _) with hj | hj
      · rw [List.getElem?_append_left hj] at h
        exact ih j le h
      · rw [List.getElem?_append_right hj] at h
        cases hjl : j - List.length _ with
        | zero =>
          rw [hjl] at h
          obtain rfl : x = le := Option.some.inj h
          omega
        | succ m => rw [hjl] at h; simp at h
    · exact ih j le h

/-- The log's entries are numbered from 1 up to its length. -/
theorem Cluster.index_le_length {cl : Cluster} (hcl : ClusterReachable cl) {le : LogEntry} (hle : le ∈ cl.log) :
    le.entry.index ≤ cl.log.length := by
  obtain ⟨j, hj⟩ := List.getElem?_of_mem hle
  rw [hcl.log_index j le hj]
  exact (List.getElem?_eq_some_iff.1 hj).1

/-! ### What the steps of no client goroutine keep -/

/-- `s'` is `s` after steps that no client goroutine ran: the same requests and goroutines, each goroutine
evolved, and each one waiting for its slot still in its phase. -/
structure Replicator.ClientsKept (s s' : Replicator) : Prop where
  requests : s'.requests = s.requests
  calls : ∀ c, Call.Evolves (s.calls c) (s'.calls c)
  fresh : ∀ c, s.calls c = none → s'.calls c = none
  pending : ∀ c call, s.calls c = some call → call.phase.Pending →
    ∃ call', s'.calls c = some call' ∧ call'.phase = call.phase

namespace Replicator.ClientsKept

theorem refl (s : Replicator) : s.ClientsKept s :=
  ⟨rfl, fun _ => .refl _, fun _ h => h, fun _ call h _ => ⟨call, h, rfl⟩⟩

theorem trans {s₁ s₂ s₃ : Replicator} (h₁ : s₁.ClientsKept s₂) (h₂ : s₂.ClientsKept s₃) : s₁.ClientsKept s₃ where
  requests := h₂.requests.trans h₁.requests
  calls c := (h₁.calls c).trans (h₂.calls c)
  fresh c h := h₂.fresh c (h₁.fresh c h)
  pending c call hc hp := by
    obtain ⟨call₂, hc₂, hp₂⟩ := h₁.pending c call hc hp
    obtain ⟨call₃, hc₃, hp₃⟩ := h₂.pending c call₂ hc₂ (hp₂ ▸ hp)
    exact ⟨call₃, hc₃, hp₃.trans hp₂⟩

/-- A step that no client goroutine runs keeps the goroutines. -/
theorem step {s s' : Replicator} (hi : SlotInv s) {a : Action} (h : s.step a = some s') (ha : a.client = none) :
    s.ClientsKept s' := by
  have hq := Replicator.step_quiet h (by cases a <;> simp_all [Action.Starts, Action.client])
    (by rintro c rfl; cases ha)
  exact ⟨hq.1, hi.step_evolves h, hq.2, fun c call hc hp => Replicator.step_pending_phase h (by rw [ha]; nofun) hc hp⟩

/-- A goroutine waiting for its slot keeps its operation and its phase, and a filled slot keeps its value and
the one who filled it. -/
theorem waiting {s s' : Replicator} (hk : s.ClientsKept s') {c : Nat} {call : Call} (hc : s.calls c = some call)
    (hp : call.phase.Pending) : ∃ slot src, s'.calls c = some ⟨call.op, call.phase, slot, src⟩ ∧
      (call.slot = none ∨ slot = call.slot ∧ src = call.source) := by
  obtain ⟨⟨op, p, slot, src⟩, hc', rfl⟩ := hk.pending c call hc hp
  have hev := hk.calls c
  rw [hc, hc'] at hev
  obtain ⟨rfl, -, hslot, -⟩ := hev
  exact ⟨slot, src, hc', hslot⟩

end Replicator.ClientsKept

/-- The steps of node `n`'s `readCommits` in the cluster: the engine handing it the next entry, and its own
steps that no client goroutine runs. -/
def ClusterAction.Applies (n : Nat) : ClusterAction → Prop
  | .deliver m => m = n
  | .node m a => m = n ∧ a.client = none
  | _ => False

namespace Cluster

variable {cl cl' : Cluster}

theorem step_applies {a : ClusterAction} {n : Nat} (ha : a.Applies n) (h : cl.step a = some cl') :
    ∃ s s' b, cl.nodes[n]? = some s ∧ s.step b = some s' ∧ b.client = none ∧
      cl'.nodes = cl.nodes.set n s' ∧ cl'.log = cl.log := by
  cases a with
  | node m b =>
    obtain ⟨rfl, hb⟩ := ha
    simp only [step] at h
    split at h
    · cases h
    · obtain ⟨s, s', hs, h', rfl⟩ := update_some h
      exact ⟨s, s', b, hs, h', hb, rfl, rfl⟩
  | deliver m =>
    cases ha
    simp only [step, Option.bind_eq_bind, Option.bind_eq_some, Option.some.injEq] at h
    obtain ⟨le, -, cl₁, hu, rfl⟩ := h
    obtain ⟨s₀, s', hs, h', rfl⟩ := update_some hu
    exact ⟨s₀, s', _, hs, h', rfl, rfl, rfl⟩
  | commit => exact ha.elim
  | install => exact ha.elim
  | answer => exact ha.elim

/-- Every node of `cl'` is the node of `cl` at its place, with its goroutines and requests kept. -/
def ClientsKept (cl cl' : Cluster) : Prop :=
  ∀ (m : Nat) (s' : Replicator), cl'.nodes[m]? = some s' → ∃ s, cl.nodes[m]? = some s ∧ s.ClientsKept s'

theorem ClientsKept.refl (cl : Cluster) : cl.ClientsKept cl := fun _ s hs => ⟨s, hs, .refl s⟩

theorem ClientsKept.trans {cl₁ cl₂ cl₃ : Cluster} (h₁ : cl₁.ClientsKept cl₂) (h₂ : cl₂.ClientsKept cl₃) :
    cl₁.ClientsKept cl₃ := fun m s₃ hs₃ => by
  obtain ⟨s₂, hs₂, hk₂⟩ := h₂ m s₃ hs₃
  obtain ⟨s₁, hs₁, hk₁⟩ := h₁ m s₂ hs₂
  exact ⟨s₁, hs₁, hk₁.trans hk₂⟩

theorem ClientsKept.set {n : Nat} {s s' : Replicator} (hs : cl.nodes[n]? = some s) (hk : s.ClientsKept s')
    (hn : cl'.nodes = cl.nodes.set n s') : cl.ClientsKept cl' := fun m t ht => by
  rw [hn] at ht
  rcases getElem?_set_node hs ht with ⟨rfl, rfl⟩ | ⟨-, ht⟩
  · exact ⟨s, hs, hk⟩
  · exact ⟨t, ht, .refl t⟩

/-- A run of node `n`'s `readCommits` keeps the log and every node's goroutines and requests. -/
theorem run_applies (hcl : ClusterReachable cl) {n : Nat} {acts : List ClusterAction}
    (ha : ∀ a ∈ acts, a.Applies n) (h : cl.run acts = some cl') : cl'.log = cl.log ∧ cl.ClientsKept cl' := by
  induction acts generalizing cl with
  | nil => cases h; exact ⟨rfl, .refl _⟩
  | cons a acts ih =>
    obtain ⟨cl₁, h₁, h⟩ := Option.bind_eq_some.1 h
    obtain ⟨s₀, s₁, b, hs₀, hb, hcb, hn, hlog₁⟩ := step_applies (ha a (List.mem_cons_self _ _)) h₁
    obtain ⟨hlog, hk⟩ := ih (hcl.step a h₁) (fun a' h' => ha a' (List.mem_cons_of_mem _ h')) h
    have hR := hcl.node _ (List.getElem?_mem hs₀)
    exact ⟨hlog.trans hlog₁,
      (ClientsKept.set hs₀ (Replicator.ClientsKept.step (slotInv_of_reachable hR) hb hcb) hn).trans hk⟩

/-- An idle node takes the rest of the log from its applied index on, entry by entry, when every entry of it
decodes. -/
theorem catchUp_idle {k : Nat} : ∀ {cl : Cluster} {n : Nat} {s : Replicator}, ClusterReachable cl →
    (∀ le ∈ cl.log, ∃ id, le.entry.key = some id) → cl.nodes[n]? = some s → s.crash = none →
    s.applier = .idle → cl.log.length - cl.applied n = k →
    ∃ acts cl' s', (∀ a ∈ acts, a.Applies n) ∧ cl.run acts = some cl' ∧ cl'.nodes[n]? = some s' ∧
      s'.applier = .idle ∧ s'.crash = none ∧
      s'.entries = s.entries ++ (cl.log.drop (cl.applied n)).map LogEntry.entry := by
  induction k with
  | zero =>
    intro cl n s hcl _ hs hcrash hidle hk
    have := (clusterInv_of_reachable hcl).applied_le n
    refine ⟨[], cl, s, nofun, rfl, hs, hidle, hcrash, ?_⟩
    rw [List.drop_of_length_le (by omega), List.map_nil, List.append_nil]
  | succ k ih =>
    intro cl n s hcl hkey hs hcrash hidle hk
    have hlt : cl.applied n < cl.log.length := by omega
    obtain ⟨le, hle⟩ : ∃ le, cl.log[cl.applied n]? = some le := ⟨_, List.getElem?_eq_getElem hlt⟩
    obtain ⟨id, hid⟩ := hkey le (List.getElem?_mem hle)
    obtain ⟨s₁, h₁, hc₁, hcrash₁, hopen₁, hrestore₁⟩ := Replicator.applyEntry_of_key hcrash hidle hid
    -- the engine hands it the entry at its applied index
    obtain ⟨cl₁, hd, hs₁, hlog₁, happ⟩ : ∃ cl₁, cl.step (.deliver n) = some cl₁ ∧ cl₁.nodes[n]? = some s₁ ∧
        cl₁.log = cl.log ∧ cl₁.applied n = cl.applied n + 1 :=
      ⟨_, step_deliver hs hle h₁, List.getElem?_set_self (List.getElem?_eq_some_iff.1 hs).1, rfl,
        Function.update_same _ _ _⟩
    have hcl₁ := hcl.step _ hd
    -- and it finishes the entry
    obtain ⟨s₂, hr₂, hidle₂, hcrash₂, hc₂⟩ :=
      (hcl₁.node s₁ (List.getElem?_mem hs₁)).finish hcrash₁ hopen₁ (fun d h => absurd h (hrestore₁ d))
    have hrun₂ := run_node hs₁ (fun a h => (Applier.client_rest h).2) hr₂
    have hs₂ : ({ cl₁ with nodes := cl₁.nodes.set n s₂ } : Cluster).nodes[n]? = some s₂ :=
      List.getElem?_set_self (List.getElem?_eq_some_iff.1 hs₁).1
    obtain ⟨acts, cl', s', hacts, hrun, hs', hidle', hcrash', hent⟩ :=
      ih (hcl₁.run hrun₂) (hlog₁ ▸ hkey) hs₂ hcrash₂ hidle₂ (show cl₁.log.length - cl₁.applied n = k by
        rw [hlog₁, happ]; omega)
    refine ⟨.deliver n :: (s₁.applier.rest.map (.node n) ++ acts), cl', s', ?_, ?_, hs', hidle', hcrash', ?_⟩
    · intro a ha
      simp only [List.mem_cons, List.mem_append, List.mem_map] at ha
      rcases ha with rfl | ⟨b, hb, rfl⟩ | ha
      · rfl
      · exact ⟨rfl, (Applier.client_rest hb).1⟩
      · exact hacts a ha
    · rw [run, hd, Option.some_bind, run_append, hrun₂, Option.some_bind]
      exact hrun
    · -- the entry taken, then the rest
      have hent₂ : s₂.entries = s.entries ++ [le.entry] := by
        rw [Replicator.entries, hc₂, hc₁, List.filterMap_append]; rfl
      have hget : cl.log[cl.applied n] = le := (List.getElem?_eq_some_iff.1 hle).2
      rw [hent, hent₂]
      simp [happ, hlog₁, List.drop_eq_getElem_cons hlt, hget]

/-- A live node whose `readCommits` runs takes the rest of the log from its applied index on: it finishes what
it took, then takes each entry the engine hands it. The run moves no client goroutine, so it keeps the log and
every node's goroutines and requests. -/
theorem catchUp (hcl : ClusterReachable cl) (hfit : cl.RequestsFit) {n : Nat} {s : Replicator}
    (hs : cl.nodes[n]? = some s) (hcrash : s.crash = none) (hopen : s.applier ≠ .closed)
    (hrestore : ∀ data, s.applier = .restore data → s.store.restore s.storeLog data = none) :
    ∃ acts cl' s', (∀ a ∈ acts, a.Applies n) ∧ cl.run acts = some cl' ∧ cl'.log = cl.log ∧ cl.ClientsKept cl' ∧
      cl'.nodes[n]? = some s' ∧ s.ClientsKept s' ∧ s'.applier = .idle ∧ s'.crash = none ∧
      s'.entries = s.entries ++ (cl.log.drop (cl.applied n)).map LogEntry.entry := by
  obtain ⟨s₁, hr₁, hidle₁, hcrash₁, hc₁⟩ := (hcl.node s (List.getElem?_mem hs)).finish hcrash hopen hrestore
  have hrun₁ := run_node hs (fun a h => (Applier.client_rest h).2) hr₁
  have hs₁ : ({ cl with nodes := cl.nodes.set n s₁ } : Cluster).nodes[n]? = some s₁ :=
    List.getElem?_set_self (List.getElem?_eq_some_iff.1 hs).1
  have hkey : ∀ le ∈ cl.log, ∃ id, le.entry.key = some id := fun le hle =>
    let ⟨_, _, _, _, _, _, h⟩ := log_entry_key hcl hfit hle
    ⟨_, h⟩
  obtain ⟨acts, cl', s', hacts, hrun, hs', hidle', hcrash', hent⟩ :=
    catchUp_idle (hcl.run hrun₁) hkey hs₁ hcrash₁ hidle₁ rfl
  have hacts' : ∀ a ∈ s.applier.rest.map (.node n) ++ acts, a.Applies n := by
    intro a ha
    simp only [List.mem_append, List.mem_map] at ha
    rcases ha with ⟨b, hb, rfl⟩ | ha
    · exact ⟨rfl, (Applier.client_rest hb).1⟩
    · exact hacts a ha
  have hrun' : cl.run (s.applier.rest.map (.node n) ++ acts) = some cl' := by
    rw [run_append, hrun₁, Option.some_bind, hrun]
  obtain ⟨hlog, hkept⟩ := run_applies hcl hacts' hrun'
  obtain ⟨s₀, hs₀, hk⟩ := hkept n s' hs'
  rw [hs, Option.some.injEq] at hs₀
  have hent₁ : s₁.entries = s.entries := by rw [Replicator.entries, hc₁]; rfl
  exact ⟨_, cl', s', hacts', hrun', hlog, hkept, hs', hs₀ ▸ hk, hidle', hcrash', hent₁ ▸ hent⟩

/-- A live node that restored no snapshot takes the whole log. -/
theorem catchUp_whole (hcl : ClusterReachable cl) (hfit : cl.RequestsFit) {n : Nat} {s : Replicator}
    (hs : cl.nodes[n]? = some s) (hcrash : s.crash = none) (hopen : s.applier ≠ .closed)
    (hsnap : s.loadedSnapshot = false) :
    ∃ acts cl' s', (∀ a ∈ acts, a.Applies n) ∧ cl.run acts = some cl' ∧ cl'.log = cl.log ∧ cl.ClientsKept cl' ∧
      cl'.nodes[n]? = some s' ∧ s.ClientsKept s' ∧ s'.applier = .idle ∧ s'.crash = none ∧
      s'.entries = cl.log.map LogEntry.entry := by
  have hi := applyInv_of_reachable (hcl.node s (List.getElem?_mem hs))
  obtain ⟨acts, cl', s', hacts, hrun, hlog, hkept, hs', hk, hidle, hcrash', hent⟩ := catchUp hcl hfit hs hcrash hopen
    fun d h => absurd (hi.loadedSnapshot_of_restore h) (by rw [hsnap]; nofun)
  refine ⟨acts, cl', s', hacts, hrun, hlog, hkept, hs', hk, hidle, hcrash', ?_⟩
  rw [hent, (clusterInv_of_reachable hcl).entries_eq hs hcrash hsnap, ← List.map_append, List.take_append_drop]

end Cluster

/-- A node that took the whole log and is idle has made exactly the `store.Save` calls the log asks for, and its
apply cursor stands at the log's last index. -/
theorem Cluster.caughtUp {cl : Cluster} (hcl : ClusterReachable cl) {n : Nat} {s : Replicator}
    (hs : cl.nodes[n]? = some s) (hidle : s.applier = .idle) (hent : s.entries = cl.log.map LogEntry.entry) :
    s.saves = cl.logSaves ∧ s.applyWait = cl.log.length := by
  have hi := applyInv_of_reachable (hcl.node s (List.getElem?_mem hs))
  have hent' : s.commits.filterMap Commit.entry? = cl.log.map LogEntry.entry := hent
  constructor
  · -- the store calls are the ones the commits call for, and the commits' entries are the log's
    have hc : s.storeLog.filterMap StoreCall.applyCall = applyRef s.commits := by
      simpa [hidle, Applier.pending] using hi.calls_ref
    rw [Replicator.saves, hc, applyRef_filter_isSave, hent', List.map_map]
    rfl
  · -- the entries taken are numbered from 1
    rw [hi.cursor_idle hidle, cursorRef_of_numbered, hent', List.length_map]
    intro j e he
    rw [hent', List.getElem?_map] at he
    obtain ⟨le, hle, rfl⟩ := Option.map_eq_some'.1 he
    exact hcl.log_index j le hle

/-- Every live node that restored no snapshot and whose `readCommits` still runs can take the rest of the committed
log: in a run that only hands it the entries in order and steps its `readCommits`, it applies each one without
blocking or dying, so that the node has taken the whole log, has made exactly the `store.Save` calls the log asks
for, and its apply cursor stands at the log's last index. -/
theorem node_catches_up {cl : Cluster} (hcl : ClusterReachable cl) (hfit : cl.RequestsFit) {n : Nat}
    {s : Replicator} (hs : cl.nodes[n]? = some s) (hcrash : s.crash = none) (hopen : s.applier ≠ .closed)
    (hsnap : s.loadedSnapshot = false) :
    ∃ acts cl' s', (∀ a ∈ acts, a.Applies n) ∧ cl.run acts = some cl' ∧ cl'.log = cl.log ∧
      cl'.nodes[n]? = some s' ∧ s'.entries = cl.log.map LogEntry.entry ∧ s'.applier = .idle ∧ s'.crash = none ∧
      s'.saves = cl.logSaves ∧ s'.applyWait = cl.log.length := by
  obtain ⟨acts, cl', s', hacts, hrun, hlog, -, hs', -, hidle, hcrash', hent⟩ :=
    Cluster.catchUp_whole hcl hfit hs hcrash hopen hsnap
  obtain ⟨hsaves, hwait⟩ := Cluster.caughtUp (hcl.run hrun) hs' hidle (hlog ▸ hent)
  simp only [Cluster.logSaves, hlog] at hsaves hwait
  exact ⟨acts, cl', s', hacts, hrun, hlog, hs', hent, hidle, hcrash', hsaves, hwait⟩

/-- In `routingTrace` once the engine has committed the three entries and before node 1 applied any: node 1
catches up, saving node 2's `[2]` at index 1 and its own `[1]` at index 2, with its cursor at 3. -/
theorem node_catches_up_routed : ∃ cl, ClusterReachable cl ∧ cl.logSaves = [.save ⟨1, 1⟩ [2], .save ⟨2, 1⟩ [1]] ∧
    ∃ acts cl' s', (∀ a ∈ acts, a.Applies 0) ∧ cl.run acts = some cl' ∧ cl'.nodes[0]? = some s' ∧
      s'.applier = .idle ∧ s'.saves = [.save ⟨1, 1⟩ [2], .save ⟨2, 1⟩ [1]] ∧ s'.applyWait = 3 := by
  obtain ⟨cl, hrun, hfit, hnode, hlen, hsaves⟩ : ∃ cl,
      (Cluster.init [(echoStore, 1, 0), (echoStore, 2, 0)]).run (routingTrace.take 16) = some cl ∧
      cl.RequestsFit ∧ (cl.nodes[0]?.map fun s => (s.crash, s.applier, s.loadedSnapshot)) = some (none, .idle, false) ∧
      cl.log.length = 3 ∧ cl.logSaves = [.save ⟨1, 1⟩ [2], .save ⟨2, 1⟩ [1]] :=
    ⟨_, rfl, by decide, by decide, by decide, by decide⟩
  have hcl := (ClusterReachable.init _).run hrun
  obtain ⟨s, hs, hsa⟩ := Option.map_eq_some'.1 hnode
  simp only [Prod.mk.injEq] at hsa
  obtain ⟨hcrash, hidle, hsnap⟩ := hsa
  obtain ⟨acts, cl', s', hacts, hrun', -, hs', -, hidle', -, hsaves', hwait⟩ :=
    node_catches_up hcl hfit hs hcrash (by rw [hidle]; nofun) hsnap
  exact ⟨cl, hcl, hsaves, acts, cl', s', hacts, hrun', hs', hidle', hsaves'.trans hsaves, hwait.trans hlen⟩

end Nexus
