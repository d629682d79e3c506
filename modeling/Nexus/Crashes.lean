import Nexus.Runs
import Nexus.Replicator.Stored

/-!
# What a node dies of, and that no call hangs

A replicator dies (`log.Panic`, `log.Fatal` or a runtime panic) in six places:
* `waiter.Register` of an id already registered;
* `binary.BigEndian.Uint64` on fewer than 8 bytes, in `readReadStates` or in `Load`;
* `proto.Unmarshal` or `ConfChange.Unmarshal` of a committed entry, in `readCommits`;
* an error from `LoadDBSnapshot`, from `store.Restore`, or on `errorC`.

The last three are the environment's. `Replicator.step_crash` says once which step makes each of the others.
In a cluster whose goroutines hold distinct keys and whose requests fit the wire types, none of the others ever
happens: no step the cluster lets a node take kills it otherwise (`Cluster.node_step_crash`), and by induction
over the run no node dies otherwise (`node_dies_only_of_environment`). The engine echoes `Load`'s own 8-byte
context. A slot is filled only by its own read state or its own entry. Every committed entry is a request of some
node, and it decodes.

With the duplicate `Register` ruled out, no `Save` or `Load` hangs (`call_returns_by_deadline`): every blocking
point of theirs is a call given `child_ctx` or a `select` with it, and the `waiter.Trigger` the call makes on its
way out never blocks. `Phase.stepsLeft` bounds the steps of its own a goroutine still needs, and one of them is
always possible by its deadline (`Replicator.own_step_closer`). `proposeConfigChange` is left out: it gives
`ProposeConfChange` the caller's `ctx`, not `child_ctx`, and returns only when the engine or that `ctx` lets it.
-/

namespace Nexus

/-- A death on an error the environment returned: `LoadDBSnapshot`, `store.Restore`, or the engine's
`errorC`. -/
def Crash.Environment : Crash → Prop
  | .snapshot _ | .restore _ | .engine _ => True
  | _ => False

namespace Replicator

variable {s s' : Replicator}

theorem trigger_crash {id : Nat} {v : InternalNexusResponse} {src : Source} (h : s.trigger id v src = some s') :
    s'.crash = s.crash := by
  rcases trigger_some h with ⟨-, rfl⟩ | ⟨_, -, -, rfl⟩ | ⟨_, _, -, -, -, rfl⟩ <;> rfl

/-- What a step kills a node of, besides the environment's errors: a duplicate `Register`, a `Load` decoding a
slot shorter than 8 bytes, a committed entry that does not decode, or a read context shorter than 8 bytes. -/
theorem step_crash {a : Action} (h : s.step a = some s') {k : Crash} (hk : s'.crash = some k) :
    k.Environment ∨
    (∃ c op id slot src, a = .register c ∧ s.calls c = some ⟨op, .drawn id, slot, src⟩ ∧
      (s.waiter id).isSome) ∨
    (∃ c data id v src, a = .receive c ∧ s.calls c = some ⟨.load data, .waiting id, some v, src⟩ ∧
      v.err = none ∧ uint64 v.res = none) ∨
    (∃ e, a = .applyEntry e ∧ e.data ≠ [] ∧ e.key = none) ∨
    (∃ rd, a = .readState rd ∧ uint64 rd.requestCtx = none) := by
  obtain ⟨hnone, h⟩ := step_some h
  -- a step that kills no one leaves the node alive
  have halive : s'.crash = s.crash → False := fun he => by rw [he, hnone] at hk; cases hk
  have hspawn : ∀ {c : Nat} {op : Op}, s.spawn c op = some s' → False := fun h => by
    obtain ⟨-, rfl⟩ := spawn_some h
    exact halive rfl
  have hdie : ∀ {t : Replicator} {k₀ : Crash}, s' = t.die k₀ → k = k₀ := fun he => by
    subst he
    exact (Option.some.inj hk).symm
  cases a with
  | save c data => exact (hspawn (show s.spawn c (.save data) = some s' from h)).elim
  | load c data => exact (hspawn (show s.spawn c (.load data) = some s' from h)).elim
  | addMember c opts dial =>
    simp only [act] at h
    split at h
    · exact (hspawn h).elim
    · cases h; exact (halive rfl).elim
  | removeMember c opts =>
    simp only [act] at h
    split at h
    · exact (hspawn h).elim
    · cases h; exact (halive rfl).elim
  | register c =>
    obtain ⟨op, id, slot, src, hc, ⟨hw, rfl⟩ | ⟨-, rfl⟩⟩ := register_some h
    · exact .inr (.inl ⟨c, op, id, slot, src, rfl, hc, hw⟩)
    · exact (halive rfl).elim
  | propose c err =>
    obtain ⟨op, id, slot, src, -, ⟨-, rfl⟩ | ⟨e, s₁, -, h₁, rfl⟩⟩ := propose_some h
    · exact (halive rfl).elim
    · exact (halive (trigger_crash h₁ :)).elim
  | receive c =>
    obtain ⟨op, id, v, src, hc, hcases⟩ := receive_some h
    rcases hcases with ⟨_, -, rfl⟩ | ⟨_, -, rfl⟩ | ⟨_, _, -, -, rfl⟩ | ⟨data, rfl, herr, hidx, rfl⟩ |
      ⟨_, _, -, -, -, rfl⟩
    all_goals first | exact (halive rfl).elim | skip
    exact .inr (.inr (.inl ⟨c, data, id, v, src, rfl, hc, herr, hidx⟩))
  | timeout c e =>
    rcases timeout_some h with ⟨op, id, slot, src, s₁, -, h₁, rfl⟩ |
      ⟨op, id, index, ready, slot, src, -, rfl⟩
    · exact (halive (trigger_crash h₁ :)).elim
    · exact (halive rfl).elim
  | loadStore c =>
    obtain ⟨data, id, index, slot, src, -, rfl⟩ := loadStore_some h
    exact (halive rfl).elim
  | applySentinel snap =>
    obtain ⟨-, ⟨-, rfl⟩ | ⟨e, -, he⟩ | ⟨_, -, rfl⟩⟩ := applySentinel_some h
    · exact (halive rfl).elim
    · exact .inl (by rw [hdie he]; trivial)
    · exact (halive rfl).elim
  | applyRestore =>
    obtain ⟨_, -, ⟨-, rfl⟩ | ⟨e, -, he⟩⟩ := applyRestore_some h
    · exact (halive rfl).elim
    · exact .inl (by rw [hdie he]; trivial)
  | applyEntry e =>
    obtain ⟨-, ⟨-, rfl⟩ | ⟨hd, hdec, -⟩ | ⟨_, -, -, -, rfl⟩ | ⟨_, -, -, -, rfl⟩⟩ :=
      applyEntry_some h
    · exact (halive rfl).elim
    · refine .inr (.inr (.inr (.inl ⟨e, rfl, hd, ?_⟩)))
      rcases hdec with ⟨ht, hr⟩ | ⟨ht, hr⟩ <;> simp [Entry.key, ht, hr]
    · exact (halive rfl).elim
    · exact (halive rfl).elim
  | applySave =>
    obtain ⟨_, _, -, rfl⟩ := applySave_some h
    exact (halive rfl).elim
  | applyReply =>
    obtain ⟨id, v, e, s₁, -, h₁, rfl⟩ := applyReply_some h
    exact (halive (trigger_crash h₁ :)).elim
  | applyAdvance =>
    obtain ⟨index, -, rfl⟩ := applyAdvance_some h
    exact (halive rfl).elim
  | closeCommits err =>
    obtain ⟨-, ⟨-, rfl⟩ | ⟨e, -, he⟩⟩ := closeCommits_some h
    · exact (halive rfl).elim
    · exact .inl (by rw [hdie he]; trivial)
  | readState rd =>
    rcases readState_some h with ⟨hidx, -⟩ | ⟨id, -, h₁⟩
    · exact .inr (.inr (.inr (.inr ⟨rd, rfl, hidx⟩)))
    · exact (halive (trigger_crash h₁ :)).elim

end Replicator

/-! ### Deaths that distinct keys rule out -/

namespace Cluster

section Keys

variable {cl : Cluster} (hcl : ClusterReachable cl) (hkeys : cl.KeysDistinct) (hfit : cl.RequestsFit)
include hcl hkeys

/-- A goroutine about to register finds its id free: a registered goroutine holding it would share its key. -/
theorem register_free {n c id : Nat} {s : Replicator} {op : Op} {slot : Option InternalNexusResponse}
    {src : Option Source} (hs : cl.nodes[n]? = some s) (hc : s.calls c = some ⟨op, .drawn id, slot, src⟩) :
    s.waiter id = none := by
  cases hw : s.waiter id with
  | none => rfl
  | some c₀ =>
    obtain ⟨call₀, hc₀, hpend, hid, -⟩ :=
      (slotInv_of_reachable (hcl.node s (List.getElem?_mem hs))).waiter_call hw
    obtain ⟨-, rfl⟩ := hkeys n n s s c₀ c call₀ _ hs hs hc₀ hc hid
    rw [hc, Option.some.injEq] at hc₀
    subst hc₀
    exact hpend.elim

include hfit in
/-- A `Load` waiting with a filled slot holds its own read index, 8 bytes long. -/
theorem load_slot_decodes {n c id : Nat} {s : Replicator} {data : Bytes} {v : InternalNexusResponse}
    {src : Option Source} (hs : cl.nodes[n]? = some s)
    (hc : s.calls c = some ⟨.load data, .waiting id, some v, src⟩) :
    (uint64 v.res).isSome := by
  have hR := hcl.node s (List.getElem?_mem hs)
  have hsrc := ((answerInv_of_reachable hR).calls c _ hc).1
  have hok := (slotInv_of_reachable hR).call_ok c
  rw [hc] at hok
  obtain ⟨hent, -, hown⟩ := slot_source_own hcl hkeys hfit hs hc
  rcases src with _ | (e | rd | _)
  · cases hok.1.2 rfl
  · -- a `ReadIndex` has no log entry
    obtain ⟨-, -, -, -, -, term, index, hentry⟩ := hent e rfl
    cases hentry
  · obtain ⟨-, -, hv⟩ := hsrc
    rw [Option.some.injEq] at hv
    rw [hv, uint64_putUint64]
    rfl
  · exact (hown rfl).elim

include hfit in
/-- A step the cluster lets a node take kills it only of its environment's errors: the goroutine that registers
finds its id free, a waiting `Load` holds 8 bytes, every committed entry decodes, and the engine echoes the 8-byte
context of a `Load`'s own `ReadIndex`. -/
theorem node_step_crash {n : Nat} {s s' : Replicator} {b : Action} (hs : cl.nodes[n]? = some s)
    (hb : s.step b = some s') (hact : cl.NodeAction s b) {k : Crash} (hk : s'.crash = some k) : k.Environment := by
  rcases Replicator.step_crash hb hk with henv | ⟨c, op, id, slot, src, rfl, hc, hw⟩ |
      ⟨c, data, id, v, src, rfl, hc, -, hidx⟩ | ⟨e, rfl, -, hkey⟩ | ⟨rd, rfl, hidx⟩
  · exact henv
  · rw [register_free hcl hkeys hs hc] at hw
    cases hw
  · have := load_slot_decodes hcl hkeys hfit hs hc
    rw [hidx] at this
    cases this
  · cases hact with
    | own hfe => cases hfe
    | entry hle =>
      obtain ⟨-, -, call, -, -, -, hkey'⟩ := log_entry_key hcl hfit hle
      rw [hkey'] at hkey
      cases hkey
  · cases hact with
    | own hfe => cases hfe
    | readState hk' =>
      obtain ⟨⟨op, phase, slot, src⟩, -, hr, -⟩ :=
        (slotInv_of_reachable (hcl.node s (List.getElem?_mem hs))).requests_slot (List.getElem?_mem hk')
      cases op <;> simp only [Op.request, Prod.mk.injEq, Request.readIndex.injEq, reduceCtorEq, and_false] at hr
      rw [hr, uint64_putUint64] at hidx
      cases hidx

include hfit in
/-- A cluster step keeps every dead node's death the environment's. -/
theorem step_dies_of_environment {cl' : Cluster} {a : ClusterAction} (h : cl.step a = some cl')
    (hdead : ∀ (n : Nat) (s : Replicator) (k : Crash), cl.nodes[n]? = some s → s.crash = some k → k.Environment) :
    ∀ (n : Nat) (s : Replicator) (k : Crash), cl'.nodes[n]? = some s → s.crash = some k → k.Environment := by
  intro n s k hs hk
  rcases step_node_cases h with hnodes | ⟨m, s₀, s₁, b, hs₀, hb, hnodes, hact⟩
  · exact hdead n s k (hnodes ▸ hs) hk
  · rw [hnodes] at hs
    rcases getElem?_set_node hs₀ hs with ⟨-, rfl⟩ | ⟨-, hs⟩
    · exact node_step_crash hcl hkeys hfit hs₀ hb hact hk
    · exact hdead n s k hs hk

end Keys

/-- A run of one action is that action's step. -/
theorem run_singleton {cl cl' : Cluster} {a : ClusterAction} (h : cl.step a = some cl') : cl.run [a] = some cl' := by
  simp [run, h]

end Cluster

/-- Under distinct keys and fitting requests a node of the cluster dies only of its environment's errors: never of
a duplicate `Register`, of a short read index or read context, nor of a committed entry that does not decode. -/
theorem node_dies_only_of_environment {cl : Cluster} (hcl : ClusterReachable cl) (hkeys : cl.KeysDistinct)
    (hfit : cl.RequestsFit) {n : Nat} {s : Replicator} (hs : cl.nodes[n]? = some s) {k : Crash}
    (hk : s.crash = some k) : k.Environment := by
  induction hcl generalizing n s k with
  | init nodes =>
    simp only [Cluster.init, List.getElem?_map, Option.map_eq_some'] at hs
    obtain ⟨_, -, rfl⟩ := hs
    cases hk
  | @step cl cl' a hcl hstep ih =>
    have hrun := Cluster.run_singleton hstep
    have hkeys₀ := hkeys.of_run hcl hrun
    have hfit₀ := hfit.of_run hcl hrun
    exact Cluster.step_dies_of_environment hcl hkeys₀ hfit₀ hstep (fun _ _ _ hs hk => ih hkeys₀ hfit₀ hs hk)
      n s k hs hk

/-- Node 1 dies when `LoadDBSnapshot` fails on the engine's first nil: an error of its environment. -/
theorem node_dies_only_of_environment_snapshot : ∃ cl s, ClusterReachable cl ∧ cl.KeysDistinct ∧
    cl.RequestsFit ∧ cl.nodes[0]? = some s ∧ s.crash = some (.snapshot (.message "no snapshot")) ∧
    (Crash.snapshot (.message "no snapshot")).Environment := by
  obtain ⟨cl, hrun, hids, hm, hg, hn, hcc, hfit, hcrash⟩ := Cluster.exists_of_run_any
    (by decide : ((Cluster.init [(echoStore, 1, 0), (echoStore, 2, 0)]).run
        [.install 0 0 (.error (.message "no snapshot"))]).any fun cl =>
      (cl.nodes.map fun s => s.id % 2 ^ 16).Nodup ∧ (∀ s ∈ cl.nodes, 0 < s.id % 2 ^ 16) ∧
      (∀ s ∈ cl.nodes, s.idGen.suffix < 2 ^ 48) ∧ (∀ s ∈ cl.nodes, s.confChangeCount < 2 ^ 48) ∧
      (∀ s ∈ cl.nodes.tail, s.confChangeCount = 0) ∧ cl.RequestsFit ∧
      cl.nodes[0]?.map Replicator.crash = some (some (.snapshot (.message "no snapshot"))))
  obtain ⟨s, hs, hk⟩ := Option.map_eq_some'.1 hcrash
  have hcl := (ClusterReachable.init _).run hrun
  have hkeys := Cluster.KeysDistinct.of_members hcl hids hm hg hn hcc
  exact ⟨cl, s, hcl, hkeys, hfit, hs, hk, node_dies_only_of_environment hcl hkeys hfit hs hk⟩

/-! ### No `Save` or `Load` hangs -/

/-- The steps goroutine `c`, running `op`, takes by itself by its deadline, whatever the engine does: `Register`;
the call that hands its request to the engine returning the error of the expired `child_ctx`, which `Save` gives
`Propose` and `Load` gives `ReadIndex`; and the `select` on `child_ctx.Done()`.  `proposeConfigChange` gives
`ProposeConfChange` the caller's `ctx` instead of `child_ctx`, so when that call returns is up to the engine and
the caller. -/
def Action.byDeadline (c : Nat) (op : Op) : Action → Bool
  | .register c' | .timeout c' .deadlineExceeded => c' == c
  | .propose c' (some (.context .deadlineExceeded)) =>
    match op with
    | .confChange _ => false
    | _ => c' == c
  | _ => false

theorem Action.byDeadline_propose {c : Nat} {op : Op} (hop : ∀ cc, op ≠ .confChange cc) :
    (Action.propose c (some (.context .deadlineExceeded))).byDeadline c op := by
  cases op with
  | confChange cc => exact absurd rfl (hop cc)
  | _ => simp [Action.byDeadline]

theorem Action.fromEngine_of_byDeadline {a : Action} {c : Nat} {op : Op} (h : a.byDeadline c op) :
    a.fromEngine = false := by
  cases a <;> first | rfl | cases h

namespace Replicator

variable {s : Replicator} {c : Nat} {call : Call}

/-- A `Save` or `Load` goroutine of a live replicator that has not returned always has a step of its own by its
deadline that brings it closer to returning and leaves the process alive: `Register` of a free id, `Propose` or
`ReadIndex` returning the deadline's error, or the deadline, whose own `waiter.Trigger` never blocks. -/
theorem own_step_closer (hsl : SlotInv s) (hcrash : s.crash = none) (hc : s.calls c = some call)
    (hop : ∀ cc, call.op ≠ .confChange cc) (hfree : ∀ id, call.phase = .drawn id → s.waiter id = none)
    (hleft : 0 < call.phase.stepsLeft) :
    ∃ b s' call', b.byDeadline c call.op ∧ s.step b = some s' ∧ s'.crash = none ∧ s'.calls c = some call' ∧
      call'.op = call.op ∧ call'.phase.stepsLeft < call.phase.stepsLeft := by
  obtain ⟨op, p, slot, src⟩ := call
  -- the goroutine triggers its own id with the deadline's error, then returns
  have htrig : ∀ (id : Nat) (p' : Phase), ∃ (s₁ : Replicator) (call₁ : Call),
      s.trigger id ⟨[], some (.context .deadlineExceeded)⟩ .own = some s₁ ∧ (s₁.setPhase c p').crash = none ∧
      (s₁.setPhase c p').calls c = some { call₁ with phase := p' } ∧ call₁.op = op := fun id p' => by
    obtain ⟨s₁, h₁⟩ := Option.isSome_iff_exists.1 (hsl.trigger_isSome id ⟨[], some (.context .deadlineExceeded)⟩ .own)
    obtain ⟨call₁, hc₁, -⟩ := trigger_phase h₁ hc
    have hev := trigger_evolves h₁ c
    rw [hc, hc₁] at hev
    obtain ⟨w, calls, hs₁⟩ := trigger_frame h₁
    exact ⟨s₁, call₁, h₁, by rw [hs₁]; exact hcrash, by rw [setPhase_calls_of hc₁, Function.update_same], hev.1⟩
  cases p with
  | drawn id =>
    refine ⟨.register c,
      { s with waiter := Function.update s.waiter id (some c),
               calls := Function.update s.calls c (some ⟨op, .registered id, slot, src⟩) },
      _, by simp [Action.byDeadline], ?_, hcrash, Function.update_same _ _ _, rfl, by simp [Phase.stepsLeft]⟩
    simp [step, act, register, hcrash, hc, hfree id rfl]
  | registered id =>
    obtain ⟨s₁, call₁, h₁, hcrash₁, hc₁, hop₁⟩ := htrig id (.returned id [] (some (.context .deadlineExceeded)) .proposeError)
    exact ⟨_, _, _, Action.byDeadline_propose hop, by simp [step, act, propose, hcrash, hc, h₁], hcrash₁, hc₁, hop₁,
      by simp [Phase.stepsLeft]⟩
  | waiting id =>
    obtain ⟨s₁, call₁, h₁, hcrash₁, hc₁, hop₁⟩ := htrig id (.returned id [] (some (.context .deadlineExceeded)) .timeout)
    exact ⟨.timeout c .deadlineExceeded, _, _, by simp [Action.byDeadline],
      by simp [step, act, timeout, hcrash, hc, h₁], hcrash₁, hc₁, hop₁, by simp [Phase.stepsLeft]⟩
  | applyWaiting id index ready =>
    refine ⟨.timeout c .deadlineExceeded,
      s.setPhase c (.returned id [] (some (.context .deadlineExceeded)) .applyTimeout), _, by simp [Action.byDeadline],
      ?_, hcrash, by rw [setPhase_calls_of hc, Function.update_same], by rfl, by simp [Phase.stepsLeft]⟩
    simp [step, act, timeout, hcrash, hc]
  | returned => exact absurd hleft (lt_irrefl 0)

/-- A `Save` or `Load` goroutine of a live replicator returns by at most `stepsLeft` steps of its own by its
deadline, its node alive. -/
theorem returns_by_own_steps (hR : Reachable s) (hcrash : s.crash = none) (hc : s.calls c = some call)
    (hop : ∀ cc, call.op ≠ .confChange cc) (hfree : ∀ id, call.phase = .drawn id → s.waiter id = none) :
    ∃ bs s' call', s.run bs = some s' ∧ bs.length ≤ call.phase.stepsLeft ∧ (∀ b ∈ bs, b.byDeadline c call.op) ∧
      s'.crash = none ∧ s'.calls c = some call' ∧ call'.phase.Returned := by
  obtain ⟨k, hk⟩ : ∃ k, call.phase.stepsLeft = k := ⟨_, rfl⟩
  induction k using Nat.strong_induction_on generalizing s call with
  | _ k ih =>
    by_cases h0 : k = 0
    · exact ⟨[], s, call, rfl, Nat.zero_le _, nofun, hcrash, hc, Phase.returned_of_stepsLeft (hk.trans h0)⟩
    obtain ⟨b, s₁, call₁, hb, h₁, hcrash₁, hc₁, hop₁, hlt⟩ :=
      own_step_closer (slotInv_of_reachable hR) hcrash hc hop hfree (by omega)
    -- it has left `drawn`, the phase measured 3, for good
    have hfree₁ : ∀ id, call₁.phase = .drawn id → s₁.waiter id = none := fun id h => by
      have h3 : (Phase.drawn id).stepsLeft = 3 := rfl
      have := call.phase.stepsLeft_le
      rw [h, h3] at hlt
      omega
    obtain ⟨bs, s', call', hrun, hlen, hbs, hrest⟩ :=
      ih _ (hk ▸ hlt) (hR.step b h₁) hcrash₁ hc₁ (hop₁ ▸ hop) hfree₁ rfl
    exact ⟨b :: bs, s', call', by rw [run_cons_of_step h₁]; exact hrun, by rw [List.length_cons]; omega,
      List.forall_mem_cons.2 ⟨hb, hop₁ ▸ hbs⟩, hrest⟩

end Replicator

/-- No `Save` or `Load` hangs. Whatever the engine and the other goroutines did, a `Save` or `Load` goroutine of a
live node that has not returned can return by at most three steps of its own by its deadline, and its node stays
alive: its id is free when it registers, `Propose` or `ReadIndex`, given `child_ctx`, returns at the latest with
the deadline's error, and a goroutine the engine took the request of returns at its deadline, its own
`waiter.Trigger` never blocking. -/
theorem call_returns_by_deadline {cl : Cluster} (hcl : ClusterReachable cl) (hkeys : cl.KeysDistinct) {n c : Nat}
    {s : Replicator} {call : Call} (hs : cl.nodes[n]? = some s) (hc : s.calls c = some call)
    (hop : ∀ cc, call.op ≠ .confChange cc) (hcrash : s.crash = none) :
    ∃ (bs : List Action) (s' : Replicator) (call' : Call),
      cl.run (bs.map (.node n)) = some { cl with nodes := cl.nodes.set n s' } ∧ bs.length ≤ 3 ∧
      (∀ b ∈ bs, b.byDeadline c call.op) ∧ s'.crash = none ∧ s'.calls c = some call' ∧ call'.phase.Returned := by
  obtain ⟨op, p, slot, src⟩ := call
  obtain ⟨bs, s', call', hrun, hlen, hbs, hrest⟩ := Replicator.returns_by_own_steps
    (hcl.node s (List.getElem?_mem hs)) hcrash hc hop fun id (h : p = _) => Cluster.register_free hcl hkeys hs (h ▸ hc)
  exact ⟨bs, s', call', Cluster.run_node hs (fun b hb => Action.fromEngine_of_byDeadline (hbs b hb)) hrun,
    hlen.trans (Phase.stepsLeft_le _), hbs, hrest⟩

/-- Node 1's `Save` of `[1]`, which has just drawn its id, returns by its deadline even if the engine never takes
its envelope. -/
theorem call_returns_by_deadline_started : ∃ cl s call, ClusterReachable cl ∧ cl.KeysDistinct ∧
    cl.nodes[0]? = some s ∧ s.calls 0 = some call ∧ call.op = .save [1] ∧ s.crash = none ∧
    ∃ (bs : List Action) (s' : Replicator) (call' : Call),
      cl.run (bs.map (.node 0)) = some { cl with nodes := cl.nodes.set 0 s' } ∧ bs.length ≤ 3 ∧
      (∀ b ∈ bs, b.byDeadline 0 call.op) ∧ s'.crash = none ∧ s'.calls 0 = some call' ∧ call'.phase.Returned := by
  obtain ⟨cl, hrun, hids, hm, hg, hn, hcc, hnode⟩ := Cluster.exists_of_run_any
    (by decide : ((Cluster.init [(echoStore, 1, 0), (echoStore, 2, 0)]).run [.node 0 (.save 0 [1])]).any fun cl =>
      (cl.nodes.map fun s => s.id % 2 ^ 16).Nodup ∧ (∀ s ∈ cl.nodes, 0 < s.id % 2 ^ 16) ∧
      (∀ s ∈ cl.nodes, s.idGen.suffix < 2 ^ 48) ∧ (∀ s ∈ cl.nodes, s.confChangeCount < 2 ^ 48) ∧
      (∀ s ∈ cl.nodes.tail, s.confChangeCount = 0) ∧
      cl.nodes[0]?.map (fun s => (s.calls 0, s.crash)) =
        some (some ⟨.save [1], .drawn (2 ^ 48 + 1), none, none⟩, none))
  obtain ⟨s, hs, hsa⟩ := Option.map_eq_some'.1 hnode
  simp only [Prod.mk.injEq] at hsa
  obtain ⟨hc, hcrash⟩ := hsa
  have hcl := (ClusterReachable.init _).run hrun
  have hkeys := Cluster.KeysDistinct.of_members hcl hids hm hg hn hcc
  exact ⟨cl, s, _, hcl, hkeys, hs, hc, rfl, hcrash, call_returns_by_deadline hcl hkeys hs hc nofun hcrash⟩

end Nexus
