import Mathlib.Data.List.Nodup
import Nexus.Replicator.Answers

/-!
# What a call returns

Each `return` statement of `Save`, `Load` and `proposeConfigChange` returns something of its own kind
(`Phase.ExitOk`): the goroutine's own exits after `Propose` failed or at the deadline, and the deadline while
`Load` waits on `applyWait`, return an error; `Load` returns what it received only when that is an error; and only
`Load` returns the store's answer. Only a goroutine's own `return` returns it, as that statement says
(`Replicator.step_returned`); every other step keeps a returned goroutine as it was (`ReturnedKept`). So every
goroutine returned as its `return` says, in every reachable state (`exitInv_of_reachable`).

`replicator.Load` decodes the read index from its slot, waits on `applyWait.Wait(index)`, and returns what
`store.Load(data)` answered.  `StoredInv` ties every `Load` that returned so to that call, in every reachable
state (`storedInv_of_reachable`): its slot still holds the read index it decoded, and the store log holds the
`store.Load` call it made with that index.

Conversely the store is read only for a `Load` that returns what it read (`store_loads_returned`): the loops add
only `Save` and `Restore` calls to the store log (`Replicator.step_load_call`), so every `store.Load` call is the
one a `Load` made as it returned.
-/

namespace Nexus

/-- The phase of a goroutine that returned what `store.Load` answered. -/
def Phase.Stored : Phase → Prop
  | .returned _ _ _ .stored => True
  | _ => False

theorem Phase.Stored.returned {p : Phase} (h : p.Stored) : p.Returned := by
  cases p <;> trivial

/-- What a goroutine running `op` returns through each `return` statement: its own exits and the apply deadline
return an error, a `Load` returns what it received only when that is an error, and only a `Load` returns the
store's answer. -/
def Phase.ExitOk (op : Op) : Phase → Prop
  | .returned _ _ err .received => (∃ data, op = .load data) → err.isSome
  | .returned _ _ _ .stored => ∃ data, op = .load data
  | .returned _ _ err _ => err.isSome
  | _ => True

theorem Phase.exitOk_of_not_returned {p : Phase} {op : Op} (h : ¬p.Returned) : p.ExitOk op := by
  cases p <;> first | trivial | exact absurd trivial h

/-- How many steps of its own a goroutine needs to return by its deadline: `Register`, the engine taking its
request, and the deadline. -/
def Phase.stepsLeft : Phase → Nat
  | .drawn _ => 3
  | .registered _ => 2
  | .waiting _ | .applyWaiting .. => 1
  | .returned .. => 0

theorem Phase.stepsLeft_le (p : Phase) : p.stepsLeft ≤ 3 := by
  cases p <;> simp [Phase.stepsLeft]

theorem Phase.returned_of_stepsLeft {p : Phase} (h : p.stepsLeft = 0) : p.Returned := by
  cases p <;> simp_all [Phase.stepsLeft, Phase.Returned]


namespace Replicator

variable {s s' t t' : Replicator} {c : Nat}

/-- Goroutine `c` has returned in `t'` only as it had in `t`: with the same operation and the same phase. -/
def ReturnedKept (c : Nat) (t t' : Replicator) : Prop :=
  ∀ call', t'.calls c = some call' → call'.phase.Returned →
    ∃ call, t.calls c = some call ∧ call.op = call'.op ∧ call.phase = call'.phase

namespace ReturnedKept

theorem of_calls (h : t'.calls c = t.calls c) : ReturnedKept c t t' :=
  fun call' hc' _ => ⟨call', h ▸ hc', rfl, rfl⟩

theorem trans {t'' : Replicator} (h₁ : ReturnedKept c t t') (h₂ : ReturnedKept c t' t'') : ReturnedKept c t t'' :=
  fun call'' hc'' hr =>
    let ⟨call', hc', hop', hp'⟩ := h₂ call'' hc'' hr
    let ⟨call, hc, hop, hp⟩ := h₁ call' hc' (hp' ▸ hr)
    ⟨call, hc, hop.trans hop', hp.trans hp'⟩

theorem update {c₀ : Nat} {x : Call} (h : t'.calls = Function.update t.calls c₀ (some x)) (hx : ¬x.phase.Returned) :
    ReturnedKept c t t' := by
  intro call' hc' hr
  rw [h, Function.update_apply] at hc'
  split at hc'
  · cases hc'
    exact absurd hr hx
  · exact ⟨call', hc', rfl, rfl⟩

theorem setPhase {c₀ : Nat} {p : Phase} (hp : ¬p.Returned) : ReturnedKept c t (t.setPhase c₀ p) := by
  intro call' hc' hr
  rw [setPhase_calls] at hc'
  split at hc'
  · obtain ⟨call, -, rfl⟩ := Option.map_eq_some'.1 hc'
    exact absurd hr hp
  · exact ⟨call', hc', rfl, rfl⟩

theorem trigger {id : Nat} {v : InternalNexusResponse} {src : Source} (h : t.trigger id v src = some t') :
    ReturnedKept c t t' := by
  intro call' hc' _
  rcases trigger_some h with ⟨-, rfl⟩ | ⟨_, -, -, rfl⟩ | ⟨c₀, call₀, -, hc₀, -, rfl⟩
  · exact ⟨call', hc', rfl, rfl⟩
  · exact ⟨call', hc', rfl, rfl⟩
  · -- the slot it fills is the only change
    simp only [Function.update_apply] at hc'
    split at hc'
    · subst_vars
      cases hc'
      exact ⟨call₀, hc₀, rfl, rfl⟩
    · exact ⟨call', hc', rfl, rfl⟩

theorem applyWaitTrigger (d : Nat) : ReturnedKept c t (t.applyWaitTrigger d) := by
  intro call' hc' hr
  rw [applyWaitTrigger_calls] at hc'
  obtain ⟨call, hc, rfl⟩ := Option.map_eq_some'.1 hc'
  refine ⟨call, hc, Call.release_op d call |>.symm, ?_⟩
  rcases call.release_phase d with h | ⟨_, _, -, h⟩
  · exact h.symm
  · rw [h] at hr
    exact hr.elim

end ReturnedKept

/-- Only a goroutine's own `return` returns it, as that `return` statement says; every other step keeps a
returned goroutine as it was. -/
theorem step_returned {a : Action} (h : s.step a = some s') :
    ReturnedKept c s s' ∨ ∀ call', s'.calls c = some call' →
      call'.phase.ExitOk call'.op ∧ (call'.phase.Stored → a = .loadStore c) := by
  obtain ⟨-, h⟩ := step_some h
  have hspawn : ∀ {c₀ : Nat} {op : Op}, s.spawn c₀ op = some s' → ReturnedKept c s s' := fun h => by
    obtain ⟨-, rfl⟩ := spawn_some h
    exact .update rfl nofun
  -- goroutine `c₀`, kept since `s` in `t`, returns with the phase `p`
  have hret : ∀ {t : Replicator} {c₀ : Nat} {p : Phase}, ReturnedKept c s t →
      (∀ call, t.calls c₀ = some call → p.ExitOk call.op) → (p.Stored → a = .loadStore c₀) →
      ReturnedKept c s (t.setPhase c₀ p) ∨ ∀ call', (t.setPhase c₀ p).calls c = some call' →
        call'.phase.ExitOk call'.op ∧ (call'.phase.Stored → a = .loadStore c) := fun {t c₀ p} hk hp hst => by
    by_cases hcc : c = c₀
    · subst hcc
      refine .inr fun call' hc' => ?_
      rw [setPhase_calls, if_pos rfl] at hc'
      obtain ⟨call, hc, rfl⟩ := Option.map_eq_some'.1 hc'
      exact ⟨hp call hc, hst⟩
    · exact .inl (hk.trans (.of_calls (by rw [setPhase_calls, if_neg hcc])))
  cases a with
  | save c₀ data => exact .inl (hspawn (show s.spawn c₀ (.save data) = some s' from h))
  | load c₀ data => exact .inl (hspawn (show s.spawn c₀ (.load data) = some s' from h))
  | addMember c₀ opts dial =>
    simp only [act] at h
    split at h
    · exact .inl (hspawn h)
    · cases h; exact .inl (.of_calls rfl)
  | removeMember c₀ opts =>
    simp only [act] at h
    split at h
    · exact .inl (hspawn h)
    · cases h; exact .inl (.of_calls rfl)
  | register c₀ =>
    obtain ⟨op, id, slot, src, -, ⟨-, rfl⟩ | ⟨-, rfl⟩⟩ := register_some h
    · exact .inl (.of_calls rfl)
    · exact .inl (.update rfl nofun)
  | propose c₀ err =>
    obtain ⟨op, id, slot, src, -, ⟨-, rfl⟩ | ⟨e, s₁, -, h₁, rfl⟩⟩ := propose_some h
    · exact .inl (.update rfl nofun)
    · exact hret (.trigger h₁) (fun _ _ => rfl) nofun
  | receive c₀ =>
    obtain ⟨op, id, v, src, hc, hcases⟩ := receive_some h
    -- what `Save` and `proposeConfigChange` received is theirs to return; `Load` returns only an error
    have hnotLoad : ∀ {res : Bytes} {err : Option Error}, (∀ data, op ≠ .load data) →
        ∀ call, s.calls c₀ = some call → (Phase.returned id res err .received).ExitOk call.op := fun hop call hc' => by
      rw [hc, Option.some.injEq] at hc'
      subst hc'
      exact fun ⟨data, hd⟩ => absurd hd (hop data)
    rcases hcases with ⟨_, rfl, rfl⟩ | ⟨_, rfl, rfl⟩ | ⟨_, _, rfl, -, rfl⟩ | ⟨_, -, -, -, rfl⟩ |
      ⟨_, _, -, -, -, rfl⟩
    · exact hret (.of_calls rfl) (hnotLoad nofun) nofun
    · exact hret (.of_calls rfl) (hnotLoad nofun) nofun
    · exact hret (.of_calls rfl) (fun _ _ _ => rfl) nofun
    · exact .inl (.of_calls rfl)
    · exact .inl (.setPhase nofun)
  | timeout c₀ e =>
    rcases timeout_some h with ⟨op, id, slot, src, s₁, -, h₁, rfl⟩ |
      ⟨op, id, index, ready, slot, src, -, rfl⟩
    · exact hret (.trigger h₁) (fun _ _ => rfl) nofun
    · exact hret (.of_calls rfl) (fun _ _ => rfl) nofun
  | loadStore c₀ =>
    obtain ⟨data, id, index, slot, src, hc, rfl⟩ := loadStore_some h
    exact hret (t := s) (.of_calls rfl) (fun call hc' => ⟨data, by rw [hc, Option.some.injEq] at hc'; rw [← hc']⟩)
      fun _ => rfl
  | applySentinel snap =>
    obtain ⟨-, ⟨-, rfl⟩ | ⟨_, -, rfl⟩ | ⟨_, -, rfl⟩⟩ := applySentinel_some h <;>
      exact .inl (.of_calls rfl)
  | applyRestore =>
    obtain ⟨_, -, ⟨-, rfl⟩ | ⟨_, -, rfl⟩⟩ := applyRestore_some h <;> exact .inl (.of_calls rfl)
  | applyEntry e =>
    obtain ⟨-, ⟨-, rfl⟩ | ⟨-, -, rfl⟩ | ⟨_, -, -, -, rfl⟩ | ⟨_, -, -, -, rfl⟩⟩ :=
        applyEntry_some h <;>
      exact .inl (.of_calls rfl)
  | applySave =>
    obtain ⟨_, _, -, rfl⟩ := applySave_some h
    exact .inl (.of_calls rfl)
  | applyReply =>
    obtain ⟨id, v, e, s₁, -, h₁, rfl⟩ := applyReply_some h
    exact .inl ((ReturnedKept.trigger h₁).trans (.of_calls rfl))
  | applyAdvance =>
    obtain ⟨index, -, rfl⟩ := applyAdvance_some h
    exact .inl ((ReturnedKept.applyWaitTrigger index).trans (.of_calls rfl))
  | closeCommits err =>
    obtain ⟨-, ⟨-, rfl⟩ | ⟨_, -, rfl⟩⟩ := closeCommits_some h <;> exact .inl (.of_calls rfl)
  | readState rd =>
    rcases readState_some h with ⟨-, rfl⟩ | ⟨id, -, h₁⟩
    · exact .inl (.of_calls rfl)
    · refine .inl (ReturnedKept.trans ?_ (.trigger h₁))
      exact .of_calls rfl

/-- A step never moves a goroutine back: it stays, and the steps of its own it needs to return never grow. -/
theorem step_stepsLeft {a : Action} (h : s.step a = some s') {call : Call} (hc : s.calls c = some call) :
    ∃ call', s'.calls c = some call' ∧ call'.phase.stepsLeft ≤ call.phase.stepsLeft := by
  obtain ⟨-, h⟩ := step_some h
  -- goroutine `c` stays as it was, a trigger fills a slot, or a goroutine `c₀` moves on
  have hsame : ∀ {t : Replicator}, t.calls c = s.calls c →
      ∃ call', t.calls c = some call' ∧ call'.phase.stepsLeft ≤ call.phase.stepsLeft :=
    fun ht => ⟨call, ht.trans hc, le_rfl⟩
  have htrig : ∀ {t t' : Replicator} {id : Nat} {v : InternalNexusResponse} {src : Source},
      t.trigger id v src = some t' → t.calls c = s.calls c →
      ∃ call', t'.calls c = some call' ∧ call'.phase.stepsLeft ≤ call.phase.stepsLeft := fun h₁ ht => by
    obtain ⟨call', hc', hp⟩ := trigger_phase h₁ (ht.trans hc)
    exact ⟨call', hc', hp ▸ le_rfl⟩
  have hupd : ∀ {c₀ : Nat} {x : Call}, (c = c₀ → x.phase.stepsLeft ≤ call.phase.stepsLeft) →
      ∃ call', Function.update s.calls c₀ (some x) c = some call' ∧
        call'.phase.stepsLeft ≤ call.phase.stepsLeft := fun {c₀ _} hx => by
    by_cases hcc : c = c₀
    · subst hcc
      exact ⟨_, Function.update_same _ _ _, hx rfl⟩
    · exact ⟨call, (Function.update_noteq hcc _ _).trans hc, le_rfl⟩
  have hset : ∀ {t : Replicator} {c₀ : Nat} {p : Phase},
      (∃ call₁, t.calls c = some call₁ ∧ call₁.phase = call.phase) →
      (c = c₀ → p.stepsLeft ≤ call.phase.stepsLeft) →
      ∃ call', (t.setPhase c₀ p).calls c = some call' ∧ call'.phase.stepsLeft ≤ call.phase.stepsLeft :=
    fun ⟨call₁, hc₁, hp₁⟩ hp => by
      rw [setPhase_calls]
      split
      · subst c
        exact ⟨_, by rw [hc₁]; rfl, hp rfl⟩
      · exact ⟨call₁, hc₁, hp₁ ▸ le_rfl⟩
  -- the goroutine a step moves was in the phase the step's guard names
  have hphase : ∀ {c₀ : Nat} {call₀ : Call}, s.calls c₀ = some call₀ → c = c₀ → call.phase = call₀.phase :=
    fun hc₀ hcc => by subst hcc; rw [hc, Option.some.injEq] at hc₀; rw [hc₀]
  have hspawn : ∀ {c₀ : Nat} {op : Op}, s.spawn c₀ op = some s' →
      ∃ call', s'.calls c = some call' ∧ call'.phase.stepsLeft ≤ call.phase.stepsLeft := fun h => by
    obtain ⟨hnone, rfl⟩ := spawn_some h
    exact hsame (Function.update_noteq (fun hcc => by rw [hcc, hnone] at hc; cases hc) _ _)
  cases a with
  | save c₀ data => exact hspawn (show s.spawn c₀ (.save data) = some s' from h)
  | load c₀ data => exact hspawn (show s.spawn c₀ (.load data) = some s' from h)
  | addMember c₀ opts dial =>
    simp only [act] at h
    split at h
    · exact hspawn h
    · cases h; exact hsame rfl
  | removeMember c₀ opts =>
    simp only [act] at h
    split at h
    · exact hspawn h
    · cases h; exact hsame rfl
  | register c₀ =>
    obtain ⟨op, id, slot, src, hc₀, ⟨-, rfl⟩ | ⟨-, rfl⟩⟩ := register_some h
    · exact hsame rfl
    · exact hupd fun hcc => by simp [hphase hc₀ hcc, Phase.stepsLeft]
  | propose c₀ err =>
    obtain ⟨op, id, slot, src, hc₀, ⟨-, rfl⟩ | ⟨e, s₁, -, h₁, rfl⟩⟩ := propose_some h
    · exact hupd fun hcc => by simp [hphase hc₀ hcc, Phase.stepsLeft]
    · exact hset (trigger_phase h₁ hc) fun _ => Nat.zero_le _
  | receive c₀ =>
    obtain ⟨op, id, v, src, hc₀, hcases⟩ := receive_some h
    rcases hcases with ⟨_, -, rfl⟩ | ⟨_, -, rfl⟩ | ⟨_, _, -, -, rfl⟩ | ⟨_, -, -, -, rfl⟩ | ⟨_, _, -, -, -, rfl⟩
    · exact hset ⟨call, hc, rfl⟩ fun _ => Nat.zero_le _
    · exact hset ⟨call, hc, rfl⟩ fun _ => Nat.zero_le _
    · exact hset ⟨call, hc, rfl⟩ fun _ => Nat.zero_le _
    · exact hsame rfl
    · exact hset ⟨call, hc, rfl⟩ fun hcc => by simp [hphase hc₀ hcc, Phase.stepsLeft]
  | timeout c₀ e =>
    rcases timeout_some h with ⟨op, id, slot, src, s₁, -, h₁, rfl⟩ | ⟨op, id, index, ready, slot, src, -, rfl⟩
    · exact hset (trigger_phase h₁ hc) fun _ => Nat.zero_le _
    · exact hset ⟨call, hc, rfl⟩ fun _ => Nat.zero_le _
  | loadStore c₀ =>
    obtain ⟨data, id, index, slot, src, -, rfl⟩ := loadStore_some h
    exact hset ⟨call, hc, rfl⟩ fun _ => Nat.zero_le _
  | applySentinel snap =>
    obtain ⟨-, ⟨-, rfl⟩ | ⟨_, -, rfl⟩ | ⟨_, -, rfl⟩⟩ := applySentinel_some h <;> exact hsame rfl
  | applyRestore =>
    obtain ⟨_, -, ⟨-, rfl⟩ | ⟨_, -, rfl⟩⟩ := applyRestore_some h <;> exact hsame rfl
  | applyEntry e =>
    obtain ⟨-, ⟨-, rfl⟩ | ⟨-, -, rfl⟩ | ⟨_, -, -, -, rfl⟩ | ⟨_, -, -, -, rfl⟩⟩ := applyEntry_some h <;>
      exact hsame rfl
  | applySave =>
    obtain ⟨_, _, -, rfl⟩ := applySave_some h
    exact hsame rfl
  | applyReply =>
    obtain ⟨_, _, _, s₁, -, h₁, rfl⟩ := applyReply_some h
    obtain ⟨call', hc', hle⟩ := htrig h₁ rfl
    exact ⟨call', hc', hle⟩
  | applyAdvance =>
    -- the cursor releases a `Load` from one `applyWait` phase to the other
    obtain ⟨d, -, rfl⟩ := applyAdvance_some h
    refine ⟨call.release d, by simp [hc], ?_⟩
    rcases call.release_phase d with h' | ⟨_, _, h', h''⟩
    · rw [h']
    · rw [h', h'']; exact le_rfl
  | closeCommits err =>
    obtain ⟨-, ⟨-, rfl⟩ | ⟨_, -, rfl⟩⟩ := closeCommits_some h <;> exact hsame rfl
  | readState rd =>
    rcases readState_some h with ⟨-, rfl⟩ | ⟨_, -, h₁⟩
    · exact hsame rfl
    · exact htrig h₁ rfl

/-- The loops add only `Save` and `Restore` calls to the store log: a step adds a `store.Load` call only as a
`Load`'s own store call. -/
theorem step_load_call {a : Action} (h : s.step a = some s') {data res : Bytes} {err : Option Error} {i : Nat}
    (hx : StoreCall.load data res err i ∈ s'.storeLog) :
    StoreCall.load data res err i ∈ s.storeLog ∨ ∃ c, a = .loadStore c := by
  rcases step_frame h with ⟨hlog, -⟩ | ⟨c, rfl⟩ | ⟨snap, rfl⟩ | rfl | ⟨e, rfl⟩ | rfl | rfl | rfl |
    ⟨err', rfl⟩
  · exact .inl (hlog ▸ hx)
  · exact .inr ⟨c, rfl⟩
  all_goals
    obtain ⟨-, h⟩ := step_some h
    refine .inl ?_
  · obtain ⟨-, ⟨-, rfl⟩ | ⟨_, -, rfl⟩ | ⟨_, -, rfl⟩⟩ := applySentinel_some h <;> exact hx
  · obtain ⟨_, -, ⟨-, rfl⟩ | ⟨_, -, rfl⟩⟩ := applyRestore_some h <;> simpa [die] using hx
  · obtain ⟨-, ⟨-, rfl⟩ | ⟨-, -, rfl⟩ | ⟨_, -, -, -, rfl⟩ | ⟨_, -, -, -, rfl⟩⟩ := applyEntry_some h <;>
      exact hx
  · obtain ⟨_, _, -, rfl⟩ := applySave_some h
    simpa using hx
  · obtain ⟨_, _, _, _, -, h₁, rfl⟩ := applyReply_some h
    obtain ⟨_, _, rfl⟩ := trigger_frame h₁
    exact hx
  · obtain ⟨_, -, rfl⟩ := applyAdvance_some h
    exact hx
  · obtain ⟨-, ⟨-, rfl⟩ | ⟨_, -, rfl⟩⟩ := closeCommits_some h <;> exact hx

end Replicator

/-- Every goroutine that returned returned as its `return` statement says. -/
def ExitInv (s : Replicator) : Prop := ∀ c call, s.calls c = some call → call.phase.ExitOk call.op

theorem ExitInv.step {s s' : Replicator} (hi : ExitInv s) {a : Action} (h : s.step a = some s') : ExitInv s' := by
  intro c call' hc'
  rcases Replicator.step_returned (c := c) h with hk | hnew
  · by_cases hr : call'.phase.Returned
    · obtain ⟨call, hc, hop, hp⟩ := hk call' hc' hr
      rw [← hop, ← hp]
      exact hi c call hc
    · exact Phase.exitOk_of_not_returned hr
  · exact (hnew call' hc').1

theorem exitInv_of_reachable {s : Replicator} (hs : Reachable s) : ExitInv s := by
  induction hs with
  | init store id now => intro c call hc; cases hc
  | step a _ hstep ih => exact ih.step hstep

/-- Every goroutine hands the engine at most one request, and a goroutine with a request has moved past
`Register` and `Propose`. -/
def RequestsOnce (s : Replicator) : Prop :=
  (s.requests.map Prod.fst).Nodup ∧ ∀ x ∈ s.requests, ∃ call, s.calls x.1 = some call ∧ call.phase.stepsLeft ≤ 1

theorem RequestsOnce.step {s s' : Replicator} (hi : RequestsOnce s) {a : Action} (h : s.step a = some s') :
    RequestsOnce s' := by
  obtain ⟨hnd, hmoved⟩ := hi
  -- a goroutine with a request never moves back
  have hkeep : ∀ x ∈ s.requests, ∃ call, s'.calls x.1 = some call ∧ call.phase.stepsLeft ≤ 1 := fun x hx => by
    obtain ⟨call, hc, hle⟩ := hmoved x hx
    obtain ⟨call', hc', hle'⟩ := Replicator.step_stepsLeft h hc
    exact ⟨call', hc', hle'.trans hle⟩
  rcases (Replicator.step_logs h).requests with hreq | ⟨c₀, x, rfl, -⟩
  · unfold RequestsOnce
    rw [hreq]
    exact ⟨hnd, hkeep⟩
  obtain ⟨op, id, slot, src, hc₀, ⟨-, rfl⟩ | ⟨e, s₁, he, -⟩⟩ :=
    Replicator.propose_some (show s.propose c₀ none = some s' from (Replicator.step_some h).2)
  · -- the goroutine that hands its request was registered, so it had handed none
    have hfresh : c₀ ∉ s.requests.map Prod.fst := fun hmem => by
      obtain ⟨y, hy, rfl⟩ := List.mem_map.1 hmem
      obtain ⟨call, hc, hle⟩ := hmoved y hy
      rw [hc₀, Option.some.injEq] at hc
      subst hc
      simp [Phase.stepsLeft] at hle
    refine ⟨?_, fun y hy => ?_⟩
    · rw [List.map_append, List.map_singleton, ← List.concat_eq_append]
      exact hnd.concat hfresh
    · rcases List.mem_append.1 hy with hy | hy
      · exact hkeep y hy
      · rw [List.mem_singleton.1 hy]
        exact ⟨_, Function.update_same _ _ _, le_rfl⟩
  · cases he

theorem requestsOnce_of_reachable {s : Replicator} (hs : Reachable s) : RequestsOnce s := by
  induction hs with
  | init store id now => exact ⟨List.nodup_nil, nofun⟩
  | step a _ hstep ih => exact ih.step hstep

/-- What a `Load` that returned the store's answer did: its slot holds the read index it decoded, and it called
`store.Load` with that index once `applyWait` released it. -/
def Call.StoredOk (log : List StoreCall) (call : Call) : Prop :=
  ∀ {data id res err}, call.op = .load data → call.phase = .returned id res err .stored →
    ∃ r i, call.slot = some ⟨r, none⟩ ∧ uint64 r = some i ∧ StoreCall.load data res err i ∈ log

/-- Every `Load` that returned the store's answer made its `store.Load` call with the read index in its slot. -/
def StoredInv (s : Replicator) : Prop := ∀ c call, s.calls c = some call → call.StoredOk s.storeLog

theorem StoredInv.step {s s' : Replicator} (hi : StoredInv s) (hA : AnswerInv s) (hsl : SlotInv s) {a : Action}
    (h : s.step a = some s') : StoredInv s' := by
  intro c call' hc' data id res err hop hp
  rcases Replicator.step_returned (c := c) h with hk | hnew
  · -- it had returned with the store's answer: the step keeps its operation, its phase and its slot
    obtain ⟨call, hc, hop', hp'⟩ := hk call' hc' (by rw [hp]; trivial)
    have hev := hsl.step_evolves h c
    rw [hc, hc'] at hev
    obtain ⟨-, -, hslot, -⟩ := hev
    obtain ⟨r, i, hslot₀, hr, hmem⟩ := hi c call hc (hop'.trans hop) (hp'.trans hp)
    refine ⟨r, i, ?_, hr, (Replicator.step_logs h).storeLog.subset hmem⟩
    rcases hslot with h₀ | ⟨h₁, -⟩
    · rw [hslot₀] at h₀; cases h₀
    · rw [h₁, hslot₀]
  · -- its own store call, made with the index its slot held
    obtain rfl := (hnew call' hc').2 (by rw [hp]; trivial)
    obtain ⟨data', id', index, slot, src, hc, rfl⟩ := Replicator.loadStore_some (Replicator.step_some h).2
    obtain ⟨r, hslot, hr⟩ : ∃ r, slot = some ⟨r, none⟩ ∧ uint64 r = some index := (hA.calls c _ hc).2.1
    simp only [Replicator.setPhase_calls_of hc, Function.update_same, Option.some.injEq] at hc'
    subst hc'
    cases hop
    cases hp
    exact ⟨r, index, hslot, hr, List.mem_append_right _ (List.mem_singleton_self _)⟩

theorem storedInv_of_reachable {s : Replicator} (hs : Reachable s) : StoredInv s := by
  induction hs with
  | init store id now => intro c call hc; cases hc
  | step a hs₀ hstep ih => exact ih.step (answerInv_of_reachable hs₀) (slotInv_of_reachable hs₀) hstep

/-- Every `store.Load` call was made by a `Load` that returned the store's answer and waited for the read index
its slot holds. -/
def LoadsReturned (s : Replicator) : Prop :=
  ∀ {data res err i}, StoreCall.load data res err i ∈ s.storeLog → ∃ c id r src,
    s.calls c = some ⟨.load data, .returned id res err .stored, some ⟨r, none⟩, src⟩ ∧ uint64 r = some i

theorem LoadsReturned.step {s s' : Replicator} (hi : LoadsReturned s) (hA : AnswerInv s) (hsl : SlotInv s)
    {a : Action} (h : s.step a = some s') : LoadsReturned s' := by
  -- a `Load` that returned keeps its operation, its phase and its filled slot
  have hold : ∀ {data res err i}, StoreCall.load data res err i ∈ s.storeLog → ∃ c id r src,
      s'.calls c = some ⟨.load data, .returned id res err .stored, some ⟨r, none⟩, src⟩ ∧ uint64 r = some i :=
    fun hx => by
      obtain ⟨c, id, r, src, hc, hr⟩ := hi hx
      have hev := hsl.step_evolves h c
      rw [hc] at hev
      cases hc' : s'.calls c with
      | none => rw [hc'] at hev; exact hev.elim
      | some call' =>
        rw [hc'] at hev
        obtain ⟨hop, -, hslot | ⟨hslot, hsrc⟩, hret⟩ := hev
        · cases hslot
        obtain ⟨op', p', slot', src'⟩ := call'
        have hp : p' = _ := hret trivial
        dsimp only at hop hslot hsrc
        subst hop hp hslot hsrc
        exact ⟨c, id, r, _, hc', hr⟩
  intro data res err i hx
  rcases Replicator.step_load_call h hx with hx | ⟨c₀, rfl⟩
  · exact hold hx
  · obtain ⟨data', id, index, slot, src, hc, rfl⟩ := Replicator.loadStore_some (Replicator.step_some h).2
    rcases List.mem_append.1 hx with hx | hx
    · exact hold hx
    · -- the call just made, by the `Load` it returns to
      obtain ⟨r, rfl, hr⟩ : ∃ r, slot = some ⟨r, none⟩ ∧ uint64 r = some index := (hA.calls c₀ _ hc).2.1
      obtain ⟨rfl, rfl, rfl, rfl⟩ := StoreCall.load.inj (List.mem_singleton.1 hx)
      exact ⟨c₀, id, r, src, by simp [Replicator.setPhase_calls_of hc], hr⟩

/-- The store is read only for a `Load` that returns what it read: every `store.Load` call was made by a `Load`
goroutine that returned exactly the store's answer, having waited for the read index its slot holds. A `Load`
whose `ReadIndex` failed, or that timed out, never reads the store. -/
theorem store_loads_returned {s : Replicator} (hs : Reachable s) : ∀ {data res err i},
    StoreCall.load data res err i ∈ s.storeLog → ∃ c id r src,
      s.calls c = some ⟨.load data, .returned id res err .stored, some ⟨r, none⟩, src⟩ ∧
        uint64 r = some i := by
  induction hs with
  | init store id now => intro _ _ _ _ h; cases h
  | step a hs₀ hstep ih =>
    exact LoadsReturned.step ih (answerInv_of_reachable hs₀) (slotInv_of_reachable hs₀) hstep

/-- After a `Save` and a `Load` of `[7]`, the one `store.Load` call is the `Load`'s, which returned `[7]`. -/
theorem store_loads_returned_saveLoad : ∃ s, Reachable s ∧ StoreCall.load [7] [7] none 1 ∈ s.storeLog ∧
    ∃ c id r src, s.calls c = some ⟨.load [7], .returned id [7] none .stored, some ⟨r, none⟩, src⟩ ∧
      uint64 r = some 1 := by
  obtain ⟨s, hs, hlog⟩ :
      ∃ s, Reachable s ∧ s.storeLog = [.save ⟨1, 1⟩ [7] [7] none, .load [7] [7] none 1] :=
    Reachable.exists_of_run echoStore 1 0 saveLoadTrace ⟨_, rfl, by decide⟩
  have hmem : StoreCall.load [7] [7] none 1 ∈ s.storeLog := by simp [hlog]
  exact ⟨s, hs, hmem, store_loads_returned hs hmem⟩

end Nexus
