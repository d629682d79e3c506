import Nexus.Replicator.Step

/-!
# The slots of the waiter

`SlotInv` ties the waiter to the client goroutines: an id is registered to a goroutine exactly when that
goroutine is pending on its slot under that id and the slot is still empty (`waiter_iff`); a goroutine that drew
its id has an empty slot, one past its slot holds a value, and a slot holds a value exactly when it has a source
(`call_ok`); every request the engine was given comes from a goroutine whose slot exists (`requests_slot`).  It
holds in every reachable state (`slotInv_of_reachable`): each action keeps it, through the primitive updates
`SlotInv.trigger`, `SlotInv.setPhase`, `SlotInv.spawn` and `SlotInv.register`.

Consequences: `waiter.Trigger` never blocks (`SlotInv.trigger_isSome`), and a filled slot keeps its value and
source in every later step (`SlotInv.step_slot`).  `slots_trigger_once` collects them.
-/

namespace Nexus

/-- The phase right after drawing the id, before `Register`. -/
def Phase.Drawn : Phase → Prop
  | .drawn _ => True
  | _ => False

/-- The phases after a goroutine took the value in its slot. -/
def Phase.Done : Phase → Prop
  | .applyWaiting .. | .returned .. => True
  | _ => False

@[simp] theorem Call.release_pending (d : Nat) (call : Call) : (call.release d).phase.Pending ↔ call.phase.Pending := by
  rcases call.release_phase d with h | ⟨_, _, h, h'⟩ <;> simp_all [Phase.Pending]

@[simp] theorem Call.release_drawn (d : Nat) (call : Call) : (call.release d).phase.Drawn ↔ call.phase.Drawn := by
  rcases call.release_phase d with h | ⟨_, _, h, h'⟩ <;> simp_all [Phase.Drawn]

@[simp] theorem Call.release_done (d : Nat) (call : Call) : (call.release d).phase.Done ↔ call.phase.Done := by
  rcases call.release_phase d with h | ⟨_, _, h, h'⟩ <;> simp_all [Phase.Done]

/-- What holds of one goroutine's slot on its own. -/
def CallOk : Option Call → Prop
  | none => True
  | some call => (call.source.isSome ↔ call.slot.isSome) ∧ (call.phase.Drawn → call.slot = none) ∧
      (call.phase.Done → call.slot.isSome)

/-- The slot invariant. -/
structure SlotInv (s : Replicator) : Prop where
  waiter_iff : ∀ {id c}, s.waiter id = some c ↔
    ∃ call, s.calls c = some call ∧ call.phase.Pending ∧ call.phase.id = id ∧ call.slot = none
  call_ok : ∀ c, CallOk (s.calls c)
  requests_slot : ∀ {c r}, (c, r) ∈ s.requests →
    ∃ call, s.calls c = some call ∧ r = call.op.request call.phase.id ∧
      (s.waiter call.phase.id = some c ∨ call.slot.isSome)

theorem forall_update {f : Nat → Option Call} {c₀ : Nat} {x : Option Call} {p : Option Call → Prop} :
    (∀ c, p (Function.update f c₀ x c)) ↔ p x ∧ ∀ c, c ≠ c₀ → p (f c) := by
  constructor
  · intro h
    refine ⟨by simpa using h c₀, fun c hc => by simpa [hc] using h c⟩
  · rintro ⟨h₀, h⟩ c
    by_cases hc : c = c₀
    · subst hc; simpa using h₀
    · simpa [hc] using h c hc

/-- The phase of a goroutine that has returned. -/
def Phase.Returned : Phase → Prop
  | .returned .. => True
  | _ => False

/-- How one goroutine may change in a step: it appears, or it keeps its operation and its id, a filled slot
keeps its value and the one who filled it, and a goroutine that returned stays as it returned. -/
def Call.Evolves : Option Call → Option Call → Prop
  | none, _ => True
  | some _, none => False
  | some call, some call' => call'.op = call.op ∧ call'.phase.id = call.phase.id ∧
      (call.slot = none ∨ call'.slot = call.slot ∧ call'.source = call.source) ∧
      (call.phase.Returned → call'.phase = call.phase)

namespace Call.Evolves

theorem refl (o : Option Call) : Call.Evolves o o := by
  rcases o with _ | call
  · trivial
  · exact ⟨rfl, rfl, .inr ⟨rfl, rfl⟩, fun _ => rfl⟩

/-- A change of one goroutine that evolves it leaves all goroutines evolved. -/
theorem update {f : Nat → Option Call} {c₀ : Nat} {x : Option Call} (h : Call.Evolves (f c₀) x) (c : Nat) :
    Call.Evolves (f c) (Function.update f c₀ x c) := by
  by_cases hc : c = c₀
  · subst hc; simpa using h
  · simpa [hc] using refl (f c)

theorem trans {o₁ o₂ o₃ : Option Call} (h₁ : Call.Evolves o₁ o₂) (h₂ : Call.Evolves o₂ o₃) :
    Call.Evolves o₁ o₃ := by
  rcases o₁ with _ | c₁
  · trivial
  rcases o₂ with _ | c₂
  · exact h₁.elim
  rcases o₃ with _ | c₃
  · exact h₂.elim
  obtain ⟨hop₁, hid₁, hs₁, hr₁⟩ := h₁
  obtain ⟨hop₂, hid₂, hs₂, hr₂⟩ := h₂
  refine ⟨hop₂.trans hop₁, hid₂.trans hid₁, ?_, fun hr => (hr₂ (by rw [hr₁ hr]; exact hr)).trans (hr₁ hr)⟩
  rcases hs₁ with hs₁ | ⟨hs₁, hsrc₁⟩
  · exact .inl hs₁
  rcases hs₂ with hs₂ | ⟨hs₂, hsrc₂⟩
  · exact .inl (hs₁ ▸ hs₂)
  · exact .inr ⟨hs₂.trans hs₁, hsrc₂.trans hsrc₁⟩

/-- A filled slot survives the step with its value and source. -/
theorem slot {call : Call} {o : Option Call} (h : Call.Evolves (some call) o) (hs : call.slot.isSome) :
    ∃ call', o = some call' ∧ call'.slot = call.slot ∧ call'.source = call.source := by
  rcases o with _ | call'
  · exact h.elim
  obtain ⟨-, -, hnone | hkeep, -⟩ := h
  · simp [hnone] at hs
  · exact ⟨call', rfl, hkeep⟩

end Call.Evolves

namespace Replicator

variable {s s' : Replicator}

theorem trigger_evolves {id : Nat} {v : InternalNexusResponse} {src : Source}
    (h : s.trigger id v src = some s') (c : Nat) : Call.Evolves (s.calls c) (s'.calls c) := by
  rcases trigger_some h with ⟨-, rfl⟩ | ⟨c₀, -, -, rfl⟩ | ⟨c₀, call₀, -, hc₀, hslot₀, rfl⟩
  · exact .refl _
  · exact .refl _
  · exact .update (by rw [hc₀]; exact ⟨rfl, rfl, .inl hslot₀, fun _ => rfl⟩) c

theorem setPhase_evolves {c : Nat} {call : Call} {p : Phase} (hc : s.calls c = some call)
    (hid : p.id = call.phase.id) (hr : ¬call.phase.Returned) (c' : Nat) :
    Call.Evolves (s.calls c') ((s.setPhase c p).calls c') :=
  .update (by rw [hc]; exact ⟨rfl, hid, .inr ⟨rfl, rfl⟩, fun h => absurd h hr⟩) c'

theorem applyWaitTrigger_evolves (d c : Nat) : Call.Evolves (s.calls c) ((s.applyWaitTrigger d).calls c) := by
  rw [applyWaitTrigger_calls]
  rcases s.calls c with _ | call
  · trivial
  · refine ⟨call.release_op d, call.release_phase_id d, by cases h : call.slot <;> simp [h], fun hr => ?_⟩
    rcases call.release_phase d with h | ⟨_, _, h, -⟩
    · exact h
    · rw [h] at hr; exact hr.elim

end Replicator

namespace SlotInv

variable {s s' : Replicator} {c : Nat}

theorem newReplicator (store : Store) (id now : Nat) : SlotInv (newReplicator store id now) where
  waiter_iff := by simp [Nexus.newReplicator]
  call_ok _ := trivial
  requests_slot h := by cases h

theorem waiter_call (hi : SlotInv s) {id c : Nat} (h : s.waiter id = some c) :
    ∃ call, s.calls c = some call ∧ call.phase.Pending ∧ call.phase.id = id ∧ call.slot = none :=
  hi.waiter_iff.1 h

/-- A trigger of a registered id fills an empty slot, so it never blocks. -/
theorem trigger_isSome (hi : SlotInv s) (id : Nat) (v : InternalNexusResponse) (src : Source) :
    (s.trigger id v src).isSome := by
  unfold Replicator.trigger
  split
  · rfl
  · rename_i c hw
    obtain ⟨call, hc, -, -, hslot⟩ := hi.waiter_call hw
    simp [hc, hslot]

theorem trigger (hi : SlotInv s) {id : Nat} {v : InternalNexusResponse} {src : Source}
    (h : s.trigger id v src = some s') : SlotInv s' := by
  rcases Replicator.trigger_some h with ⟨-, rfl⟩ | ⟨c₀, hw, hc₀, -⟩ | ⟨c₀, call₀, hw, hc₀, hslot₀, rfl⟩
  · exact hi
  · obtain ⟨call, hc, -⟩ := hi.waiter_call hw
    simp [hc] at hc₀
  · obtain ⟨_, hc, hp₀, hid₀, -⟩ := hi.waiter_call hw
    rw [hc₀] at hc; cases hc
    -- the only goroutine registered under `id` is `c₀`
    have hreg : ∀ {c call}, s.calls c = some call → call.phase.Pending → call.phase.id = id →
        call.slot = none → c = c₀ := fun hc hp hid hs =>
      Option.some.inj ((hi.waiter_iff.2 ⟨_, hc, hp, hid, hs⟩).symm.trans hw)
    refine ⟨fun {id' c} => ?_, ?_, ?_⟩
    · simp only [Function.update_apply]
      by_cases hc : c = c₀
      · subst hc
        simp only [if_true, Option.some.injEq, exists_eq_left', reduceCtorEq, and_false, iff_false]
        split
        · simp
        · intro hw'
          obtain ⟨_, hc', -, hid', -⟩ := hi.waiter_call hw'
          rw [hc₀] at hc'; cases hc'
          exact ‹¬id' = id› (hid'.symm.trans hid₀)
      · simp only [hc, if_false]
        split
        · subst_vars
          simp only [reduceCtorEq, false_iff, not_exists, not_and]
          exact fun call hcall hp hid hs => hc (hreg hcall hp hid hs)
        · exact hi.waiter_iff
    · refine forall_update.2 ⟨⟨by simp, fun hd => ?_, fun _ => rfl⟩, fun c _ => hi.call_ok c⟩
      cases h : call₀.phase <;> simp_all [Phase.Pending, Phase.Drawn]
    · intro c r hr
      obtain ⟨call, hc, hreq, hslot⟩ := hi.requests_slot hr
      by_cases hcc : c = c₀
      · subst hcc
        rw [hc₀] at hc; cases hc
        exact ⟨{ call₀ with slot := some v, source := some src }, by simp, hreq, .inr rfl⟩
      · refine ⟨call, by simp [hcc, hc], hreq, ?_⟩
        simp only [Function.update_apply]
        split
        · rename_i heq
          rcases hslot with hw' | hs
          · rw [heq] at hw'
            exact absurd (Option.some.inj (hw'.symm.trans hw)) hcc
          · exact .inr hs
        · exact hslot

theorem setPhase (hi : SlotInv s) {call : Call} {p : Phase} (hc : s.calls c = some call)
    (hslot : call.slot.isSome) (hp : p.Done) (hid : p.id = call.phase.id) : SlotInv (s.setPhase c p) := by
  have hcalls : (s.setPhase c p).calls = Function.update s.calls c (some { call with phase := p }) := by
    simp [Replicator.setPhase, hc]
  have hnp : ¬p.Pending := by cases p <;> simp_all [Phase.Pending, Phase.Done]
  refine ⟨fun {id c'} => ?_, ?_, fun {c' r} hr => ?_⟩
  · simp only [Replicator.setPhase_waiter, hcalls, Function.update_apply]
    by_cases hc' : c' = c
    · subst hc'
      simp only [if_true, Option.some.injEq, exists_eq_left', hnp, false_and, iff_false]
      intro hw
      obtain ⟨_, hc', -, -, hs⟩ := hi.waiter_call hw
      rw [hc] at hc'; cases hc'
      simp [hs] at hslot
    · simp only [hc', if_false]
      exact hi.waiter_iff
  · have hok := hi.call_ok c
    rw [hc] at hok
    rw [hcalls]
    refine forall_update.2 ⟨⟨hok.1, fun hd => ?_, fun _ => hslot⟩, fun c' _ => hi.call_ok c'⟩
    cases p <;> simp_all [Phase.Drawn, Phase.Done]
  · obtain ⟨call', hc', hreq, hs⟩ := hi.requests_slot hr
    simp only [Replicator.setPhase_waiter, hcalls, Function.update_apply]
    by_cases hcc : c' = c
    · subst hcc
      rw [hc] at hc'; cases hc'
      exact ⟨{ call with phase := p }, by simp, hreq.trans (by rw [hid]), .inr hslot⟩
    · exact ⟨call', by simp [hcc, hc'], hreq, hs⟩

theorem spawn (hi : SlotInv s) {op : Op} {id : Nat} (hc : s.calls c = none)
    (hw : s'.waiter = s.waiter) (hr : s'.requests = s.requests)
    (hcalls : s'.calls = Function.update s.calls c (some ⟨op, .drawn id, none, none⟩)) : SlotInv s' := by
  refine ⟨fun {id' c'} => ?_, ?_, fun {c' r} h => ?_⟩
  · rw [hw, hcalls]
    by_cases hc' : c' = c
    · subst hc'
      simp only [Function.update_apply, if_true, Option.some.injEq, exists_eq_left']
      simp only [Phase.Pending, false_and, iff_false]
      intro hw'
      obtain ⟨_, hc', -⟩ := hi.waiter_call hw'
      simp [hc] at hc'
    · simp only [Function.update_apply, hc', if_false]
      exact hi.waiter_iff
  · rw [hcalls]
    exact forall_update.2 ⟨⟨by simp, fun _ => rfl, fun h => h.elim⟩, fun c' _ => hi.call_ok c'⟩
  · rw [hr] at h
    obtain ⟨call, hc', hreq, hs⟩ := hi.requests_slot h
    have hne : c' ≠ c := by rintro rfl; simp [hc] at hc'
    rw [hw, hcalls]
    exact ⟨call, by simp [hne, hc'], hreq, hs⟩

theorem register (hi : SlotInv s) {op : Op} {id : Nat} {slot : Option InternalNexusResponse}
    {src : Option Source} (hc : s.calls c = some ⟨op, .drawn id, slot, src⟩) (hw : s.waiter id = none) :
    SlotInv { s with waiter := Function.update s.waiter id (some c),
                     calls := Function.update s.calls c (some ⟨op, .registered id, slot, src⟩) } := by
  have hok := hi.call_ok c
  rw [hc] at hok
  have hslot : slot = none := hok.2.1 trivial
  subst hslot
  refine ⟨fun {id' c'} => ?_, ?_, fun {c' r} h => ?_⟩
  · simp only [Function.update_apply]
    by_cases hc' : c' = c
    · subst hc'
      simp only [if_true, Option.some.injEq, exists_eq_left', Phase.Pending, Phase.id, true_and, and_true]
      split
      · simp_all
      · simp only [‹¬id' = id›, Ne.symm ‹¬id' = id›, iff_false]
        intro hw'
        obtain ⟨_, hc', hp, -⟩ := hi.waiter_call hw'
        rw [hc] at hc'; cases hc'; exact hp
    · simp only [hc', if_false]
      split
      · subst_vars
        simp only [Option.some.injEq, Ne.symm hc', false_iff, not_exists, not_and]
        intro call hcall hp hid hs
        exact absurd (hw ▸ hi.waiter_iff.2 ⟨call, hcall, hp, hid, hs⟩) (by simp)
      · exact hi.waiter_iff
  · exact forall_update.2 ⟨⟨hok.1, fun h => h.elim, fun h => h.elim⟩, fun c' _ => hi.call_ok c'⟩
  · obtain ⟨call, hc', hreq, hs⟩ := hi.requests_slot h
    have hne : c' ≠ c := by
      rintro rfl
      rw [hc] at hc'; cases hc'
      simp_all [Phase.id]
    refine ⟨call, by simp [hne, hc'], hreq, ?_⟩
    simp only [Function.update_apply]
    split
    · subst_vars
      rcases hs with hs | hs
      · simp_all
      · exact .inr hs
    · exact hs

theorem proposeOk (hi : SlotInv s) {op : Op} {id : Nat} {slot : Option InternalNexusResponse}
    {src : Option Source} (hc : s.calls c = some ⟨op, .registered id, slot, src⟩) :
    SlotInv { s with calls := Function.update s.calls c (some ⟨op, .waiting id, slot, src⟩),
                     requests := s.requests ++ [(c, op.request id)] } := by
  have hok := hi.call_ok c
  rw [hc] at hok
  refine ⟨fun {id' c'} => ?_, ?_, fun {c' r} h => ?_⟩
  · by_cases hc' : c' = c
    · subst hc'
      rw [hi.waiter_iff]
      simp [hc, Phase.Pending, Phase.id]
    · simp only [Function.update_apply, hc', if_false]
      exact hi.waiter_iff
  · exact forall_update.2 ⟨⟨hok.1, fun h => h.elim, fun h => h.elim⟩, fun c' _ => hi.call_ok c'⟩
  · rcases List.mem_append.1 h with h | h
    · obtain ⟨call, hc', hreq, hs⟩ := hi.requests_slot h
      by_cases hcc : c' = c
      · subst hcc
        rw [hc] at hc'; cases hc'
        exact ⟨⟨op, .waiting id, slot, src⟩, by simp, hreq, hs⟩
      · exact ⟨call, by simp [hcc, hc'], hreq, hs⟩
    · obtain ⟨rfl, rfl⟩ := Prod.mk.inj (List.mem_singleton.1 h)
      refine ⟨⟨op, .waiting id, slot, src⟩, by simp, rfl, ?_⟩
      cases hslot : slot
      · exact .inl (hi.waiter_iff.2 ⟨_, hc, trivial, rfl, hslot⟩)
      · exact .inr rfl

/-- `applyWait.Trigger` releases waiting `Load`s without touching their slots. -/
theorem applyWaitTrigger (hi : SlotInv s) (d : Nat) : SlotInv (s.applyWaitTrigger d) := by
  refine ⟨fun {id c} => ?_, fun c => ?_, fun {c r} h => ?_⟩
  · simp only [Replicator.applyWaitTrigger_calls, Replicator.applyWaitTrigger_waiter, Option.map_eq_some',
      exists_exists_and_eq_and, Call.release_pending, Call.release_phase_id, Call.release_slot]
    exact hi.waiter_iff
  · have hok := hi.call_ok c
    simp only [Replicator.applyWaitTrigger_calls]
    cases hc : s.calls c with
    | none => trivial
    | some call =>
      rw [hc] at hok
      simpa [CallOk] using hok
  · obtain ⟨call, hc, hreq, hs⟩ := hi.requests_slot h
    exact ⟨call.release d, by simp [hc], by simpa using hreq, by simpa using hs⟩

/-- The invariant reads only the waiter, the goroutines and the requests. -/
theorem congr (hi : SlotInv s) (hw : s'.waiter = s.waiter) (hc : s'.calls = s.calls)
    (hr : s'.requests = s.requests) : SlotInv s' :=
  ⟨by rw [hw, hc]; exact hi.waiter_iff, by rw [hc]; exact hi.call_ok, by rw [hr, hw, hc]; exact hi.requests_slot⟩

/-- After a goroutine's own trigger its slot holds a value: its own, or the one that came first. -/
theorem trigger_own (hi : SlotInv s) {call : Call} {id : Nat} {v : InternalNexusResponse} {src : Source}
    (hc : s.calls c = some call) (hp : call.phase.Pending) (hid : call.phase.id = id)
    (h : s.trigger id v src = some s') :
    ∃ call', s'.calls c = some call' ∧ call'.op = call.op ∧ call'.phase = call.phase ∧ call'.slot.isSome := by
  rcases Replicator.trigger_some h with ⟨hw, rfl⟩ | ⟨c₀, hw, hc₀, -⟩ | ⟨c₀, call₀, hw, hc₀, hslot₀, rfl⟩
  · refine ⟨call, hc, rfl, rfl, ?_⟩
    cases hs : call.slot
    · have := hi.waiter_iff.2 ⟨call, hc, hp, hid, hs⟩
      simp [hw] at this
    · rfl
  · obtain ⟨call, hc, -⟩ := hi.waiter_call hw
    simp [hc] at hc₀
  · by_cases hcc : c = c₀
    · subst hcc
      rw [hc] at hc₀; cases hc₀
      exact ⟨{ call with slot := some v, source := some src }, by simp, rfl, rfl, rfl⟩
    · refine ⟨call, by simp [hcc, hc], rfl, rfl, ?_⟩
      cases hs : call.slot
      · exact absurd (Option.some.inj ((hi.waiter_iff.2 ⟨call, hc, hp, hid, hs⟩).symm.trans hw)) hcc
      · rfl

/-- The slot invariant holds after every step. -/
theorem step (hi : SlotInv s) {a : Action} (h : s.step a = some s') : SlotInv s' := by
  obtain ⟨-, h⟩ := Replicator.step_some h
  have hspawn : ∀ c op, s.spawn c op = some s' → SlotInv s' := fun c op h => by
    obtain ⟨hc, rfl⟩ := Replicator.spawn_some h
    exact hi.spawn hc rfl rfl rfl
  -- a goroutine whose own trigger ran and which then returns
  have hown : ∀ {c : Nat} {call : Call} {id : Nat} {v : InternalNexusResponse} {s₁ : Replicator} {p : Phase},
      s.calls c = some call → call.phase.Pending → call.phase.id = id → p.Done → p.id = id →
      s.trigger id v .own = some s₁ → SlotInv (s₁.setPhase c p) := fun hc hp hid hdone hpid h₁ => by
    obtain ⟨call', hc', -, hph, hs⟩ := hi.trigger_own hc hp hid h₁
    exact (hi.trigger h₁).setPhase hc' hs hdone (by rw [hpid, hph, hid])
  cases a with
  | save c data => exact hspawn c (.save data) h
  | load c data => exact hspawn c (.load data) h
  | addMember c opts dial =>
    simp only [Replicator.act] at h
    split at h
    · exact hspawn c _ h
    · cases h; exact hi
  | removeMember c opts =>
    simp only [Replicator.act] at h
    split at h
    · exact hspawn c _ h
    · cases h; exact hi
  | register c =>
    obtain ⟨op, id, slot, src, hc, ⟨-, rfl⟩ | ⟨hw, rfl⟩⟩ := Replicator.register_some h
    · exact hi.congr rfl rfl rfl
    · exact hi.register hc hw
  | propose c err =>
    obtain ⟨op, id, slot, src, hc, ⟨-, rfl⟩ | ⟨e, s₁, -, h₁, rfl⟩⟩ := Replicator.propose_some h
    · exact hi.proposeOk hc
    · exact hown hc trivial rfl (by trivial) rfl h₁
  | receive c =>
    obtain ⟨op, id, v, src, hc, hcases⟩ := Replicator.receive_some h
    rcases hcases with ⟨_, -, rfl⟩ | ⟨_, -, rfl⟩ | ⟨_, _, -, -, rfl⟩ | ⟨_, -, -, -, rfl⟩ | ⟨_, _, -, -, -, rfl⟩
    all_goals first
      | exact hi.congr rfl rfl rfl
      | exact hi.setPhase hc rfl (by trivial) rfl
  | timeout c e =>
    rcases Replicator.timeout_some h with ⟨op, id, slot, src, s₁, hc, h₁, rfl⟩ |
      ⟨op, id, index, ready, slot, src, hc, rfl⟩
    · exact hown hc trivial rfl (by trivial) rfl h₁
    · have hok := hi.call_ok c
      rw [hc] at hok
      exact hi.setPhase hc (hok.2.2 trivial) (by trivial) rfl
  | loadStore c =>
    obtain ⟨data, id, index, slot, src, hc, rfl⟩ := Replicator.loadStore_some h
    have hok := hi.call_ok c
    rw [hc] at hok
    exact (hi.setPhase hc (hok.2.2 trivial) (by trivial) (by rfl)).congr rfl rfl rfl
  | applySentinel snap =>
    obtain ⟨-, ⟨-, rfl⟩ | ⟨_, -, rfl⟩ | ⟨_, -, rfl⟩⟩ := Replicator.applySentinel_some h <;>
      exact hi.congr rfl rfl rfl
  | applyRestore =>
    obtain ⟨_, -, ⟨-, rfl⟩ | ⟨_, -, rfl⟩⟩ := Replicator.applyRestore_some h <;> exact hi.congr rfl rfl rfl
  | applyEntry e =>
    obtain ⟨-, ⟨-, rfl⟩ | ⟨-, -, rfl⟩ | ⟨_, -, -, -, rfl⟩ | ⟨_, -, -, -, rfl⟩⟩ := Replicator.applyEntry_some h <;>
      exact hi.congr rfl rfl rfl
  | applySave =>
    obtain ⟨_, _, -, rfl⟩ := Replicator.applySave_some h
    exact hi.congr rfl rfl rfl
  | applyReply =>
    obtain ⟨id, v, e, s₁, -, h₁, rfl⟩ := Replicator.applyReply_some h
    exact (hi.trigger h₁).congr rfl rfl rfl
  | applyAdvance =>
    obtain ⟨index, -, rfl⟩ := Replicator.applyAdvance_some h
    exact (hi.applyWaitTrigger index).congr rfl rfl rfl
  | closeCommits err =>
    obtain ⟨-, ⟨-, rfl⟩ | ⟨_, -, rfl⟩⟩ := Replicator.closeCommits_some h <;> exact hi.congr rfl rfl rfl
  | readState rd =>
    rcases Replicator.readState_some h with ⟨-, rfl⟩ | ⟨id, -, h₁⟩
    · exact hi.congr rfl rfl rfl
    · have h₀ : SlotInv { s with readStates := s.readStates ++ [rd] } := hi.congr rfl rfl rfl
      exact h₀.trigger h₁

/-- No step takes a goroutine away, changes its operation or its id, or touches a filled slot. -/
theorem step_evolves (hi : SlotInv s) {a : Action} (h : s.step a = some s') (c : Nat) :
    Call.Evolves (s.calls c) (s'.calls c) := by
  obtain ⟨-, h⟩ := Replicator.step_some h
  -- the goroutine `c₀` changes its phase, keeping its id
  have hset : ∀ {c₀ : Nat} {call : Call} {p : Phase}, s.calls c₀ = some call → p.id = call.phase.id →
      ¬call.phase.Returned → Call.Evolves (s.calls c) ((s.setPhase c₀ p).calls c) := fun hc hid hr =>
    Replicator.setPhase_evolves hc hid hr c
  -- the goroutine `c₀` triggers its own slot, then returns
  have hown : ∀ {c₀ : Nat} {call : Call} {id : Nat} {v : InternalNexusResponse} {s₁ : Replicator} {p : Phase},
      s.calls c₀ = some call → call.phase.Pending → ¬call.phase.Returned → call.phase.id = id → p.id = id →
      s.trigger id v .own = some s₁ → Call.Evolves (s.calls c) ((s₁.setPhase c₀ p).calls c) :=
    fun hc hp hr hid hpid h₁ => by
      obtain ⟨call', hc', -, hph, -⟩ := hi.trigger_own hc hp hid h₁
      exact (Replicator.trigger_evolves h₁ c).trans
        (Replicator.setPhase_evolves hc' (by rw [hpid, hph, hid]) (by rw [hph]; exact hr) c)
  have hspawn : ∀ c₀ op, s.spawn c₀ op = some s' → Call.Evolves (s.calls c) (s'.calls c) := fun c₀ op h => by
    obtain ⟨hc, rfl⟩ := Replicator.spawn_some h
    exact .update (by rw [hc]; trivial) c
  cases a with
  | save c₀ data => exact hspawn c₀ (.save data) h
  | load c₀ data => exact hspawn c₀ (.load data) h
  | addMember c₀ opts dial =>
    simp only [Replicator.act] at h
    split at h
    · exact hspawn c₀ _ h
    · cases h; exact .refl _
  | removeMember c₀ opts =>
    simp only [Replicator.act] at h
    split at h
    · exact hspawn c₀ _ h
    · cases h; exact .refl _
  | register c₀ =>
    obtain ⟨op, id, slot, src, hc, ⟨-, rfl⟩ | ⟨-, rfl⟩⟩ := Replicator.register_some h
    · exact .refl _
    · exact .update (by rw [hc]; exact ⟨rfl, rfl, .inr ⟨rfl, rfl⟩, nofun⟩) c
  | propose c₀ err =>
    obtain ⟨op, id, slot, src, hc, ⟨-, rfl⟩ | ⟨e, s₁, -, h₁, rfl⟩⟩ := Replicator.propose_some h
    · exact .update (by rw [hc]; exact ⟨rfl, rfl, .inr ⟨rfl, rfl⟩, nofun⟩) c
    · exact hown hc trivial nofun rfl rfl h₁
  | receive c₀ =>
    obtain ⟨op, id, v, src, hc, hcases⟩ := Replicator.receive_some h
    rcases hcases with ⟨_, -, rfl⟩ | ⟨_, -, rfl⟩ | ⟨_, _, -, -, rfl⟩ | ⟨_, -, -, -, rfl⟩ | ⟨_, _, -, -, -, rfl⟩
    all_goals first
      | exact .refl _
      | exact hset hc rfl nofun
  | timeout c₀ e =>
    rcases Replicator.timeout_some h with ⟨op, id, slot, src, s₁, hc, h₁, rfl⟩ |
      ⟨op, id, index, ready, slot, src, hc, rfl⟩
    · exact hown hc trivial nofun rfl rfl h₁
    · exact hset hc rfl nofun
  | loadStore c₀ =>
    obtain ⟨data, id, index, slot, src, hc, rfl⟩ := Replicator.loadStore_some h
    exact hset hc rfl nofun
  | applySentinel snap =>
    obtain ⟨-, ⟨-, rfl⟩ | ⟨_, -, rfl⟩ | ⟨_, -, rfl⟩⟩ := Replicator.applySentinel_some h <;> exact .refl _
  | applyRestore =>
    obtain ⟨_, -, ⟨-, rfl⟩ | ⟨_, -, rfl⟩⟩ := Replicator.applyRestore_some h <;> exact .refl _
  | applyEntry e =>
    obtain ⟨-, ⟨-, rfl⟩ | ⟨-, -, rfl⟩ | ⟨_, -, -, -, rfl⟩ | ⟨_, -, -, -, rfl⟩⟩ := Replicator.applyEntry_some h <;>
      exact .refl _
  | applySave =>
    obtain ⟨_, _, -, rfl⟩ := Replicator.applySave_some h
    exact .refl _
  | applyReply =>
    obtain ⟨id, v, e, s₁, -, h₁, rfl⟩ := Replicator.applyReply_some h
    exact Replicator.trigger_evolves h₁ c
  | applyAdvance =>
    obtain ⟨index, -, rfl⟩ := Replicator.applyAdvance_some h
    exact Replicator.applyWaitTrigger_evolves index c
  | closeCommits err =>
    obtain ⟨-, ⟨-, rfl⟩ | ⟨_, -, rfl⟩⟩ := Replicator.closeCommits_some h <;> exact .refl _
  | readState rd =>
    rcases Replicator.readState_some h with ⟨-, rfl⟩ | ⟨id, -, h₁⟩
    · exact .refl _
    · exact Replicator.trigger_evolves h₁ c

end SlotInv

theorem slotInv_of_reachable {s : Replicator} (h : Reachable s) : SlotInv s := by
  induction h with
  | init store id now => exact SlotInv.newReplicator store id now
  | step a _ hs ih => exact ih.step hs

/-- Registration, triggering and return of the waiter's slots, over every reachable state: every request the
engine holds comes from a goroutine that is registered under its id or already holds its answer; a trigger
never blocks, a goroutine that took its value holds one, and no step alters a filled slot; and the waiter
holds exactly the goroutines still pending on an empty slot. -/
theorem slots_trigger_once {s : Replicator} (hs : Reachable s) :
    (∀ c r, (c, r) ∈ s.requests → ∃ call, s.calls c = some call ∧ r = call.op.request call.phase.id ∧
      (s.waiter call.phase.id = some c ∨ call.slot.isSome)) ∧
    (∀ id v src, (s.trigger id v src).isSome) ∧
    (∀ c call, s.calls c = some call → call.phase.Done → call.slot.isSome) ∧
    (∀ a s' c call, s.step a = some s' → s.calls c = some call → call.slot.isSome →
      ∃ call', s'.calls c = some call' ∧ call'.slot = call.slot ∧ call'.source = call.source) ∧
    (∀ id c, s.waiter id = some c ↔
      ∃ call, s.calls c = some call ∧ call.phase.Pending ∧ call.phase.id = id ∧ call.slot = none) := by
  have hi := slotInv_of_reachable hs
  refine ⟨fun c r h => hi.requests_slot h, hi.trigger_isSome, fun c call hc hd => ?_,
    fun a s' c call h hc hslot => ?_, fun id c => hi.waiter_iff⟩
  · have hok := hi.call_ok c
    rw [hc] at hok
    exact hok.2.2 hd
  · have hev := hi.step_evolves h c
    rw [hc] at hev
    exact hev.slot hslot

theorem slots_trigger_once_saveLoad : ∃ s, Reachable s ∧
    (s.calls 0).map Call.phase = some (.returned (2 ^ 48 + 1) [7] none .received) ∧
    ∀ id v src, (s.trigger id v src).isSome := by
  obtain ⟨s, hs, hp⟩ : ∃ s, Reachable s ∧
      (s.calls 0).map Call.phase = some (.returned (2 ^ 48 + 1) [7] none .received) :=
    Reachable.exists_of_run echoStore 1 0 saveLoadTrace ⟨_, rfl, by decide⟩
  exact ⟨s, hs, hp, (slots_trigger_once hs).2.1⟩

end Nexus
