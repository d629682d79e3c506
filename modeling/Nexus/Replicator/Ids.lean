import Nexus.Replicator.Slots

/-!
# The waiter's keys

`Save` and `Load` register under ids drawn from the generator, configuration changes under the values of
`confChangeCount`, all in the one waiter.  `KeyInv`: every goroutine's key is a generator id drawn below the
current counter or a count up to the current one, and no two goroutines share a key.  It holds while the
node's member id `uint16(id)` is not 0 and neither counter has reached `2^48` (`keyInv_of_reachable`), and then
the key a goroutine is about to register is free (`register_key_free`).  Without the first condition it is
not: `register_dup_panic` reaches `Register`'s panic on node `65536`.

Keys also grow in the order goroutines start (`keys_increase`): a goroutine that starts along a run draws its
key from counter values the run's first state had not reached (`Replicator.run_fresh_drawn`), above every key
drawn before.
-/

namespace Nexus

/-- The keys a replicator has handed out to goroutines running `op`: a generator id drawn below the current
counter, or a conf-change count up to the current one. -/
def Replicator.Drawn (s : Replicator) : Op → Nat → Prop
  | .confChange _, id => ∃ j, j < s.confChangeCount ∧ id = (j + 1) % 2 ^ 64
  | _, id => ∃ j, j < s.idGen.suffix ∧ id = s.id % 2 ^ 16 * 2 ^ 48 + (j + 1) % 2 ^ 48

/-- The keys handed out so far, one for each goroutine. -/
structure KeyInv (s : Replicator) : Prop where
  seeded : s.idGen.SeededBy (s.id % 2 ^ 16)
  drawn : ∀ c call, s.calls c = some call → s.Drawn call.op call.phase.id
  distinct : ∀ c c' call call', s.calls c = some call → s.calls c' = some call' →
    call.phase.id = call'.phase.id → c = c'

namespace Replicator

variable {s s' : Replicator}

theorem Drawn.mono {op : Op} {id : Nat} (h : s.Drawn op id) (hid : s'.id = s.id)
    (hg : s.idGen.suffix ≤ s'.idGen.suffix) (hn : s.confChangeCount ≤ s'.confChangeCount) : s'.Drawn op id := by
  cases op <;>
  · obtain ⟨j, hj, rfl⟩ := h
    exact ⟨j, by omega, by simp [hid]⟩

/-- Where a drawn key lies while no counter has reached `2^48`: a configuration change's ID is a count, from 1,
and the id of a `Save` or a `Load` is the node's member id followed by a non-zero 48-bit suffix. -/
theorem Drawn.range {op : Op} {id : Nat} (h : s.Drawn op id) (hn : s.confChangeCount < 2 ^ 48)
    (hg : s.idGen.suffix < 2 ^ 48) :
    (∃ cc, op = .confChange cc) ∧ 0 < id ∧ id ≤ s.confChangeCount ∨
      ∃ k, 0 < k ∧ k < 2 ^ 48 ∧ id = s.id % 2 ^ 16 * 2 ^ 48 + k := by
  cases op with
  | confChange cc =>
    obtain ⟨j, hj, rfl⟩ := h
    exact .inl ⟨⟨cc, rfl⟩, by omega, by omega⟩
  | save data | load data =>
    obtain ⟨j, hj, rfl⟩ := h
    exact .inr ⟨j + 1, by omega, by omega, by omega⟩

/-- The id a goroutine draws is one it has just handed out. -/
theorem drawn_drawId (hseed : s.idGen.SeededBy (s.id % 2 ^ 16)) (op : Op) :
    Drawn { s with idGen := op.nextGen s.idGen, confChangeCount := op.nextCount s.confChangeCount } op
      (s.drawId op) := by
  cases op with
  | confChange cc => exact ⟨s.confChangeCount, Nat.lt_succ_self _, rfl⟩
  | save data | load data => exact ⟨s.idGen.suffix, Nat.lt_succ_self _, Generator.next_eq hseed⟩

/-- While the member id is not 0 and no counter reaches `2^48`, the id a goroutine draws is none handed out
before. -/
theorem drawId_ne (hseed : s.idGen.SeededBy (s.id % 2 ^ 16)) (hm : 0 < s.id % 2 ^ 16) {op : Op}
    (hg : (op.nextGen s.idGen).suffix < 2 ^ 48) (hn : op.nextCount s.confChangeCount < 2 ^ 48) {op' : Op}
    {id : Nat} (hd : s.Drawn op' id) : s.drawId op ≠ id := by
  have hgen := Generator.next_eq hseed
  cases op <;> cases op' <;> obtain ⟨j, hj, rfl⟩ := hd <;> simp only [drawId, Op.nextGen, Op.nextCount,
    Generator.next_suffix] at hg hn ⊢ <;> omega

/-- When no goroutine starts, every goroutine after the step was there before, with its operation and its
key. -/
theorem step_back (hi : SlotInv s) {a : Action} (h : s.step a = some s')
    (hnone : ∀ c, s.calls c = none → s'.calls c = none) {c : Nat} {call' : Call} (hc' : s'.calls c = some call') :
    ∃ call, s.calls c = some call ∧ call'.op = call.op ∧ call'.phase.id = call.phase.id := by
  have hev := hi.step_evolves h c
  cases hc : s.calls c with
  | none => rw [hnone c hc] at hc'; cases hc'
  | some call =>
    rw [hc, hc'] at hev
    exact ⟨call, rfl, hev.1, hev.2.1⟩

/-- Steps keep the member id and never move the counters back. -/
theorem step_counters {a : Action} (h : s.step a = some s') :
    s'.id = s.id ∧ s.idGen.suffix ≤ s'.idGen.suffix ∧ s.confChangeCount ≤ s'.confChangeCount := by
  rcases step_spawn h with ⟨-, c, op, h⟩ | ⟨hid, hg, hn, -⟩
  · obtain ⟨-, rfl⟩ := spawn_some h
    cases op <;> simp [Op.nextGen, Op.nextCount]
  · exact ⟨hid, by rw [hg], hn.ge⟩

/-- Steps keep the generator seeded by the member id. -/
theorem step_seededBy (hseed : s.idGen.SeededBy (s.id % 2 ^ 16)) {a : Action} (h : s.step a = some s') :
    s'.idGen.SeededBy (s'.id % 2 ^ 16) := by
  rcases step_spawn h with ⟨-, c, op, h⟩ | ⟨hid, hg, -, -⟩
  · obtain ⟨-, rfl⟩ := spawn_some h
    cases op <;> exact hseed
  · rw [hg, hid]
    exact hseed

/-- Steps keep every goroutine's key one the replicator handed out. -/
theorem Drawn.step (hseed : s.idGen.SeededBy (s.id % 2 ^ 16)) (hi : SlotInv s) {a : Action}
    (h : s.step a = some s') (hdr : ∀ c call, s.calls c = some call → s.Drawn call.op call.phase.id) :
    ∀ c call, s'.calls c = some call → s'.Drawn call.op call.phase.id := by
  obtain ⟨hid, hgle, hnle⟩ := step_counters h
  rcases step_spawn h with ⟨-, c, op, hsp⟩ | ⟨-, -, -, hnone⟩
  · -- the goroutine that starts draws its key; the others keep theirs
    obtain ⟨-, rfl⟩ := spawn_some hsp
    intro c' call' hc'
    dsimp only at hc'
    by_cases hcc : c' = c
    · subst hcc
      simp only [Function.update_same, Option.some.injEq] at hc'
      subst hc'
      exact drawn_drawId hseed op
    · rw [Function.update_noteq hcc] at hc'
      exact (hdr c' call' hc').mono hid hgle hnle
  · intro c call' hc'
    obtain ⟨call, hc, hop, hpid⟩ := step_back hi h hnone hc'
    rw [hop, hpid]
    exact (hdr c call hc).mono hid hgle hnle

end Replicator

namespace KeyInv

variable {s s' : Replicator}

theorem newReplicator (store : Store) (id now : Nat) : KeyInv (newReplicator store id now) where
  seeded := newGenerator_seededBy _ now
  drawn _ _ h := by cases h
  distinct _ _ _ _ h := by cases h

theorem step (hk : KeyInv s) (hi : SlotInv s) {a : Action} (h : s.step a = some s') (hm : 0 < s'.id % 2 ^ 16)
    (hg : s'.idGen.suffix < 2 ^ 48) (hn : s'.confChangeCount < 2 ^ 48) : KeyInv s' := by
  refine ⟨Replicator.step_seededBy hk.seeded h, Replicator.Drawn.step hk.seeded hi h hk.drawn, ?_⟩
  rcases Replicator.step_spawn h with ⟨-, c, op, hsp⟩ | ⟨-, -, -, hnone⟩
  · -- a goroutine starts and draws a fresh key
    obtain ⟨hc, rfl⟩ := Replicator.spawn_some hsp
    have hfresh : ∀ c' call', s.calls c' = some call' → s.drawId op ≠ call'.phase.id := fun c' call' hc' =>
      Replicator.drawId_ne hk.seeded hm hg hn (hk.drawn c' call' hc')
    intro c₁ c₂ call₁ call₂ h₁ h₂ heq
    dsimp only at h₁ h₂
    by_cases h₁c : c₁ = c <;> by_cases h₂c : c₂ = c
    · rw [h₁c, h₂c]
    · subst h₁c
      rw [Function.update_noteq h₂c] at h₂
      simp only [Function.update_same, Option.some.injEq] at h₁
      subst h₁
      exact absurd heq (hfresh c₂ call₂ h₂)
    · subst h₂c
      rw [Function.update_noteq h₁c] at h₁
      simp only [Function.update_same, Option.some.injEq] at h₂
      subst h₂
      exact absurd heq.symm (hfresh c₁ call₁ h₁)
    · rw [Function.update_noteq h₁c] at h₁
      rw [Function.update_noteq h₂c] at h₂
      exact hk.distinct c₁ c₂ call₁ call₂ h₁ h₂ heq
  · -- no goroutine starts: every goroutine keeps its key
    intro c₁ c₂ call₁ call₂ h₁ h₂ heq
    obtain ⟨call₁', hc₁, -, hid₁⟩ := Replicator.step_back hi h hnone h₁
    obtain ⟨call₂', hc₂, -, hid₂⟩ := Replicator.step_back hi h hnone h₂
    exact hk.distinct c₁ c₂ call₁' call₂' hc₁ hc₂ (by rw [← hid₁, ← hid₂, heq])

end KeyInv

theorem seededBy_of_reachable {s : Replicator} (hs : Reachable s) : s.idGen.SeededBy (s.id % 2 ^ 16) := by
  induction hs with
  | init store id now => exact newGenerator_seededBy _ now
  | step a _ hstep ih => exact Replicator.step_seededBy ih hstep

/-- Every goroutine holds a key its replicator handed out. -/
theorem Replicator.drawn_of_reachable {s : Replicator} (hs : Reachable s) :
    ∀ c call, s.calls c = some call → s.Drawn call.op call.phase.id := by
  induction hs with
  | init store id now => exact fun _ _ h => by cases h
  | step a hs₀ hstep ih => exact Drawn.step (seededBy_of_reachable hs₀) (slotInv_of_reachable hs₀) hstep ih

theorem Replicator.Drawn.lt {s : Replicator} {op : Op} {id : Nat} (h : s.Drawn op id) : id < 2 ^ 64 := by
  cases op <;> obtain ⟨j, -, rfl⟩ := h <;> omega

/-- Every key fits in a `uint64`: a generator id holds the 16-bit member id above the 48-bit counter, and the
conf-change count is read modulo `2^64`. -/
theorem key_lt_of_reachable {s : Replicator} (hs : Reachable s) :
    s.idGen.SeededBy (s.id % 2 ^ 16) ∧ ∀ c call, s.calls c = some call → call.phase.id < 2 ^ 64 :=
  ⟨seededBy_of_reachable hs, fun c call hc => (Replicator.drawn_of_reachable hs c call hc).lt⟩

theorem keyInv_of_reachable {s : Replicator} (hs : Reachable s) (hm : 0 < s.id % 2 ^ 16)
    (hg : s.idGen.suffix < 2 ^ 48) (hn : s.confChangeCount < 2 ^ 48) : KeyInv s := by
  induction hs with
  | init store id now => exact KeyInv.newReplicator store id now
  | step a hs₀ hstep ih =>
    obtain ⟨hid, hgle, hnle⟩ := Replicator.step_counters hstep
    exact (ih (by rwa [← hid]) (by omega) (by omega)).step (slotInv_of_reachable hs₀) hstep hm hg hn

/-- On a node whose member id `uint16(id)` is not 0, while neither the generator's counter nor `confChangeCount`
has reached `2^48`, the key a goroutine is about to register is not registered: `Register` does not panic. -/
theorem register_key_free {s : Replicator} (hs : Reachable s) (hm : 0 < s.id % 2 ^ 16)
    (hg : s.idGen.suffix < 2 ^ 48) (hn : s.confChangeCount < 2 ^ 48) {c id : Nat} {op : Op}
    {slot : Option InternalNexusResponse} {src : Option Source} (hc : s.calls c = some ⟨op, .drawn id, slot, src⟩) :
    s.waiter id = none := by
  cases hw : s.waiter id with
  | none => rfl
  | some c' =>
    obtain ⟨call', hc', hp, hid, -⟩ := (slotInv_of_reachable hs).waiter_call hw
    have := (keyInv_of_reachable hs hm hg hn).distinct c c' _ call' hc hc' hid.symm
    subst this
    rw [hc] at hc'
    cases hc'
    exact hp.elim

/-- Node 1 has registered its first `AddMember` under the count 1, and a `Save` has drawn the generator id
`2 ^ 48 + 1`: that key is still free. -/
theorem register_key_free_confChange : ∃ s, Reachable s ∧ s.waiter 1 = some 0 ∧
    s.calls 1 = some ⟨.save [7], .drawn (2 ^ 48 + 1), none, none⟩ ∧ s.waiter (2 ^ 48 + 1) = none := by
  obtain ⟨s, hs, hm, hg, hn, hw, hc⟩ : ∃ s, Reachable s ∧ 0 < s.id % 2 ^ 16 ∧ s.idGen.suffix < 2 ^ 48 ∧
      s.confChangeCount < 2 ^ 48 ∧ s.waiter 1 = some 0 ∧ s.calls 1 = some ⟨.save [7], .drawn (2 ^ 48 + 1), none, none⟩ :=
    Reachable.exists_of_run echoStore 1 0
      [.addMember 0 (.ok ⟨2, "http://127.0.0.1:9022"⟩) none, .register 0, .save 1 [7]]
      ⟨_, rfl, by decide, by decide, by decide, by decide, by decide⟩
  exact ⟨s, hs, hw, hc, register_key_free hs hm hg hn hc⟩

/-- Node `65536` (member id `uint16(65536) = 0`) started `2^40` milliseconds after the epoch: its first `Save`
registers the generator id 1, and its first `AddMember` the count 1. -/
def dupKeyTrace : List Action :=
  [.save 0 [7], .register 0, .addMember 1 (.ok ⟨2, "http://127.0.0.1:9022"⟩) none, .register 1]

/-- The second `Register` of key 1 panics. -/
theorem register_dup_panic : ∃ s, Reachable s ∧ s.crash = some (.dupId 1) := by
  have h : ∃ s, (newReplicator echoStore 65536 (2 ^ 40 * 10 ^ 6)).run dupKeyTrace = some s ∧
      s.crash = some (.dupId 1) := ⟨_, rfl, by decide⟩
  exact Reachable.exists_of_run _ _ _ _ h

/-! ### Keys grow in the order goroutines start -/

/-- The keys handed out to goroutines running `op` from `s₀` on, up to `s`: a generator id drawn at a counter
value `s₀` had not reached, or a count `s₀` had not reached. -/
def Replicator.DrawnSince (s₀ s : Replicator) : Op → Nat → Prop
  | .confChange _, id => ∃ j, s₀.confChangeCount ≤ j ∧ j < s.confChangeCount ∧ id = (j + 1) % 2 ^ 64
  | _, id => ∃ j, s₀.idGen.suffix ≤ j ∧ j < s.idGen.suffix ∧ id = s.id % 2 ^ 16 * 2 ^ 48 + (j + 1) % 2 ^ 48

namespace Replicator

variable {s₀ s s' : Replicator}

theorem DrawnSince.mono {op : Op} {id : Nat} (h : s₀.DrawnSince s op id) (hid : s'.id = s.id)
    (hg : s.idGen.suffix ≤ s'.idGen.suffix) (hn : s.confChangeCount ≤ s'.confChangeCount) :
    s₀.DrawnSince s' op id := by
  cases op <;>
  · obtain ⟨j, hj₀, hj, rfl⟩ := h
    exact ⟨j, hj₀, by omega, by simp [hid]⟩

theorem DrawnSince.of_le {s₁ : Replicator} {op : Op} {id : Nat} (h : s₁.DrawnSince s op id)
    (hg : s₀.idGen.suffix ≤ s₁.idGen.suffix) (hn : s₀.confChangeCount ≤ s₁.confChangeCount) :
    s₀.DrawnSince s op id := by
  cases op <;>
  · obtain ⟨j, hj₀, hj, rfl⟩ := h
    exact ⟨j, by omega, hj, rfl⟩

theorem Drawn.gen {op : Op} {id : Nat} (h : s.Drawn op id) (hop : ¬∃ cc, op = .confChange cc) :
    ∃ j, j < s.idGen.suffix ∧ id = s.id % 2 ^ 16 * 2 ^ 48 + (j + 1) % 2 ^ 48 := by
  cases op with
  | confChange cc => exact absurd ⟨cc, rfl⟩ hop
  | save data | load data => exact h

theorem DrawnSince.gen {op : Op} {id : Nat} (h : s₀.DrawnSince s op id) (hop : ¬∃ cc, op = .confChange cc) :
    ∃ j, s₀.idGen.suffix ≤ j ∧ j < s.idGen.suffix ∧ id = s.id % 2 ^ 16 * 2 ^ 48 + (j + 1) % 2 ^ 48 := by
  cases op with
  | confChange cc => exact absurd ⟨cc, rfl⟩ hop
  | save data | load data => exact h

/-- The id a goroutine draws is one handed out from the state it starts in on. -/
theorem drawnSince_drawId (hseed : s.idGen.SeededBy (s.id % 2 ^ 16)) (op : Op) :
    s.DrawnSince { s with idGen := op.nextGen s.idGen, confChangeCount := op.nextCount s.confChangeCount } op
      (s.drawId op) := by
  cases op with
  | confChange cc => exact ⟨s.confChangeCount, le_rfl, Nat.lt_succ_self _, rfl⟩
  | save data | load data => exact ⟨s.idGen.suffix, le_rfl, Nat.lt_succ_self _, Generator.next_eq hseed⟩

/-- Runs keep the member id and never move the counters back. -/
theorem run_counters {as : List Action} (h : s.run as = some s') :
    s'.id = s.id ∧ s.idGen.suffix ≤ s'.idGen.suffix ∧ s.confChangeCount ≤ s'.confChangeCount := by
  induction as generalizing s with
  | nil => cases h; exact ⟨rfl, le_rfl, le_rfl⟩
  | cons a as ih =>
    obtain ⟨t, h₁, h⟩ := Option.bind_eq_some.1 h
    obtain ⟨hid₁, hg₁, hn₁⟩ := step_counters h₁
    obtain ⟨hid, hg, hn⟩ := ih h
    exact ⟨hid.trans hid₁, hg₁.trans hg, hn₁.trans hn⟩

/-- Along a run of a reachable replicator every goroutine keeps its operation and its key. -/
theorem run_evolves (hs : Reachable s) {as : List Action} (h : s.run as = some s') (c : Nat) :
    Call.Evolves (s.calls c) (s'.calls c) := by
  induction as generalizing s with
  | nil => cases h; exact .refl _
  | cons a as ih =>
    obtain ⟨t, h₁, h⟩ := Option.bind_eq_some.1 h
    exact ((slotInv_of_reachable hs).step_evolves h₁ c).trans (ih (hs.step a h₁) h)

/-- A goroutine that starts along a run of a reachable replicator holds a key handed out along the run. -/
theorem run_fresh_drawn (hs : Reachable s) {as : List Action} (h : s.run as = some s') {c : Nat}
    (hnew : s.calls c = none) {call' : Call} (hc' : s'.calls c = some call') :
    s.DrawnSince s' call'.op call'.phase.id := by
  induction as generalizing s with
  | nil => cases h; rw [hnew] at hc'; cases hc'
  | cons a as ih =>
    obtain ⟨t, h₁, h⟩ := Option.bind_eq_some.1 h
    obtain ⟨-, hg₁, hn₁⟩ := step_counters h₁
    cases htc : t.calls c with
    | none => exact (ih (hs.step a h₁) h htc).of_le hg₁ hn₁
    | some callt =>
      -- goroutine `c` starts in this step, and keeps its key along the rest of the run
      rcases step_spawn h₁ with ⟨-, c₀, op, hsp⟩ | ⟨-, -, -, hnone⟩
      · obtain ⟨-, rfl⟩ := spawn_some hsp
        dsimp only at htc
        have hcc : c = c₀ := by_contra fun hne => by
          rw [Function.update_noteq hne, hnew] at htc
          cases htc
        subst hcc
        have hev := run_evolves (hs.step a h₁) h c
        dsimp only at hev
        rw [Function.update_same, hc'] at hev
        obtain ⟨hid, hg, hn⟩ := run_counters h
        rw [hev.1, hev.2.1]
        exact (drawnSince_drawId (seededBy_of_reachable hs) op).mono hid hg hn
      · rw [hnone c hnew] at htc
        cases htc

end Replicator

/-- Keys grow in the order goroutines start: while neither counter has reached `2^48`, a goroutine that starts
after the state `s` holds a larger key than every goroutine of `s` of its kind. The ids of `Save` and `Load`
come from the generator, whose counter only grows, and the IDs of configuration changes from
`confChangeCount`, which only grows. -/
theorem keys_increase {s s' : Replicator} (hs : Reachable s) {as : List Action} (hrun : s.run as = some s')
    (hg : s'.idGen.suffix < 2 ^ 48) (hn : s'.confChangeCount < 2 ^ 48) {c c' : Nat} {call call' : Call}
    (hc : s.calls c = some call) (hnew : s.calls c' = none) (hc' : s'.calls c' = some call')
    (hkind : (∃ cc, call.op = .confChange cc) ↔ ∃ cc, call'.op = .confChange cc) :
    call.phase.id < call'.phase.id := by
  have hold := Replicator.drawn_of_reachable hs c call hc
  have hfresh := Replicator.run_fresh_drawn hs hrun hnew hc'
  obtain ⟨hid, -, -⟩ := Replicator.run_counters hrun
  by_cases hconf : ∃ cc, call.op = .confChange cc
  · -- two configuration changes: counts of `confChangeCount`
    obtain ⟨cc, hop⟩ := hconf
    obtain ⟨cc', hop'⟩ := hkind.1 ⟨cc, hop⟩
    rw [hop] at hold
    rw [hop'] at hfresh
    obtain ⟨j, hj, hid₀⟩ := hold
    obtain ⟨j', hj₀, hj', hid'⟩ := hfresh
    omega
  · -- two generator ids
    obtain ⟨j, hj, hid₀⟩ := hold.gen hconf
    obtain ⟨j', hj₀, hj', hid'⟩ := hfresh.gen fun h => hconf (hkind.2 h)
    rw [hid] at hid'
    omega

/-- A `Load` that starts after a `Save` holds the next generator id. -/
theorem keys_increase_saveLoad : ∃ (s s' : Replicator) (call call' : Call), Reachable s ∧
    s.run [.load 1 [7]] = some s' ∧ s.calls 0 = some call ∧ s.calls 1 = none ∧ s'.calls 1 = some call' ∧
    call.phase.id < call'.phase.id := by
  obtain ⟨s, hs, s', hrun, hg, hn, hc, hnew, hc'⟩ : ∃ s, Reachable s ∧ ∃ s',
      s.run [.load 1 [7]] = some s' ∧ s'.idGen.suffix < 2 ^ 48 ∧ s'.confChangeCount < 2 ^ 48 ∧
      s.calls 0 = some ⟨.save [7], .drawn (2 ^ 48 + 1), none, none⟩ ∧ s.calls 1 = none ∧
      (s'.calls 1).map Call.op = some (.load [7]) :=
    Reachable.exists_of_run echoStore 1 0 [.save 0 [7]]
      ⟨_, rfl, _, rfl, by decide, by decide, by decide, rfl, by decide⟩
  obtain ⟨call', hc', hop'⟩ := Option.map_eq_some'.1 hc'
  exact ⟨s, s', _, call', hs, hrun, hc, hnew, hc', keys_increase hs hrun hg hn hc hnew hc' (by simp [hop'])⟩

end Nexus
