import Nexus.Replicator.Slots

/-!
# Who filled a slot

A value reaches a goroutine's slot from `readCommits` applying an entry, from `readReadStates` taking a read
state, or from a goroutine's own error trigger; `Call.source` records which.  `AnswerInv` says what each
source guarantees, in every reachable state (`answerInv_of_reachable`):

* an entry was taken from the commit stream, its decoded id (`Entry.key`) is the key the slot was registered
  under, and the value is what the store answered for it (`Entry.Answers`);
* a read state was taken, its context decodes to the key, and the value is its index;
* an own error came from a goroutine holding the same key, which returned with it.

It also ties what a goroutine took to its slot (`Call.TookOk`), the phases after an accepted request to that
request (`Phase.Proposed`), and what `readCommits` is about to hand the waiter to the entry it took last
(`ApplierOk`).  Nothing here says that the key is the goroutine's own request's: keys are local to a node
and may repeat.  `Nexus.Routing` adds what the cluster needs for that.
-/

namespace Nexus

/-- The waiter key `readCommits` triggers for a non-empty entry: the decoded envelope's `ID`, or the decoded
conf change's `ID`. -/
def Entry.key (e : Entry) : Option Nat :=
  match e.type with
  | .entryNormal => (unmarshalRequest e.data).map NexusInternalRequest.id
  | .entryConfChange => (unmarshalConfChange e.data).map ConfChange.id

/-- `v` is what `readCommits` hands the waiter for `e`, given the store calls made: for an `EntryNormal` the
result of `store.Save` for its decoded payload, for an `EntryConfChange` its bytes. -/
def Entry.Answers (e : Entry) (log : List StoreCall) (v : InternalNexusResponse) : Prop :=
  match e.type with
  | .entryNormal => ∃ r, unmarshalRequest e.data = some r ∧ StoreCall.save ⟨e.index, e.term⟩ r.req v.res v.err ∈ log
  | .entryConfChange => v = ⟨e.data, none⟩

/-- The returns right after a goroutine triggered its own slot: with the engine's error, or at the
deadline. -/
def Phase.OwnExit : Phase → Prop
  | .returned _ _ _ .proposeError | .returned _ _ _ .timeout => True
  | _ => False

/-- The phases a goroutine reaches only once the engine took its request. -/
def Phase.Proposed : Phase → Prop
  | .waiting _ | .applyWaiting .. => True
  | .returned _ _ _ x => x ≠ .proposeError
  | _ => False

/-- What the one who filled a slot registered under `id` guarantees in `s`. -/
def SourceOk (s : Replicator) (id : Nat) (slot : Option InternalNexusResponse) : Option Source → Prop
  | none => True
  | some (.entry e) => Commit.entry e ∈ s.commits ∧ e.key = some id ∧ ∃ v, slot = some v ∧ e.Answers s.storeLog v
  | some (.readState rd) => rd ∈ s.readStates ∧ uint64 rd.requestCtx = some id ∧
      slot = some ⟨putUint64 rd.index, none⟩
  | some .own => ∃ c call, s.calls c = some call ∧ call.phase.id = id ∧ call.phase.OwnExit

/-- What a goroutine took from its slot: `Save` returns it, `proposeConfigChange` returns its error, `Load`
waits for the index it decodes. -/
def Call.TookOk (call : Call) : Prop :=
  match call.op, call.phase with
  | .save _, .returned _ res err .received => call.slot = some ⟨res, err⟩
  | .confChange _, .returned _ _ err .received => ∃ res, call.slot = some ⟨res, err⟩
  | .load _, .applyWaiting _ index _ => ∃ res, call.slot = some ⟨res, none⟩ ∧ uint64 res = some index
  | _, _ => True

/-- What `readCommits` is about to hand on comes from the entry it took last. -/
def ApplierOk (s : Replicator) : Applier → Prop
  | .save e r => Commit.entry e ∈ s.commits ∧ e.type = .entryNormal ∧ unmarshalRequest e.data = some r
  | .reply id v e => Commit.entry e ∈ s.commits ∧ e.key = some id ∧ e.Answers s.storeLog v
  | _ => True

/-- One goroutine's part of the invariant: its slot's source, what it took, and its request. -/
def CallAnswered (s : Replicator) (c : Nat) (call : Call) : Prop :=
  SourceOk s call.phase.id call.slot call.source ∧ call.TookOk ∧
    (call.phase.Proposed → (c, call.op.request call.phase.id) ∈ s.requests)

/-- The answer invariant. -/
structure AnswerInv (s : Replicator) : Prop where
  calls : ∀ c call, s.calls c = some call → CallAnswered s c call
  applier : ApplierOk s s.applier

/-- `s'` keeps what `s` recorded: the four histories only grow, and every goroutine evolves. -/
structure Replicator.Keeps (s s' : Replicator) : Prop where
  commits : s.commits <+: s'.commits
  readStates : s.readStates <+: s'.readStates
  storeLog : s.storeLog <+: s'.storeLog
  requests : s.requests <+: s'.requests
  calls : ∀ c, Call.Evolves (s.calls c) (s'.calls c)

theorem prefix_of_eq_or_append {α : Type} {l l' more : List α} (h : l' = l ∨ l' = l ++ more) : l <+: l' := by
  rcases h with rfl | rfl
  · exact List.prefix_rfl
  · exact List.prefix_append _ _

theorem Replicator.Keeps.step {s s' : Replicator} (hi : SlotInv s) {a : Action} (h : s.step a = some s') :
    s.Keeps s' :=
  let hl := Replicator.step_logs h
  ⟨prefix_of_eq_or_append hl.commits, prefix_of_eq_or_append hl.readStates, hl.storeLog, hl.requests_prefix,
    hi.step_evolves h⟩

theorem Phase.OwnExit.returned {p : Phase} (h : p.OwnExit) : p.Returned := by
  cases p <;> trivial

/-! ### What a goroutine took -/

theorem Call.tookOk_of_pending {call : Call} (hp : call.phase.Pending) : call.TookOk := by
  obtain ⟨op, phase, slot, src⟩ := call
  cases phase <;> cases op <;> trivial

theorem Call.tookOk_of_ownExit {call : Call} (hp : call.phase.OwnExit) : call.TookOk := by
  obtain ⟨op, phase, slot, src⟩ := call
  rcases phase with _ | _ | _ | _ | ⟨_, _, _, _ | _ | _ | _ | _⟩ <;> cases op <;> trivial

theorem Call.tookOk_release (d : Nat) {call : Call} (h : call.TookOk) : (call.release d).TookOk := by
  obtain ⟨op, phase, slot, src⟩ := call
  unfold Call.release
  split <;> (try split) <;> subst_vars <;> (try cases op) <;> exact h

theorem Phase.proposed_release (d : Nat) (call : Call) : (call.release d).phase.Proposed ↔ call.phase.Proposed := by
  rcases call.release_phase d with h | ⟨_, _, h, h'⟩ <;> simp_all [Phase.Proposed]

/-! ### Monotonicity: what was recorded stays recorded -/

section Mono

variable {s s' : Replicator} (hk : s.Keeps s')
include hk

theorem Entry.Answers.mono {e : Entry} {v : InternalNexusResponse} (h : e.Answers s.storeLog v) :
    e.Answers s'.storeLog v := by
  unfold Entry.Answers at *
  cases ht : e.type <;> rw [ht] at h
  · obtain ⟨r, hr, hmem⟩ := h
    exact ⟨r, hr, hk.storeLog.subset hmem⟩
  · exact h

theorem SourceOk.mono {id : Nat} {slot : Option InternalNexusResponse} :
    ∀ {src : Option Source}, SourceOk s id slot src → SourceOk s' id slot src
  | none, _ => trivial
  | some (.entry _), ⟨hc, hkey, v, hv, ha⟩ => ⟨hk.commits.subset hc, hkey, v, hv, Entry.Answers.mono hk ha⟩
  | some (.readState _), ⟨hr, hu, hv⟩ => ⟨hk.readStates.subset hr, hu, hv⟩
  | some .own, ⟨c, call, hc, hid, hx⟩ => by
    have hev := hk.calls c
    rw [hc] at hev
    rcases hc' : s'.calls c with _ | call'
    · rw [hc'] at hev; exact hev.elim
    · rw [hc'] at hev
      have hph := hev.2.2.2 hx.returned
      exact ⟨c, call', hc', by rw [hev.2.1, hid], by rw [hph]; exact hx⟩

theorem CallAnswered.mono {c : Nat} {call : Call} (h : CallAnswered s c call) : CallAnswered s' c call :=
  ⟨SourceOk.mono hk h.1, h.2.1, fun hp => hk.requests.subset (h.2.2 hp)⟩

theorem ApplierOk.mono : ∀ {ap : Applier}, ApplierOk s ap → ApplierOk s' ap
  | .save _ _, ⟨hc, ht, hr⟩ => ⟨hk.commits.subset hc, ht, hr⟩
  | .reply _ _ _, ⟨hc, hkey, ha⟩ => ⟨hk.commits.subset hc, hkey, Entry.Answers.mono hk ha⟩
  | .idle, _ | .restore _, _ | .advance _, _ | .closed, _ => trivial

/-- A pending goroutine whose slot is filled with an answer that holds in `s'`. -/
theorem CallAnswered.fill {c : Nat} {call : Call} (h : CallAnswered s c call) (hp : call.phase.Pending)
    {v : InternalNexusResponse} {src : Source} (hsrc : SourceOk s' call.phase.id (some v) (some src)) :
    CallAnswered s' c { call with slot := some v, source := some src } :=
  ⟨hsrc, Call.tookOk_of_pending hp, fun hpr => hk.requests.subset (h.2.2 hpr)⟩

/-- A goroutine that moves to the phase `p` with its slot as it was. -/
theorem CallAnswered.move {c : Nat} {call : Call} (h : CallAnswered s c call) {p : Phase}
    (hid : p.id = call.phase.id) (htook : { call with phase := p }.TookOk)
    (hreq : p.Proposed → (c, call.op.request call.phase.id) ∈ s'.requests) :
    CallAnswered s' c { call with phase := p } :=
  ⟨by rw [hid]; exact SourceOk.mono hk h.1, htook, fun hp => by rw [hid]; exact hreq hp⟩

/-- The invariant after a step that keeps what was recorded, from what holds of the goroutines it changed. -/
theorem AnswerInv.of_keeps (hi : AnswerInv s)
    (hcalls : ∀ c call', s'.calls c = some call' → s.calls c = some call' ∨ CallAnswered s' c call')
    (hap : ApplierOk s' s'.applier) : AnswerInv s' :=
  ⟨fun c call' hc => (hcalls c call' hc).elim (fun h => (hi.calls c call' h).mono hk) id, hap⟩

end Mono

/-! ### The invariant holds in every reachable state -/

theorem AnswerInv.newReplicator (store : Store) (id now : Nat) : AnswerInv (newReplicator store id now) :=
  ⟨fun _ _ h => (by cases h), trivial⟩

/-- A trigger fills at most one slot: the empty slot of the pending goroutine registered under the key. -/
theorem SlotInv.trigger_filled {s s' : Replicator} (hi : SlotInv s) {id : Nat} {v : InternalNexusResponse}
    {src : Source} (h : s.trigger id v src = some s') {c : Nat} {call' : Call} (hc : s'.calls c = some call') :
    s.calls c = some call' ∨ ∃ call, s.calls c = some call ∧ call.phase.Pending ∧ call.phase.id = id ∧
      call' = { call with slot := some v, source := some src } := by
  rcases Replicator.trigger_some h with ⟨-, rfl⟩ | ⟨_, -, -, rfl⟩ | ⟨c₀, call₀, hw, hc₀, -, rfl⟩
  · exact .inl hc
  · exact .inl hc
  · obtain ⟨_, hc', hp, hid, -⟩ := hi.waiter_call hw
    rw [hc₀] at hc'; cases hc'
    by_cases hcc : c = c₀
    · subst hcc
      simp only [Function.update_same, Option.some.injEq] at hc
      exact .inr ⟨call₀, hc₀, hp, hid, hc.symm⟩
    · simp only [ne_eq, hcc, not_false_eq_true, Function.update_noteq] at hc
      exact .inl hc

section Step

variable {s s' : Replicator}

/-- After a trigger whose answer holds in the final state `s'`, every goroutine is as it was or answered. -/
theorem AnswerInv.trigger_calls (hi : AnswerInv s) (hsl : SlotInv s) (hk : s.Keeps s') {s₁ : Replicator}
    {id : Nat} {v : InternalNexusResponse} {src : Source} (h : s.trigger id v src = some s₁)
    (hsrc : SourceOk s' id (some v) (some src)) {c : Nat} {call' : Call} (hc : s₁.calls c = some call') :
    s.calls c = some call' ∨ CallAnswered s' c call' := by
  rcases hsl.trigger_filled h hc with h₀ | ⟨call, hc₀, hp, hid, rfl⟩
  · exact .inl h₀
  · exact .inr ((hi.calls c call hc₀).fill hk hp (by rw [hid]; exact hsrc))

/-- A goroutine triggers its own key with an error and returns with it (`propose`'s error branch, or the
deadline while waiting on the slot). -/
theorem AnswerInv.ownReturn (hi : AnswerInv s) (hsl : SlotInv s) (hk : s.Keeps s') {c id : Nat} {call : Call}
    (hc : s.calls c = some call) (hp : call.phase.Pending) (hid : call.phase.id = id) {e : Error} {x : Exit}
    {s₁ : Replicator} (h₁ : s.trigger id ⟨[], some e⟩ .own = some s₁)
    (hx : (Phase.returned id [] (some e) x).OwnExit) (hreq : x ≠ .proposeError → call.phase.Proposed)
    (hs' : s' = s₁.setPhase c (.returned id [] (some e) x)) : AnswerInv s' := by
  obtain ⟨call₁, hc₁, hop₁, hph₁, -⟩ := hsl.trigger_own hc hp hid h₁
  have hcalls : s'.calls = Function.update s₁.calls c (some { call₁ with phase := .returned id [] (some e) x }) := by
    rw [hs']; simp [Replicator.setPhase, hc₁]
  have hsrc : SourceOk s' id (some ⟨[], some e⟩) (some .own) :=
    ⟨c, { call₁ with phase := .returned id [] (some e) x }, by rw [hcalls]; simp, rfl, hx⟩
  have hap : s'.applier = s.applier := by
    obtain ⟨_, _, rfl⟩ := Replicator.trigger_frame h₁; rw [hs']; rfl
  refine hi.of_keeps hk (fun c' call' hc' => ?_) (by rw [hap]; exact ApplierOk.mono hk hi.applier)
  rcases eq_or_ne c' c with rfl | hcc
  · rw [hcalls, Function.update_same, Option.some.injEq] at hc'
    subst hc'
    refine .inr ⟨?_, Call.tookOk_of_ownExit hx, fun hpr => ?_⟩
    · -- its slot was filled before, or by its own trigger
      show SourceOk s' id call₁.slot call₁.source
      rcases hi.trigger_calls hsl hk h₁ hsrc hc₁ with h₀ | h₀
      · rw [hc] at h₀; cases h₀
        rw [← hid]; exact SourceOk.mono hk (hi.calls _ _ hc).1
      · have := h₀.1; rwa [hph₁, hid] at this
    · show (c', call₁.op.request id) ∈ s'.requests
      rw [hop₁, ← hid]; exact hk.requests.subset ((hi.calls _ _ hc).2.2 (hreq hpr))
  · rw [hcalls, Function.update_noteq hcc] at hc'
    exact hi.trigger_calls hsl hk h₁ hsrc hc'

/-- `applyWait.Trigger` only flags released `Load`s. -/
theorem CallAnswered.release (hk : s.Keeps s') {c : Nat} {call : Call} (h : CallAnswered s c call) (d : Nat) :
    CallAnswered s' c (call.release d) := by
  refine ⟨?_, Call.tookOk_release d h.2.1, fun hp => ?_⟩
  · simpa only [Call.release_phase_id, Call.release_slot, Call.release_source] using SourceOk.mono hk h.1
  · rw [Call.release_op, Call.release_phase_id]
    exact hk.requests.subset (h.2.2 ((Phase.proposed_release d call).1 hp))

/-- A trigger does not read the read states taken. -/
theorem Replicator.trigger_readStates (l : List ReadState) {id : Nat} {v : InternalNexusResponse} {src : Source} :
    ({ s with readStates := l } : Replicator).trigger id v src =
      (s.trigger id v src).map fun s₁ => { s₁ with readStates := l } := by
  unfold Replicator.trigger
  dsimp only
  cases s.waiter id with
  | none => rfl
  | some c =>
    dsimp only
    cases s.calls c with
    | none => rfl
    | some call => by_cases h : call.slot.isSome <;> simp [h]

/-- The answer invariant holds after every step. -/
theorem AnswerInv.step (hi : AnswerInv s) (hsl : SlotInv s) {a : Action} (h : s.step a = some s') :
    AnswerInv s' := by
  have hk := Replicator.Keeps.step hsl h
  have hap := ApplierOk.mono hk hi.applier
  obtain ⟨-, h⟩ := Replicator.step_some h
  -- no goroutine changes
  have hframe : s'.calls = s.calls → ApplierOk s' s'.applier → AnswerInv s' := fun hc ha =>
    hi.of_keeps hk (fun _ _ h' => .inl (hc ▸ h')) ha
  -- only the goroutine `c` changes, to `call'`
  have hone : ∀ {c : Nat} {call' : Call}, s'.calls = Function.update s.calls c (some call') →
      CallAnswered s' c call' → ApplierOk s' s'.applier → AnswerInv s' := fun {c _} hc hca ha =>
    hi.of_keeps hk (fun c'' call'' h' => by
      rw [hc] at h'
      rcases eq_or_ne c'' c with rfl | hne
      · rw [Function.update_same, Option.some.injEq] at h'; subst h'; exact .inr hca
      · rw [Function.update_noteq hne] at h'; exact .inl h') ha
  -- the goroutine `c` moves to the phase `p`, its slot as it was
  have hmove : ∀ {c : Nat} {call : Call} {p : Phase}, s.calls c = some call →
      s'.calls = Function.update s.calls c (some { call with phase := p }) → p.id = call.phase.id →
      { call with phase := p }.TookOk → (p.Proposed → (c, call.op.request call.phase.id) ∈ s'.requests) →
      ApplierOk s' s'.applier → AnswerInv s' := fun hc hcs hid htook hreq =>
    hone hcs ((hi.calls _ _ hc).move hk hid htook hreq)
  have hspawn : ∀ c op, s.spawn c op = some s' → AnswerInv s' := fun c op h => by
    obtain ⟨-, rfl⟩ := Replicator.spawn_some h
    exact hone rfl ⟨trivial, by cases op <;> trivial, nofun⟩ hap
  cases a with
  | save c data => exact hspawn c (.save data) h
  | load c data => exact hspawn c (.load data) h
  | addMember c opts dial =>
    simp only [Replicator.act] at h
    split at h
    · exact hspawn c _ h
    · cases h; exact hi
  | removeMember c opts =>
    simp only [Replicator.act] at h
    split at h
    · exact hspawn c _ h
    · cases h; exact hi
  | register c =>
    obtain ⟨op, id, slot, src, hc, ⟨-, rfl⟩ | ⟨-, rfl⟩⟩ := Replicator.register_some h
    · exact hframe rfl hap
    · exact hmove hc rfl rfl (by cases op <;> trivial) nofun hap
  | propose c err =>
    obtain ⟨op, id, slot, src, hc, ⟨-, rfl⟩ | ⟨e, s₁, -, h₁, rfl⟩⟩ := Replicator.propose_some h
    · exact hmove hc rfl rfl (by cases op <;> trivial) (fun _ => List.mem_append_right _ (List.mem_singleton_self _))
        hap
    · exact hi.ownReturn hsl hk hc trivial rfl h₁ (by trivial) (fun h => absurd rfl h) rfl
  | receive c =>
    obtain ⟨op, id, v, src, hc, hcases⟩ := Replicator.receive_some h
    have hreq : (c, op.request id) ∈ s.requests := (hi.calls _ _ hc).2.2 trivial
    rcases hcases with ⟨_, rfl, rfl⟩ | ⟨_, rfl, rfl⟩ | ⟨_, _, rfl, -, rfl⟩ | ⟨_, rfl, -, -, rfl⟩ |
      ⟨_, index, rfl, herr, hidx, rfl⟩
    · exact hmove hc (Replicator.setPhase_calls_of hc _) rfl rfl (fun _ => hreq) hap
    · exact hmove hc (Replicator.setPhase_calls_of hc _) rfl ⟨v.res, rfl⟩ (fun _ => hreq) hap
    · exact hmove hc (Replicator.setPhase_calls_of hc _) rfl trivial (fun _ => hreq) hap
    · exact hframe rfl hap
    · refine hmove hc (Replicator.setPhase_calls_of hc _) rfl ⟨v.res, ?_, hidx⟩ (fun _ => hreq) hap
      obtain ⟨res, err⟩ := v
      simp_all
  | timeout c e =>
    rcases Replicator.timeout_some h with ⟨op, id, slot, src, s₁, hc, h₁, rfl⟩ |
      ⟨op, id, index, ready, slot, src, hc, rfl⟩
    · exact hi.ownReturn hsl hk hc trivial rfl h₁ (by trivial) (fun _ => trivial) rfl
    · exact hmove hc (Replicator.setPhase_calls_of hc _) rfl (by cases op <;> trivial)
        (fun _ => (hi.calls _ _ hc).2.2 trivial) hap
  | loadStore c =>
    obtain ⟨data, id, index, slot, src, hc, rfl⟩ := Replicator.loadStore_some h
    exact hmove hc (Replicator.setPhase_calls_of hc _) rfl trivial
      (fun _ => hk.requests.subset ((hi.calls _ _ hc).2.2 trivial)) hap
  | applySentinel snap =>
    obtain ⟨-, ⟨-, rfl⟩ | ⟨_, -, rfl⟩ | ⟨_, -, rfl⟩⟩ := Replicator.applySentinel_some h
    · exact hframe rfl hap
    · exact hframe rfl hap
    · exact hframe rfl trivial
  | applyRestore =>
    obtain ⟨_, -, ⟨-, rfl⟩ | ⟨_, -, rfl⟩⟩ := Replicator.applyRestore_some h <;> exact hframe rfl trivial
  | applyEntry e =>
    obtain ⟨-, ⟨-, rfl⟩ | ⟨-, -, rfl⟩ | ⟨r, -, ht, hr, rfl⟩ | ⟨cc, -, ht, hcc, rfl⟩⟩ := Replicator.applyEntry_some h
    · exact hframe rfl trivial
    · exact hframe rfl hap
    · exact hframe rfl ⟨List.mem_append_right _ (List.mem_singleton_self _), ht, hr⟩
    · exact hframe rfl ⟨List.mem_append_right _ (List.mem_singleton_self _), by simp [Entry.key, ht, hcc],
        by simp [Entry.Answers, ht]⟩
  | applySave =>
    obtain ⟨e, r, hsave, rfl⟩ := Replicator.applySave_some h
    have hok := hi.applier
    rw [hsave] at hok
    obtain ⟨hc, ht, hr⟩ := hok
    exact hframe rfl ⟨hk.commits.subset hc, by simp [Entry.key, ht, hr],
      by simp only [Entry.Answers, ht]; exact ⟨r, hr, List.mem_append_right _ (List.mem_singleton_self _)⟩⟩
  | applyReply =>
    obtain ⟨id, v, e, s₁, hreply, h₁, rfl⟩ := Replicator.applyReply_some h
    have hok := hi.applier
    rw [hreply] at hok
    obtain ⟨hc, hkey, ha⟩ := hok
    exact hi.of_keeps hk (fun _ _ h' => hi.trigger_calls hsl hk h₁ ⟨hk.commits.subset hc, hkey, v, rfl,
      Entry.Answers.mono hk ha⟩ h') trivial
  | applyAdvance =>
    obtain ⟨d, -, rfl⟩ := Replicator.applyAdvance_some h
    refine hi.of_keeps hk (fun c call' h' => .inr ?_) trivial
    obtain ⟨call, hc, rfl⟩ := Option.map_eq_some'.1 h'
    exact (hi.calls c call hc).release hk d
  | closeCommits err =>
    obtain ⟨-, ⟨-, rfl⟩ | ⟨_, -, rfl⟩⟩ := Replicator.closeCommits_some h
    · exact hframe rfl trivial
    · exact hframe rfl hap
  | readState rd =>
    rcases Replicator.readState_some h with ⟨-, rfl⟩ | ⟨id, hid, h₁⟩
    · exact hframe rfl hap
    · rw [Replicator.trigger_readStates] at h₁
      obtain ⟨s₁, h₂, rfl⟩ := Option.map_eq_some'.1 h₁
      obtain ⟨_, _, rfl⟩ := Replicator.trigger_frame h₂
      exact hi.of_keeps hk (fun _ _ h' => hi.trigger_calls hsl hk h₂
        ⟨List.mem_append_right _ (List.mem_singleton_self _), hid, rfl⟩ h') hap

theorem answerInv_of_reachable {s : Replicator} (hs : Reachable s) : AnswerInv s := by
  induction hs with
  | init store id now => exact AnswerInv.newReplicator store id now
  | step a hs₀ hstep ih => exact ih.step (slotInv_of_reachable hs₀) hstep

end Step

end Nexus
