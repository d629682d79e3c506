import Nexus.Replicator.Step

/-!
# What `readCommits` does to the store and to the apply cursor

`readCommits` is the one goroutine that writes to the store.  The reference `applyRef` says which
`store.Save` and `store.Restore` calls a prefix of the commit stream asks for; `ApplyInv.calls_ref` says
that the calls made so far, followed by the one `readCommits` is about to make, are exactly those, whatever
the clients do (`apply_calls_ref`).  The apply cursor is the index of the last entry `readCommits` took, 0
before any (`CursorOk`): a sentinel and its `store.Restore` leave it where it was (`sentinel_keeps_cursor`),
so after a restart from a snapshot it starts again from 0 (`restore_leaves_cursor_zero`).

When the entries come in increasing index order, the cursor never goes back, it moves to an entry only once
that entry's `store.Save` returned, and a `Load` that waited for index `i` calls the store after every `Save`
of an entry up to `i` and before every `Save` of a later one (`LoadInv`, `apply_cursor_ordered`).
-/

namespace Nexus

/-! ### The reference -/

/-- A store call of `readCommits`, without its result. -/
inductive ApplyCall
  | save (e : RaftEntry) (data : Bytes)
  | restore (data : Bytes)
  deriving DecidableEq, Repr

/-- The call as `readCommits` made it; `none` for a `Load`'s. -/
def StoreCall.applyCall : StoreCall → Option ApplyCall
  | .save e data _ _ => some (.save e data)
  | .restore data _ => some (.restore data)
  | .load .. => none

/-- The store calls one element of the commit stream asks for: a snapshot is restored, a non-empty
`EntryNormal` saves its envelope's payload, and nothing else calls the store. -/
def applyOne : Commit → List ApplyCall
  | .sentinel (.ok data) => [.restore data]
  | .sentinel _ => []
  | .entry e =>
    if e.data ≠ [] ∧ e.type = .entryNormal then
      match unmarshalRequest e.data with
      | some r => [.save ⟨e.index, e.term⟩ r.req]
      | none => []
    else []

/-- The store calls a prefix of the commit stream asks for, in order. -/
def applyRef (p : List Commit) : List ApplyCall := p.flatMap applyOne

/-- The store call `readCommits` is about to make. -/
def Applier.pending : Applier → List ApplyCall
  | .restore data => [.restore data]
  | .save e r => [.save ⟨e.index, e.term⟩ r.req]
  | _ => []

@[simp] theorem applyRef_nil : applyRef [] = [] := rfl

@[simp] theorem applyRef_append (p q : List Commit) : applyRef (p ++ q) = applyRef p ++ applyRef q :=
  List.flatMap_append _ _ _

@[simp] theorem applyRef_singleton (x : Commit) : applyRef [x] = applyOne x := by
  simp [applyRef]

theorem applyOne_normal {e : Entry} {r : NexusInternalRequest} (hne : e.data ≠ []) (ht : e.type = .entryNormal)
    (hr : unmarshalRequest e.data = some r) : applyOne (.entry e) = [.save ⟨e.index, e.term⟩ r.req] := by
  simp [applyOne, hne, ht, hr]

theorem applyOne_of_not_normal {e : Entry} (h : e.data = [] ∨ e.type = .entryConfChange) :
    applyOne (.entry e) = [] := by
  rcases h with h | h <;> simp [applyOne, h]

/-- A `Save` among the calls `readCommits` made was made with some result. -/
theorem exists_save_of_mem {log : List StoreCall} {re : RaftEntry} {data : Bytes}
    (h : ApplyCall.save re data ∈ log.filterMap StoreCall.applyCall) : ∃ res err, .save re data res err ∈ log := by
  obtain ⟨x, hx, hcall⟩ := List.mem_filterMap.1 h
  cases x <;> simp only [StoreCall.applyCall, Option.some.injEq, ApplyCall.save.injEq, reduceCtorEq] at hcall
  obtain ⟨rfl, rfl⟩ := hcall
  exact ⟨_, _, hx⟩

/-! ### The apply cursor -/

/-- The index of the last entry of `cs`, `d` if it has none. -/
def lastIndex (d : Nat) : List Commit → Nat
  | [] => d
  | .sentinel _ :: cs => lastIndex d cs
  | .entry e :: cs => lastIndex e.index cs

/-- The cursor the commits taken so far call for: the index of the last entry, 0 before any. -/
def cursorRef (cs : List Commit) : Nat := lastIndex 0 cs

theorem lastIndex_append (d : Nat) (cs more : List Commit) :
    lastIndex d (cs ++ more) = lastIndex (lastIndex d cs) more := by
  induction cs generalizing d with
  | nil => rfl
  | cons c cs ih => cases c <;> exact ih _

@[simp] theorem cursorRef_nil : cursorRef [] = 0 := rfl

@[simp] theorem cursorRef_append_entry (cs : List Commit) (e : Entry) : cursorRef (cs ++ [.entry e]) = e.index := by
  simp [cursorRef, lastIndex_append, lastIndex]

@[simp] theorem cursorRef_append_sentinel (cs : List Commit) (snap : DBSnapshot) :
    cursorRef (cs ++ [.sentinel snap]) = cursorRef cs := by
  simp [cursorRef, lastIndex_append, lastIndex]

/-- Where the cursor stands for what `readCommits` is doing: in the middle of an entry it is still where the
entries before it left it, otherwise it is at the last entry taken. -/
def CursorOk : Applier → List Commit → Nat → Prop
  | .save e _, cs, w | .reply _ _ e, cs, w => ∃ pre, cs = pre ++ [.entry e] ∧ w = cursorRef pre
  | .advance i, cs, w => ∃ pre e, cs = pre ++ [.entry e] ∧ e.index = i ∧ w = cursorRef pre
  | _, cs, w => w = cursorRef cs

/-- The invariant of `readCommits`: its store calls and its cursor are the ones the commits call for. -/
structure ApplyInv (s : Replicator) : Prop where
  calls_ref : s.storeLog.filterMap StoreCall.applyCall ++ s.applier.pending = applyRef s.commits
  cursor : CursorOk s.applier s.commits s.applyWait

namespace ApplyInv

variable {s s' : Replicator}

theorem newReplicator (store : Store) (id now : Nat) : ApplyInv (newReplicator store id now) :=
  ⟨rfl, rfl⟩

theorem congr (hi : ApplyInv s) (hlog : s'.storeLog = s.storeLog) (hap : s'.applier = s.applier)
    (hcs : s'.commits = s.commits) (hw : s'.applyWait = s.applyWait) : ApplyInv s' :=
  ⟨by rw [hlog, hap, hcs]; exact hi.calls_ref, by rw [hap, hcs, hw]; exact hi.cursor⟩

/-- With `readCommits` between two elements, the cursor is at the last entry taken. -/
theorem cursor_idle (hi : ApplyInv s) (h : s.applier = .idle) : s.applyWait = cursorRef s.commits := by
  have := hi.cursor
  rw [h] at this
  exact this

theorem step (hi : ApplyInv s) {a : Action} (h : s.step a = some s') : ApplyInv s' := by
  rcases Replicator.step_frame h with ⟨h1, h2, h3, h4⟩ | ⟨c, rfl⟩ | ⟨snap, rfl⟩ | rfl | ⟨e, rfl⟩ | rfl | rfl |
    rfl | ⟨err, rfl⟩
  · exact hi.congr h1 h2 h3 h4
  all_goals obtain ⟨-, h⟩ := Replicator.step_some h
  · -- `Load`'s `store.Load` is none of `readCommits`' calls
    obtain ⟨_, _, _, _, _, -, rfl⟩ := Replicator.loadStore_some h
    refine ⟨?_, hi.cursor⟩
    simpa [List.filterMap_append, StoreCall.applyCall] using hi.calls_ref
  · obtain ⟨hidle, ⟨rfl, rfl⟩ | ⟨e, -, rfl⟩ | ⟨data, rfl, rfl⟩⟩ := Replicator.applySentinel_some h
    · have hc := hi.calls_ref
      rw [hidle] at hc
      exact ⟨by simpa [hidle, applyOne] using hc, by simpa [hidle, CursorOk] using hi.cursor_idle hidle⟩
    · exact hi.congr rfl rfl rfl rfl
    · have hc := hi.calls_ref
      rw [hidle] at hc
      exact ⟨by simpa [Applier.pending, applyOne] using hc, by simpa [CursorOk] using hi.cursor_idle hidle⟩
  · obtain ⟨data, hap, hcases⟩ := Replicator.applyRestore_some h
    have hc := hi.calls_ref
    have hw := hi.cursor
    rw [hap] at hc hw
    have hmid : ∀ err, ApplyInv { s with storeLog := s.storeLog ++ [.restore data err], applier := .idle } :=
      fun err => ⟨by simpa [List.filterMap_append, StoreCall.applyCall, Applier.pending] using hc, hw⟩
    rcases hcases with ⟨-, rfl⟩ | ⟨_, -, rfl⟩
    · exact hmid none
    · exact (hmid _).congr rfl rfl rfl rfl
  · obtain ⟨hidle, ⟨hne, rfl⟩ | ⟨-, -, rfl⟩ | ⟨r, hne, ht, hr, rfl⟩ | ⟨cc, hne, ht, -, rfl⟩⟩ :=
      Replicator.applyEntry_some h
    · have hc := hi.calls_ref
      rw [hidle] at hc
      exact ⟨by simpa [applyOne_of_not_normal (.inl hne), Applier.pending] using hc,
        ⟨s.commits, e, rfl, rfl, hi.cursor_idle hidle⟩⟩
    · exact hi.congr rfl rfl rfl rfl
    · have hc := hi.calls_ref
      rw [hidle] at hc
      exact ⟨by simpa [applyOne_normal hne ht hr, Applier.pending] using hc, ⟨s.commits, rfl, hi.cursor_idle hidle⟩⟩
    · have hc := hi.calls_ref
      rw [hidle] at hc
      exact ⟨by simpa [applyOne_of_not_normal (.inr ht), Applier.pending] using hc,
        ⟨s.commits, rfl, hi.cursor_idle hidle⟩⟩
  · obtain ⟨e, r, hap, rfl⟩ := Replicator.applySave_some h
    have hc := hi.calls_ref
    have hw := hi.cursor
    rw [hap] at hc hw
    exact ⟨by simpa [List.filterMap_append, StoreCall.applyCall, Applier.pending] using hc, hw⟩
  · obtain ⟨id, v, e, s₁, hap, h₁, rfl⟩ := Replicator.applyReply_some h
    obtain ⟨_, _, rfl⟩ := Replicator.trigger_frame h₁
    have hc := hi.calls_ref
    have hw := hi.cursor
    rw [hap] at hc hw
    obtain ⟨pre, hpre, hw⟩ := hw
    exact ⟨by simpa [Applier.pending] using hc, ⟨pre, e, hpre, rfl, hw⟩⟩
  · obtain ⟨i, hap, rfl⟩ := Replicator.applyAdvance_some h
    have hc := hi.calls_ref
    have hw := hi.cursor
    rw [hap] at hc hw
    obtain ⟨pre, e, hpre, rfl, -⟩ := hw
    exact ⟨by simpa [Applier.pending] using hc, by simp [CursorOk, hpre]⟩
  · obtain ⟨hidle, ⟨-, rfl⟩ | ⟨_, -, rfl⟩⟩ := Replicator.closeCommits_some h
    · have hc := hi.calls_ref
      rw [hidle] at hc
      exact ⟨by simpa [Applier.pending] using hc, hi.cursor_idle hidle⟩
    · exact hi.congr rfl rfl rfl rfl

end ApplyInv

theorem applyInv_of_reachable {s : Replicator} (h : Reachable s) : ApplyInv s := by
  induction h with
  | init store id now => exact ApplyInv.newReplicator store id now
  | step a _ hs ih => exact ih.step hs

/-! ### Entries in increasing index order -/

/-- The entries of `cs` come in strictly increasing index order, all above `d`. -/
def IncreasingFrom (d : Nat) : List Commit → Prop
  | [] => True
  | .sentinel _ :: cs => IncreasingFrom d cs
  | .entry e :: cs => d < e.index ∧ IncreasingFrom e.index cs

instance decIncreasingFrom : (d : Nat) → (cs : List Commit) → Decidable (IncreasingFrom d cs)
  | _, [] => isTrue trivial
  | d, .sentinel _ :: cs => decIncreasingFrom d cs
  | d, .entry e :: cs => @instDecidableAnd _ _ (Nat.decLt d e.index) (decIncreasingFrom e.index cs)

/-- `readCommits` receives the entries in strictly increasing index order, the first above the cursor's
initial 0 (a Raft log starts at index 1). -/
def IndexIncreasing (cs : List Commit) : Prop := IncreasingFrom 0 cs

instance (cs : List Commit) : Decidable (IndexIncreasing cs) := decIncreasingFrom 0 cs

theorem increasingFrom_append (d : Nat) (cs more : List Commit) :
    IncreasingFrom d (cs ++ more) ↔ IncreasingFrom d cs ∧ IncreasingFrom (lastIndex d cs) more := by
  induction cs generalizing d with
  | nil => simp [IncreasingFrom, lastIndex]
  | cons c cs ih => cases c <;> simp [IncreasingFrom, lastIndex, ih, and_assoc]

theorem IndexIncreasing.of_append {cs more : List Commit} (h : IndexIncreasing (cs ++ more)) : IndexIncreasing cs :=
  ((increasingFrom_append 0 cs more).1 h).1

theorem IndexIncreasing.lt_of_append_entry {cs : List Commit} {e : Entry} (h : IndexIncreasing (cs ++ [.entry e])) :
    cursorRef cs < e.index :=
  ((increasingFrom_append 0 cs _).1 h).2.1

/-- The index of the entry `readCommits` is in the middle of. -/
def Applier.entryIndex : Applier → Option Nat
  | .save e _ | .reply _ _ e => some e.index
  | .advance i => some i
  | _ => none

/-- For increasing entries the cursor is at most the last index taken, and below the entry being handled. -/
theorem CursorOk.le_lt {ap : Applier} {cs : List Commit} {w : Nat} (h : CursorOk ap cs w) (hinc : IndexIncreasing cs) :
    w ≤ cursorRef cs ∧ ∀ d, ap.entryIndex = some d → w < d := by
  cases ap with
  | save e r | reply id v e =>
    obtain ⟨pre, rfl, rfl⟩ := h
    have := hinc.lt_of_append_entry
    refine ⟨by simp; omega, fun d hd => ?_⟩
    cases hd; exact this
  | advance i =>
    obtain ⟨pre, e, rfl, rfl, rfl⟩ := h
    have := hinc.lt_of_append_entry
    refine ⟨by simp; omega, fun d hd => ?_⟩
    cases hd; exact this
  | idle | restore _ | closed => exact ⟨h.le, fun d hd => by cases hd⟩

/-- Every step keeps the commits taken so far as a prefix. -/
theorem step_commits {s s' : Replicator} {a : Action} (h : s.step a = some s') : ∃ more, s'.commits = s.commits ++ more := by
  rcases Replicator.step_frame h with ⟨-, -, h3, -⟩ | ⟨c, rfl⟩ | ⟨snap, rfl⟩ | rfl | ⟨e, rfl⟩ | rfl | rfl | rfl |
    ⟨err, rfl⟩
  · exact ⟨[], by simp [h3]⟩
  all_goals obtain ⟨-, h⟩ := Replicator.step_some h
  · obtain ⟨_, _, _, _, _, -, rfl⟩ := Replicator.loadStore_some h; exact ⟨[], by simp⟩
  · obtain ⟨-, ⟨-, rfl⟩ | ⟨_, -, rfl⟩ | ⟨_, -, rfl⟩⟩ := Replicator.applySentinel_some h
    · exact ⟨_, rfl⟩
    · exact ⟨[], by simp [Replicator.die]⟩
    · exact ⟨_, rfl⟩
  · obtain ⟨_, -, ⟨-, rfl⟩ | ⟨_, -, rfl⟩⟩ := Replicator.applyRestore_some h <;> exact ⟨[], by simp [Replicator.die]⟩
  · obtain ⟨-, ⟨-, rfl⟩ | ⟨-, -, rfl⟩ | ⟨_, -, -, -, rfl⟩ | ⟨_, -, -, -, rfl⟩⟩ := Replicator.applyEntry_some h
    all_goals first | exact ⟨_, rfl⟩ | exact ⟨[], by simp [Replicator.die]⟩
  · obtain ⟨_, _, -, rfl⟩ := Replicator.applySave_some h; exact ⟨[], by simp⟩
  · obtain ⟨_, _, _, _, -, h₁, rfl⟩ := Replicator.applyReply_some h
    obtain ⟨_, _, rfl⟩ := Replicator.trigger_frame h₁
    exact ⟨[], by simp⟩
  · obtain ⟨_, -, rfl⟩ := Replicator.applyAdvance_some h; exact ⟨[], by simp⟩
  · obtain ⟨-, ⟨-, rfl⟩ | ⟨_, -, rfl⟩⟩ := Replicator.closeCommits_some h <;> exact ⟨[], by simp [Replicator.die]⟩

/-- For increasing entries no step moves the cursor back. -/
theorem ApplyInv.applyWait_mono {s s' : Replicator} (hi : ApplyInv s) {a : Action} (h : s.step a = some s')
    (hinc : IndexIncreasing s'.commits) : s.applyWait ≤ s'.applyWait := by
  obtain ⟨more, hmore⟩ := step_commits h
  rw [hmore] at hinc
  have hlt := (hi.cursor.le_lt hinc.of_append).2
  rcases Replicator.step_frame h with ⟨-, -, -, h4⟩ | ⟨c, rfl⟩ | ⟨snap, rfl⟩ | rfl | ⟨e, rfl⟩ | rfl | rfl | rfl |
    ⟨err, rfl⟩
  · exact h4.ge
  all_goals obtain ⟨-, h⟩ := Replicator.step_some h
  · obtain ⟨_, _, _, _, _, -, rfl⟩ := Replicator.loadStore_some h; exact le_rfl
  · obtain ⟨-, ⟨-, rfl⟩ | ⟨_, -, rfl⟩ | ⟨_, -, rfl⟩⟩ := Replicator.applySentinel_some h <;> exact le_rfl
  · obtain ⟨_, -, ⟨-, rfl⟩ | ⟨_, -, rfl⟩⟩ := Replicator.applyRestore_some h <;> exact le_rfl
  · obtain ⟨-, ⟨-, rfl⟩ | ⟨-, -, rfl⟩ | ⟨_, -, -, -, rfl⟩ | ⟨_, -, -, -, rfl⟩⟩ := Replicator.applyEntry_some h <;>
      exact le_rfl
  · obtain ⟨_, _, -, rfl⟩ := Replicator.applySave_some h; exact le_rfl
  · obtain ⟨_, _, _, _, -, h₁, rfl⟩ := Replicator.applyReply_some h
    obtain ⟨_, _, rfl⟩ := Replicator.trigger_frame h₁
    exact le_rfl
  · obtain ⟨i, hap, rfl⟩ := Replicator.applyAdvance_some h
    exact (hlt i (by rw [hap]; rfl)).le
  · obtain ⟨-, ⟨-, rfl⟩ | ⟨_, -, rfl⟩⟩ := Replicator.closeCommits_some h <;> exact le_rfl

/-! ### `Load`s and the store -/

/-- The read index a `Load` that `applyWait` released waited for. -/
def Phase.released : Phase → Option Nat
  | .applyWaiting _ i true => some i
  | _ => none

/-- `applyWait.Trigger(d)` releases only `Load`s waiting for at most `d`. -/
theorem Call.released_release {d i : Nat} {call : Call} (h : (call.release d).phase.released = some i) :
    call.phase.released = some i ∨ i ≤ d := by
  unfold Call.release at h
  split at h
  · split at h
    · simp only [Phase.released, Option.some.injEq] at h
      exact .inr (h ▸ ‹_›)
    · exact .inl h
  · exact .inl h

/-- Every `Load` that `applyWait` released waited for an index up to `w`. -/
def ReleasedBelow (calls : Nat → Option Call) (w : Nat) : Prop :=
  ∀ c call i, calls c = some call → call.phase.released = some i → i ≤ w

namespace ReleasedBelow

variable {calls : Nat → Option Call} {w : Nat} {s s' : Replicator}

theorem mono (h : ReleasedBelow calls w) {w' : Nat} (hw : w ≤ w') : ReleasedBelow calls w' :=
  fun c call i hc hi => (h c call i hc hi).trans hw

theorem update (h : ReleasedBelow calls w) {c₀ : Nat} {x : Option Call}
    (hx : ∀ call i, x = some call → call.phase.released = some i → i ≤ w) :
    ReleasedBelow (Function.update calls c₀ x) w := by
  intro c call i hc hi
  by_cases hcc : c = c₀
  · subst hcc; simp only [Function.update_same] at hc; exact hx call i hc hi
  · rw [Function.update_noteq hcc] at hc; exact h c call i hc hi

theorem setPhase (h : ReleasedBelow s.calls w) {c : Nat} {p : Phase} (hp : ∀ i, p.released = some i → i ≤ w) :
    ReleasedBelow (s.setPhase c p).calls w :=
  h.update fun call i hx hi => by
    obtain ⟨_, -, rfl⟩ := Option.map_eq_some'.1 hx
    exact hp i hi

theorem trigger (h : ReleasedBelow s.calls w) {id : Nat} {v : InternalNexusResponse} {src : Source}
    (ht : s.trigger id v src = some s') : ReleasedBelow s'.calls w := by
  rcases Replicator.trigger_some ht with ⟨-, rfl⟩ | ⟨_, -, -, rfl⟩ | ⟨c₀, call₀, -, hc₀, -, rfl⟩
  · exact h
  · exact h
  · exact h.update fun call i hx hi => by cases hx; exact h c₀ call₀ i hc₀ hi

theorem applyWaitTrigger (h : ReleasedBelow s.calls w) {d : Nat} (hw : w ≤ d) :
    ReleasedBelow (s.applyWaitTrigger d).calls d := by
  intro c call i hc hi
  obtain ⟨call₀, hc₀, rfl⟩ := Option.map_eq_some'.1 hc
  rcases Call.released_release hi with hi | hi
  · exact (h c call₀ i hc₀ hi).trans hw
  · exact hi

/-- `applyWait` releases no `Load` early: a step keeps every released `Load` at or below the cursor. -/
theorem step (h : ReleasedBelow s.calls s.applyWait) {a : Action} (hs : s.step a = some s')
    (hw : s.applyWait ≤ s'.applyWait) : ReleasedBelow s'.calls s'.applyWait := by
  obtain ⟨-, hs⟩ := Replicator.step_some hs
  have hnone : ∀ {p : Phase}, p.released = none → ∀ i, p.released = some i → i ≤ s.applyWait :=
    fun hp i hi => by rw [hp] at hi; cases hi
  have hspawn : ∀ c op, s.spawn c op = some s' → ReleasedBelow s'.calls s'.applyWait := fun c op hs => by
    obtain ⟨-, rfl⟩ := Replicator.spawn_some hs
    exact h.update fun call i hx hi => by cases hx; cases hi
  -- a goroutine's own trigger, then its return
  have hown : ∀ {id c} {v : InternalNexusResponse} {s₁ : Replicator} {p : Phase}, p.released = none →
      s.trigger id v .own = some s₁ → ReleasedBelow (s₁.setPhase c p).calls (s₁.setPhase c p).applyWait :=
    fun hp h₁ => by
      obtain ⟨_, _, rfl⟩ := Replicator.trigger_frame h₁
      exact (h.trigger h₁).setPhase (hnone hp)
  cases a with
  | save c data => exact hspawn c (.save data) hs
  | load c data => exact hspawn c (.load data) hs
  | addMember c opts dial =>
    simp only [Replicator.act] at hs
    split at hs
    · exact hspawn c _ hs
    · cases hs; exact h
  | removeMember c opts =>
    simp only [Replicator.act] at hs
    split at hs
    · exact hspawn c _ hs
    · cases hs; exact h
  | register c =>
    obtain ⟨_, _, _, _, -, ⟨-, rfl⟩ | ⟨-, rfl⟩⟩ := Replicator.register_some hs
    · exact h
    · exact h.update fun call i hx hi => by cases hx; cases hi
  | propose c err =>
    obtain ⟨_, _, _, _, -, ⟨-, rfl⟩ | ⟨_, _, -, h₁, rfl⟩⟩ := Replicator.propose_some hs
    · exact h.update fun call i hx hi => by cases hx; cases hi
    · exact hown (by rfl) h₁
  | receive c =>
    obtain ⟨_, _, _, _, -, hcases⟩ := Replicator.receive_some hs
    rcases hcases with ⟨_, -, rfl⟩ | ⟨_, -, rfl⟩ | ⟨_, _, -, -, rfl⟩ | ⟨_, -, -, -, rfl⟩ | ⟨_, index, -, -, -, rfl⟩
    · exact h.setPhase (hnone rfl)
    · exact h.setPhase (hnone rfl)
    · exact h.setPhase (hnone rfl)
    · exact h
    · -- released at once exactly when the cursor already covers the index
      refine h.setPhase fun i hi => ?_
      by_cases hle : index ≤ s.applyWait
      · simp only [Phase.released, hle, decide_True, Option.some.injEq] at hi
        exact hi ▸ hle
      · simp [Phase.released, hle] at hi
  | timeout c e =>
    rcases Replicator.timeout_some hs with ⟨_, _, _, _, _, -, h₁, rfl⟩ | ⟨_, _, _, _, _, _, -, rfl⟩
    · exact hown (by rfl) h₁
    · exact h.setPhase (hnone rfl)
  | loadStore c =>
    obtain ⟨_, _, _, _, _, -, rfl⟩ := Replicator.loadStore_some hs
    exact h.setPhase (hnone rfl)
  | applySentinel snap =>
    obtain ⟨-, ⟨-, rfl⟩ | ⟨_, -, rfl⟩ | ⟨_, -, rfl⟩⟩ := Replicator.applySentinel_some hs <;> exact h
  | applyRestore =>
    obtain ⟨_, -, ⟨-, rfl⟩ | ⟨_, -, rfl⟩⟩ := Replicator.applyRestore_some hs <;> exact h
  | applyEntry e =>
    obtain ⟨-, ⟨-, rfl⟩ | ⟨-, -, rfl⟩ | ⟨_, -, -, -, rfl⟩ | ⟨_, -, -, -, rfl⟩⟩ := Replicator.applyEntry_some hs <;>
      exact h
  | applySave =>
    obtain ⟨_, _, -, rfl⟩ := Replicator.applySave_some hs
    exact h
  | applyReply =>
    obtain ⟨_, _, _, _, -, h₁, rfl⟩ := Replicator.applyReply_some hs
    have := h.trigger h₁
    obtain ⟨_, _, rfl⟩ := Replicator.trigger_frame h₁
    exact this
  | applyAdvance =>
    obtain ⟨_, -, rfl⟩ := Replicator.applyAdvance_some hs
    exact h.applyWaitTrigger hw
  | closeCommits err =>
    obtain ⟨-, ⟨-, rfl⟩ | ⟨_, -, rfl⟩⟩ := Replicator.closeCommits_some hs <;> exact h
  | readState rd =>
    rcases Replicator.readState_some hs with ⟨-, rfl⟩ | ⟨_, -, h₁⟩
    · exact h
    · have h' : ReleasedBelow ({ s with readStates := s.readStates ++ [rd] } : Replicator).calls s.applyWait := h
      obtain ⟨_, _, rfl⟩ := Replicator.trigger_frame h₁
      exact h'.trigger h₁

end ReleasedBelow

theorem mem_applyRef {cs : List Commit} {e : Entry} {r : NexusInternalRequest} (he : .entry e ∈ cs)
    (hne : e.data ≠ []) (ht : e.type = .entryNormal) (hr : unmarshalRequest e.data = some r) :
    ApplyCall.save ⟨e.index, e.term⟩ r.req ∈ applyRef cs :=
  List.mem_flatMap.2 ⟨_, he, by simp [applyOne_normal hne ht hr]⟩

/-- The `Save` `readCommits` is about to make is for the entry it is handling. -/
theorem Applier.entryIndex_of_mem_pending {ap : Applier} {re : RaftEntry} {data : Bytes}
    (h : ApplyCall.save re data ∈ ap.pending) : ap.entryIndex = some re.index := by
  cases ap <;> simp only [Applier.pending, List.mem_singleton, List.not_mem_nil, reduceCtorEq,
    ApplyCall.save.injEq] at h
  obtain ⟨rfl, -⟩ := h
  rfl

private theorem append_singleton_eq_append_cons {α : Type} {xs pre post : List α} {x y : α}
    (h : xs ++ [x] = pre ++ y :: post) :
    (pre = xs ∧ y = x ∧ post = []) ∨ ∃ post', post = post' ++ [x] ∧ xs = pre ++ y :: post' := by
  rcases List.eq_nil_or_concat post with rfl | ⟨post', z, rfl⟩
  · obtain ⟨h₁, h₂⟩ := List.append_inj' h rfl
    exact .inl ⟨h₁.symm, (List.singleton_inj.1 h₂).symm, rfl⟩
  · rw [List.concat_eq_append, ← List.cons_append, ← List.append_assoc] at h
    obtain ⟨h₁, h₂⟩ := List.append_inj' h rfl
    exact .inr ⟨post', by rw [List.concat_eq_append, List.singleton_inj.1 h₂], h₁⟩

/-- Where each `Load`'s store call stands among the store calls and the entries taken. -/
structure LoadInv (s : Replicator) : Prop where
  released : ReleasedBelow s.calls s.applyWait
  loads : ∀ {pre data res err i post}, s.storeLog = pre ++ .load data res err i :: post →
    i ≤ s.applyWait ∧ (∀ re d r err', .save re d r err' ∈ post → i < re.index) ∧
    ∀ e r, .entry e ∈ s.commits → e.index ≤ i → e.data ≠ [] → e.type = .entryNormal →
      unmarshalRequest e.data = some r → ∃ res' err', .save ⟨e.index, e.term⟩ r.req res' err' ∈ pre

namespace LoadInv

variable {s s' : Replicator}

/-- Appending a store call that is not a `Load` leaves every `Load` where it was. -/
private theorem loads_append {log pre post : List StoreCall} {x : StoreCall} {data res : Bytes}
    {err : Option Error} {i : Nat} (hx : ∀ data res err i, x ≠ .load data res err i)
    (h : log ++ [x] = pre ++ .load data res err i :: post) :
    ∃ post', post = post' ++ [x] ∧ log = pre ++ .load data res err i :: post' := by
  rcases append_singleton_eq_append_cons h with ⟨-, hy, -⟩ | h
  · exact absurd hy.symm (hx _ _ _ _)
  · exact h

/-- A step that changes neither the store calls nor the entries taken, and does not move the cursor back. -/
theorem congr (hl : LoadInv s) (hrel : ReleasedBelow s'.calls s'.applyWait) (hlog : s'.storeLog = s.storeLog)
    (hcs : s'.commits = s.commits) (hw : s.applyWait ≤ s'.applyWait) : LoadInv s' := by
  refine ⟨hrel, fun {pre data res err i post} h => ?_⟩
  rw [hlog] at h
  obtain ⟨h1, h2, h3⟩ := hl.loads h
  exact ⟨h1.trans hw, h2, by rw [hcs]; exact h3⟩

theorem step (hl : LoadInv s) (ha : ApplyInv s) {a : Action} (h : s.step a = some s')
    (hinc : IndexIncreasing s'.commits) : LoadInv s' := by
  have hw := ha.applyWait_mono h hinc
  have hrel := hl.released.step h hw
  obtain ⟨more, hmore⟩ := step_commits h
  have hinc₀ : IndexIncreasing s.commits := by rw [hmore] at hinc; exact hinc.of_append
  obtain ⟨hle, hlt⟩ := ha.cursor.le_lt hinc₀
  rcases Replicator.step_frame h with ⟨h1, -, h3, -⟩ | ⟨c, rfl⟩ | ⟨snap, rfl⟩ | rfl | ⟨e, rfl⟩ | rfl | rfl | rfl |
    ⟨err, rfl⟩
  · exact hl.congr hrel h1 h3 hw
  all_goals obtain ⟨-, h⟩ := Replicator.step_some h
  · -- a released `Load` calls the store after every `Save` of an entry up to its index
    obtain ⟨data, id, index, slot, src, hc, rfl⟩ := Replicator.loadStore_some h
    refine ⟨hrel, fun {pre data' res err i post} hlog => ?_⟩
    rcases append_singleton_eq_append_cons hlog with ⟨rfl, hy, rfl⟩ | ⟨post', rfl, hold⟩
    · obtain ⟨-, -, -, rfl⟩ := StoreCall.load.inj hy
      have hi : i ≤ s.applyWait := hl.released c _ i hc rfl
      refine ⟨hi, by simp, fun e r he hei hne ht hr => ?_⟩
      have hmem : ApplyCall.save ⟨e.index, e.term⟩ r.req ∈ applyRef s.commits := mem_applyRef he hne ht hr
      rw [← ha.calls_ref] at hmem
      rcases List.mem_append.1 hmem with hm | hm
      · exact exists_save_of_mem hm
      · have := hlt _ (Applier.entryIndex_of_mem_pending hm)
        simp only at this
        omega
    · obtain ⟨h1, h2, h3⟩ := hl.loads hold
      refine ⟨h1, fun re d r err' hm => h2 re d r err' ?_, h3⟩
      simpa using hm
  · -- a sentinel adds no entry
    obtain ⟨-, ⟨-, rfl⟩ | ⟨_, -, rfl⟩ | ⟨_, -, rfl⟩⟩ := Replicator.applySentinel_some h
    · refine ⟨hrel, fun hlog => ?_⟩
      obtain ⟨h1, h2, h3⟩ := hl.loads hlog
      exact ⟨h1, h2, fun e r he => h3 e r (by simpa using he)⟩
    · exact hl.congr hrel rfl rfl le_rfl
    · refine ⟨hrel, fun hlog => ?_⟩
      obtain ⟨h1, h2, h3⟩ := hl.loads hlog
      exact ⟨h1, h2, fun e r he => h3 e r (by simpa using he)⟩
  · -- `store.Restore` is neither a `Load` nor a `Save`
    obtain ⟨data, -, hcases⟩ := Replicator.applyRestore_some h
    have hmid : ∀ err, LoadInv { s with storeLog := s.storeLog ++ [.restore data err], applier := .idle } :=
      fun err => ⟨hl.released, fun hlog => by
        obtain ⟨post', rfl, hold⟩ := loads_append (fun _ _ _ _ => by simp) hlog
        obtain ⟨h1, h2, h3⟩ := hl.loads hold
        exact ⟨h1, fun re d r err' hm => h2 re d r err' (by simpa using hm), h3⟩⟩
    rcases hcases with ⟨-, rfl⟩ | ⟨_, -, rfl⟩
    · exact hmid none
    · exact (hmid _).congr hl.released rfl rfl le_rfl
  · -- a new entry lies above the cursor, so above every released `Load`
    obtain ⟨-, hcases⟩ := Replicator.applyEntry_some h
    have hentry : ∀ {ap : Applier}, IndexIncreasing (s.commits ++ [.entry e]) →
        LoadInv { s with commits := s.commits ++ [.entry e], applier := ap } := fun hinc' => by
      have hgt := hinc'.lt_of_append_entry
      refine ⟨hl.released, fun hlog => ?_⟩
      obtain ⟨h1, h2, h3⟩ := hl.loads hlog
      refine ⟨h1, h2, fun e' r he' hle' => h3 e' r ?_ hle'⟩
      rcases List.mem_append.1 he' with he' | he'
      · exact he'
      · obtain rfl : e' = e := by simpa using he'
        omega
    rcases hcases with ⟨-, rfl⟩ | ⟨-, -, rfl⟩ | ⟨_, -, -, -, rfl⟩ | ⟨_, -, -, -, rfl⟩
    · exact hentry hinc
    · exact hl.congr hrel rfl rfl le_rfl
    · exact hentry hinc
    · exact hentry hinc
  · -- the `Save` of the entry being handled comes after every released `Load`
    obtain ⟨e, r, hap, rfl⟩ := Replicator.applySave_some h
    have he := hlt e.index (by rw [hap]; rfl)
    refine ⟨hrel, fun hlog => ?_⟩
    obtain ⟨post', rfl, hold⟩ := loads_append (fun _ _ _ _ => by simp) hlog
    obtain ⟨h1, h2, h3⟩ := hl.loads hold
    refine ⟨h1, fun re d r' err' hm => ?_, h3⟩
    rcases List.mem_append.1 hm with hm | hm
    · exact h2 re d r' err' hm
    · obtain ⟨rfl, -⟩ : re = ⟨e.index, e.term⟩ ∧ _ := by simpa using hm
      exact lt_of_le_of_lt h1 he
  · obtain ⟨_, _, _, _, -, h₁, rfl⟩ := Replicator.applyReply_some h
    obtain ⟨_, _, rfl⟩ := Replicator.trigger_frame h₁
    exact hl.congr hrel rfl rfl hw
  · obtain ⟨_, -, rfl⟩ := Replicator.applyAdvance_some h
    exact hl.congr hrel rfl rfl hw
  · obtain ⟨-, ⟨-, rfl⟩ | ⟨_, -, rfl⟩⟩ := Replicator.closeCommits_some h <;> exact hl.congr hrel rfl rfl hw

end LoadInv

theorem loadInv_of_reachable {s : Replicator} (hs : Reachable s) (hinc : IndexIncreasing s.commits) : LoadInv s := by
  induction hs with
  | init store id now => exact ⟨fun c call i hc => (by cases hc), fun h => by simp [Nexus.newReplicator] at h⟩
  | step a hs₀ hstep ih =>
    obtain ⟨more, hmore⟩ := step_commits hstep
    exact (ih (by rw [hmore] at hinc; exact hinc.of_append)).step (applyInv_of_reachable hs₀) hstep hinc

/-! ### `readCommits` and the store -/

/-- Whatever the clients do, the `Save`s and `Restore`s `readCommits` made, followed by the one it is about to
make, are the ones `applyRef` asks for the commits it took; between two elements they are exactly those. -/
theorem apply_calls_ref {s : Replicator} (hs : Reachable s) :
    s.storeLog.filterMap StoreCall.applyCall ++ s.applier.pending = applyRef s.commits ∧
    (s.applier = .idle ∨ s.applier = .closed → s.storeLog.filterMap StoreCall.applyCall = applyRef s.commits) := by
  have hc := (applyInv_of_reachable hs).calls_ref
  refine ⟨hc, fun h => ?_⟩
  rcases h with h | h <;> simpa [h, Applier.pending] using hc

theorem apply_calls_ref_saveLoad : ∃ s, Reachable s ∧
    s.commits = [.entry ⟨1, 1, .entryNormal, marshalRequest ⟨2 ^ 48 + 1, [7]⟩⟩] ∧
    s.storeLog.filterMap StoreCall.applyCall = applyRef s.commits := by
  obtain ⟨s, hs, hcs, hidle⟩ : ∃ s, Reachable s ∧
      s.commits = [.entry ⟨1, 1, .entryNormal, marshalRequest ⟨2 ^ 48 + 1, [7]⟩⟩] ∧ s.applier = .idle :=
    Reachable.exists_of_run echoStore 1 0 saveLoadTrace ⟨_, rfl, by decide, by decide⟩
  exact ⟨s, hs, hcs, (apply_calls_ref hs).2 (.inl hidle)⟩

/-- For entries taken in strictly increasing index order (the first above 0): no step moves the apply cursor
back; `readCommits` moves it to an entry only once that entry's `store.Save` returned; and a `Load` that waited
for read index `i` called the store after the `Save` of every entry up to `i` it took and before every later
`Save`, which is for an index above `i`. -/
theorem apply_cursor_ordered {s : Replicator} (hs : Reachable s) (hinc : IndexIncreasing s.commits) :
    (∀ a s', s.step a = some s' → IndexIncreasing s'.commits → s.applyWait ≤ s'.applyWait) ∧
    (∀ i, s.applier = .advance i → ∃ pre e, s.commits = pre ++ [.entry e] ∧ e.index = i ∧
      ∀ r, e.data ≠ [] → e.type = .entryNormal → unmarshalRequest e.data = some r →
        ∃ res err, .save ⟨e.index, e.term⟩ r.req res err ∈ s.storeLog) ∧
    (∀ pre data res err i post, s.storeLog = pre ++ .load data res err i :: post →
      (∀ re d r err', .save re d r err' ∈ post → i < re.index) ∧
      ∀ e r, .entry e ∈ s.commits → e.index ≤ i → e.data ≠ [] → e.type = .entryNormal →
        unmarshalRequest e.data = some r → ∃ res' err', .save ⟨e.index, e.term⟩ r.req res' err' ∈ pre) := by
  have ha := applyInv_of_reachable hs
  refine ⟨fun a s' h hinc' => ha.applyWait_mono h hinc', fun i hap => ?_,
    fun pre data res err i post h => ((loadInv_of_reachable hs hinc).loads h).2⟩
  have hc := ha.calls_ref
  have hw := ha.cursor
  rw [hap] at hc hw
  obtain ⟨pre, e, hpre, rfl, -⟩ := hw
  refine ⟨pre, e, hpre, rfl, fun r hne ht hr => exists_save_of_mem ?_⟩
  have hlog : s.storeLog.filterMap StoreCall.applyCall = applyRef pre ++ applyOne (.entry e) := by
    simpa [Applier.pending, hpre] using hc
  simp [hlog, applyOne_normal hne ht hr]

theorem apply_cursor_ordered_saveLoad : ∃ s, Reachable s ∧
    s.storeLog = [.save ⟨1, 1⟩ [7] [7] none, .load [7] [7] none 1] ∧
    ∀ e r, .entry e ∈ s.commits → e.index ≤ 1 → e.data ≠ [] → e.type = .entryNormal →
      unmarshalRequest e.data = some r → ∃ res err, .save ⟨e.index, e.term⟩ r.req res err ∈
        [StoreCall.save ⟨1, 1⟩ [7] [7] none] := by
  obtain ⟨s, hs, hlog, hinc⟩ : ∃ s, Reachable s ∧
      s.storeLog = [.save ⟨1, 1⟩ [7] [7] none, .load [7] [7] none 1] ∧ IndexIncreasing s.commits :=
    Reachable.exists_of_run echoStore 1 0 saveLoadTrace ⟨_, rfl, by decide, by decide⟩
  exact ⟨s, hs, hlog, ((apply_cursor_ordered hs hinc).2.2 [_] _ _ _ _ [] hlog).2⟩

/-! ### The cursor after a snapshot -/

/-- Once `readCommits` took a sentinel (and restored the store from the snapshot), the apply cursor is where
the entries before the sentinel left it: the index of the last of them, 0 if there is none.  The snapshot's own
index plays no part. -/
theorem sentinel_keeps_cursor {s : Replicator} (hs : Reachable s) {pre : List Commit} {snap : DBSnapshot}
    (h : s.commits = pre ++ [.sentinel snap]) : s.applyWait = cursorRef pre := by
  have hw := (applyInv_of_reachable hs).cursor
  rw [h] at hw
  cases hap : s.applier <;> rw [hap] at hw
  case save e r | reply id v e =>
    obtain ⟨pre', hpre', -⟩ := hw
    simpa using congrArg List.getLast? hpre'
  case advance i =>
    obtain ⟨pre', e, hpre', -⟩ := hw
    simpa using congrArg List.getLast? hpre'
  all_goals simpa [CursorOk] using hw

theorem sentinel_keeps_cursor_after_entry : ∃ s, Reachable s ∧
    s.commits = [.entry ⟨1, 3, .entryNormal, []⟩, .sentinel (.ok [1])] ∧ s.applyWait = 3 := by
  obtain ⟨s, hs, hcs⟩ : ∃ s, Reachable s ∧ s.commits = [.entry ⟨1, 3, .entryNormal, []⟩] ++ [.sentinel (.ok [1])] :=
    Reachable.exists_of_run echoStore 1 0 [.applyEntry ⟨1, 3, .entryNormal, []⟩, .applyAdvance,
      .applySentinel (.ok [1]), .applyRestore] ⟨_, rfl, by decide⟩
  exact ⟨s, hs, hcs, sentinel_keeps_cursor hs hcs⟩

/-- Node 1 restarts: `readCommits` takes a nil and restores the snapshot `[1]`, and then a `Load` gets read
index 1 from the engine. -/
def restartLoadTrace : List Action :=
  [.applySentinel (.ok [1]), .applyRestore, .load 0 [7], .register 0, .propose 0 none,
   .readState ⟨1, putUint64 (2 ^ 48 + 1)⟩, .receive 0]

/-- After a restart from a snapshot the cursor is 0, whatever index the snapshot was taken at: a `Load` whose
read index 1 the snapshot covers stays blocked until a later entry is applied. -/
theorem restore_leaves_cursor_zero : ∃ s, Reachable s ∧ s.crash = none ∧ s.commits = [.sentinel (.ok [1])] ∧
    s.storeLog = [.restore [1] none] ∧ s.applyWait = 0 ∧
    (s.calls 0).map Call.phase = some (.applyWaiting (2 ^ 48 + 1) 1 false) :=
  Reachable.exists_of_run echoStore 1 0 restartLoadTrace
    ⟨_, rfl, by decide, by decide, by decide, by decide, by decide⟩

end Nexus
