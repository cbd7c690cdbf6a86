import Mathlib.Data.List.Nodup
import SpottedCat.Sched.Emit

/-!
# `try_start_next` (`exec_impl/exec.rs:17-141`)

| here | there |
| --- | --- |
| `canStartDirection` | exec.rs:131 |
| `startBody`         | the body of `for _ in 0..queued_len` (exec.rs:39-111) |
| `startRound`        | that loop (exec.rs:38-112); after its `break` on an empty queue the body does nothing |
| `startLoop`         | the outer `loop` (exec.rs:30-121), `none` when the fuel runs out |
| `tryStartNext`      | the whole function; `startLoop_isSome` shows its fuel is enough |

Every fact about the result comes from `tryStartNext_induct`: the function is a sequence of three
kinds of step, dropping the front key, moving it to the back, or starting it.
-/

namespace SpottedCat

/-- exec.rs:131 -/
def canStartDirection (state : SchedulerState) (direction : Direction) : Bool :=
  decide (state.activeCount direction < state.maxConcurrency direction)

namespace SchedulerState

/-- `queued.pop_front()` and `queued_set.remove(&key)` (exec.rs:39-43). -/
def dequeue (state : SchedulerState) (key : UniqueId) (rest : List UniqueId) : SchedulerState :=
  { state with queued := rest, queuedSet := state.queuedSet.erase key }

/-- `queued.push_back(key)` and `queued_set.insert(key)` (exec.rs:61-62, executor.rs:141-142). -/
def pushBack (state : SchedulerState) (key : UniqueId) : SchedulerState :=
  { state with queued := state.queued ++ [key], queuedSet := insert key state.queuedSet }

/-- A new token, inserted into `active` (exec.rs:76-79). -/
def activate (state : SchedulerState) (key : UniqueId) : SchedulerState :=
  { state with
    active := state.active.insert key ⟨⟨state.nextToken⟩⟩
    nextToken := state.nextToken + 1 }

end SchedulerState

/-- The `Transmission` status and the spawned worker of a started key (exec.rs:66-111). -/
def startEffects (state : SchedulerState) (key : UniqueId) (group : GroupState) : List Effect :=
  emitStatus state group.entry .transmission (state.current key) group.entry.inner.totalSize ++
    [.spawn key group.leaderInner ⟨state.nextToken⟩ (state.current key)]

/-- The locals of `try_start_next`, and what it has done so far. -/
structure StartAcc where
  state : SchedulerState
  effects : List Effect
  startedKeys : Finset UniqueId
  scheduledInThisRound : Bool

def startBody (acc : StartAcc) : StartAcc :=
  match acc.state.queued with
  | [] => acc
  | key :: rest =>
    let state := acc.state.dequeue key rest
    if key ∈ state.active then { acc with state := state }
    else
      match state.groups.lookup key with
      | none => { acc with state := state }
      | some group =>
        if canStartDirection state key.1 then
          { state := state.activate key
            effects := acc.effects ++ startEffects state key group
            startedKeys := insert key acc.startedKeys
            scheduledInThisRound := true }
        else { acc with state := state.pushBack key }

def startRound : Nat → StartAcc → StartAcc
  | 0, acc => acc
  | n + 1, acc => startRound n (startBody acc)

/-- One pass over the keys queued at its start (exec.rs:37-112). -/
def queueRound (acc : StartAcc) : StartAcc :=
  startRound acc.state.queued.length { acc with scheduledInThisRound := false }

def startLoop : Nat → StartAcc → Option StartAcc
  | 0, _ => none
  | fuel + 1, acc =>
    if acc.state.queued.length = 0 then some acc
    else if (queueRound acc).scheduledInThisRound then startLoop fuel (queueRound acc)
    else some (queueRound acc)

def StartAcc.init (state : SchedulerState) : StartAcc := ⟨state, [], ∅, false⟩

/-- exec.rs:17. Each further round follows one that shortened the queue. -/
def tryStartNext (state : SchedulerState) : StartAcc :=
  (startLoop (state.queued.length + 1) (.init state)).getD (.init state)

/-- A key the loop puts back: it could run, but its direction is full. -/
def Blocked (state : SchedulerState) (key : UniqueId) : Prop :=
  key ∉ state.active ∧ key ∈ state.groups ∧ state.maxConcurrency key.1 ≤ state.activeCount key.1

/-! ## One iteration -/

/-- **What one iteration can do.** -/
theorem startBody_cases (acc : StartAcc) :
    (acc.state.queued = [] ∧ startBody acc = acc) ∨
    ∃ key rest, acc.state.queued = key :: rest ∧
      ((key ∈ acc.state.active ∨ key ∉ acc.state.groups) ∧
          startBody acc = { acc with state := acc.state.dequeue key rest } ∨
        Blocked acc.state key ∧
          startBody acc = { acc with state := (acc.state.dequeue key rest).pushBack key } ∨
        ∃ group, key ∉ acc.state.active ∧ acc.state.groups.lookup key = some group ∧
          acc.state.activeCount key.1 < acc.state.maxConcurrency key.1 ∧
          startBody acc =
            { state := (acc.state.dequeue key rest).activate key
              effects := acc.effects ++ startEffects (acc.state.dequeue key rest) key group
              startedKeys := insert key acc.startedKeys
              scheduledInThisRound := true }) := by
  cases hq : acc.state.queued with
  | nil => left; simp [startBody, hq]
  | cons key rest =>
    right
    refine ⟨key, rest, rfl, ?_⟩
    by_cases ha : key ∈ acc.state.active
    · left
      have ha' : key ∈ (acc.state.dequeue key rest).active := ha
      exact ⟨.inl ha, by simp [startBody, hq, ha']⟩
    have ha' : key ∉ (acc.state.dequeue key rest).active := ha
    cases hg : acc.state.groups.lookup key with
    | none =>
      left
      have hg' : (acc.state.dequeue key rest).groups.lookup key = none := hg
      exact ⟨.inr (Finmap.lookup_eq_none.1 hg), by simp [startBody, hq, ha', hg']⟩
    | some group =>
      have hg' : (acc.state.dequeue key rest).groups.lookup key = some group := hg
      by_cases hc : acc.state.activeCount key.1 < acc.state.maxConcurrency key.1
      · right; right
        have hc' : canStartDirection (acc.state.dequeue key rest) key.1 = true := decide_eq_true hc
        exact ⟨group, ha, rfl, hc, by simp [startBody, hq, ha', hg', hc']⟩
      · right; left
        have hc' : canStartDirection (acc.state.dequeue key rest) key.1 = false := decide_eq_false hc
        exact ⟨⟨ha, Finmap.mem_of_lookup_eq_some hg, Nat.le_of_not_lt hc⟩,
          by simp [startBody, hq, ha', hg', hc']⟩

/-- An iteration never lengthens the queue, and shortens it when it starts a worker. -/
theorem startBody_length (acc : StartAcc) :
    (startBody acc).state.queued.length ≤ acc.state.queued.length ∧
    ((startBody acc).scheduledInThisRound = true → acc.scheduledInThisRound = true ∨
      (startBody acc).state.queued.length < acc.state.queued.length) := by
  obtain ⟨_, h⟩ | ⟨key, rest, hq, ⟨_, h⟩ | ⟨_, h⟩ | ⟨group, _, _, _, h⟩⟩ := startBody_cases acc
  · rw [h]; exact ⟨le_rfl, .inl⟩
  · rw [h, hq]; simp [SchedulerState.dequeue]
  · rw [h, hq]; simp [SchedulerState.dequeue, SchedulerState.pushBack]
  · rw [h, hq]; simp [SchedulerState.dequeue, SchedulerState.activate]

theorem startRound_length : ∀ (n : Nat) (acc : StartAcc),
    (startRound n acc).state.queued.length ≤ acc.state.queued.length ∧
    ((startRound n acc).scheduledInThisRound = true → acc.scheduledInThisRound = true ∨
      (startRound n acc).state.queued.length < acc.state.queued.length)
  | 0, acc => ⟨le_rfl, .inl⟩
  | n + 1, acc => by
    obtain ⟨h1, h2⟩ := startBody_length acc
    obtain ⟨h3, h4⟩ := startRound_length n (startBody acc)
    refine ⟨h3.trans h1, fun hs => ?_⟩
    rcases h4 hs with h | h
    · rcases h2 h with h | h
      · exact .inl h
      · exact .inr (lt_of_le_of_lt h3 h)
    · exact .inr (lt_of_lt_of_le h h1)

theorem queueRound_length (acc : StartAcc) (h : (queueRound acc).scheduledInThisRound = true) :
    (queueRound acc).state.queued.length < acc.state.queued.length := by
  rcases (startRound_length acc.state.queued.length
    { acc with scheduledInThisRound := false }).2 h with h | h
  · cases h
  · exact h

/-! ## The two loops -/

/-- **Termination.** More rounds than queued keys are never needed. -/
theorem startLoop_isSome : ∀ (fuel : Nat) (acc : StartAcc), acc.state.queued.length < fuel →
    (startLoop fuel acc).isSome
  | 0, _, h => absurd h (Nat.not_lt_zero _)
  | fuel + 1, acc, h => by
    unfold startLoop
    split
    · rfl
    · split
      · rename_i _ hs
        have hlen := queueRound_length acc hs
        exact startLoop_isSome fuel _ (by omega)
      · rfl

theorem startLoop_tryStartNext (state : SchedulerState) :
    startLoop (state.queued.length + 1) (.init state) = some (tryStartNext state) := by
  have h := startLoop_isSome (state.queued.length + 1) (.init state) (Nat.lt_succ_self _)
  obtain ⟨acc, hacc⟩ := Option.isSome_iff_exists.1 h
  rw [tryStartNext, hacc]
  rfl

section
variable {P : SchedulerState → List Effect → Prop}

theorem startRound_induct
    (body : ∀ acc : StartAcc, P acc.state acc.effects → P (startBody acc).state (startBody acc).effects) :
    ∀ (n : Nat) (acc : StartAcc), P acc.state acc.effects →
      P (startRound n acc).state (startRound n acc).effects
  | 0, _, h => h
  | n + 1, acc, h => startRound_induct body n (startBody acc) (body acc h)

theorem startLoop_induct
    (body : ∀ acc : StartAcc, P acc.state acc.effects → P (startBody acc).state (startBody acc).effects) :
    ∀ (fuel : Nat) (acc acc' : StartAcc), P acc.state acc.effects → startLoop fuel acc = some acc' →
      P acc'.state acc'.effects
  | 0, _, _, _, h => by cases h
  | fuel + 1, acc, acc', hp, h => by
    unfold startLoop at h
    split at h
    · cases h; exact hp
    · have hr : P (queueRound acc).state (queueRound acc).effects :=
        startRound_induct body acc.state.queued.length { acc with scheduledInThisRound := false } hp
      split at h
      · exact startLoop_induct body fuel _ _ hr h
      · cases h; exact hr

/-- **Induction over `try_start_next`.** What dropping, putting back and starting a key each
preserve holds of its result. -/
theorem tryStartNext_induct {state : SchedulerState} (init : P state [])
    (drop : ∀ st es key rest, P st es → st.queued = key :: rest →
      key ∈ st.active ∨ key ∉ st.groups → P (st.dequeue key rest) es)
    (requeue : ∀ st es key rest, P st es → st.queued = key :: rest → Blocked st key →
      P ((st.dequeue key rest).pushBack key) es)
    (start : ∀ st es key rest group, P st es → st.queued = key :: rest → key ∉ st.active →
      st.groups.lookup key = some group → st.activeCount key.1 < st.maxConcurrency key.1 →
      P ((st.dequeue key rest).activate key) (es ++ startEffects (st.dequeue key rest) key group)) :
    P (tryStartNext state).state (tryStartNext state).effects := by
  refine startLoop_induct (fun acc hp => ?_) _ (.init state) _ init (startLoop_tryStartNext state)
  obtain ⟨_, h⟩ | ⟨key, rest, hq, ⟨hd, h⟩ | ⟨hb, h⟩ | ⟨group, ha, hg, hc, h⟩⟩ := startBody_cases acc
  · rw [h]; exact hp
  · rw [h]; exact drop _ _ _ _ hp hq hd
  · rw [h]; exact requeue _ _ _ _ hp hq hb
  · rw [h]; exact start _ _ _ _ _ hp hq ha hg hc

end

/-! ## What is left in the queue -/

theorem startBody_scheduled (acc : StartAcc) (h : acc.scheduledInThisRound = true) :
    (startBody acc).scheduledInThisRound = true := by
  obtain ⟨_, e⟩ | ⟨key, rest, hq, ⟨_, e⟩ | ⟨_, e⟩ | ⟨group, _, _, _, e⟩⟩ := startBody_cases acc <;>
    rw [e]
  all_goals exact h

theorem startRound_scheduled : ∀ (n : Nat) (acc : StartAcc), acc.scheduledInThisRound = true →
    (startRound n acc).scheduledInThisRound = true
  | 0, _, h => h
  | n + 1, acc, h => startRound_scheduled n _ (startBody_scheduled acc h)

/-- A round that starts nothing leaves exactly keys that are blocked: each key of the round was
examined once, under the same `active` and `groups`. -/
theorem startRound_unscheduled : ∀ (todo kept : List UniqueId) (acc : StartAcc),
    acc.state.queued = todo ++ kept → (∀ k ∈ kept, Blocked acc.state k) →
    (startRound todo.length acc).scheduledInThisRound = false →
    ∀ k ∈ (startRound todo.length acc).state.queued, Blocked (startRound todo.length acc).state k
  | [], kept, acc, hq, hk, _ => by
    simp only [List.nil_append] at hq
    rw [List.length_nil, startRound, hq]
    exact hk
  | key :: todo, kept, acc, hq, hk, hs => by
    simp only [List.length_cons, startRound] at hs ⊢
    obtain ⟨h0, _⟩ | ⟨key', rest, hq', hcase⟩ := startBody_cases acc
    · rw [hq] at h0; cases h0
    rw [hq, List.cons_append] at hq'
    obtain ⟨rfl, rfl⟩ := List.cons.inj hq'
    obtain ⟨_, h⟩ | ⟨hb, h⟩ | ⟨group, _, _, _, h⟩ := hcase
    · rw [h] at hs ⊢
      exact startRound_unscheduled todo kept _ rfl hk hs
    · rw [h] at hs ⊢
      refine startRound_unscheduled todo (kept ++ [key]) _
        (by simp [SchedulerState.dequeue, SchedulerState.pushBack]) (fun k hm => ?_) hs
      rcases List.mem_append.1 hm with hm | hm
      · exact hk k hm
      · rw [List.mem_singleton.1 hm]; exact hb
    · rw [startRound_scheduled _ _ (by rw [h])] at hs
      cases hs

theorem startLoop_blocked : ∀ (fuel : Nat) (acc acc' : StartAcc), startLoop fuel acc = some acc' →
    ∀ k ∈ acc'.state.queued, Blocked acc'.state k
  | 0, _, _, h => by cases h
  | fuel + 1, acc, acc', h => by
    unfold startLoop at h
    split at h
    · rename_i h0
      cases h
      rw [List.length_eq_zero_iff.1 h0]
      exact fun _ hk => absurd hk List.not_mem_nil
    · split at h
      · exact startLoop_blocked fuel _ _ h
      · rename_i _ hs
        cases h
        exact startRound_unscheduled acc.state.queued [] { acc with scheduledInThisRound := false }
          (List.append_nil _).symm (fun _ hk => absurd hk List.not_mem_nil) (Bool.not_eq_true _ ▸ hs)

/-- **On return every queued key waits for a slot of its direction.** -/
theorem tryStartNext_blocked (state : SchedulerState) :
    ∀ k ∈ (tryStartNext state).state.queued, Blocked (tryStartNext state).state k :=
  startLoop_blocked _ _ _ (startLoop_tryStartNext state)

/-! ## What it leaves alone -/

/-- The fields `try_start_next` never writes. -/
structure SameTasks (state state' : SchedulerState) : Prop where
  groups : state'.groups = state.groups
  taskIdToDedupe : state'.taskIdToDedupe = state.taskIdToDedupe
  pausedSet : state'.pausedSet = state.pausedSet
  offsets : state'.offsets = state.offsets
  listeners : state'.globalProgressListener = state.globalProgressListener
  limits : ∀ d, state'.maxConcurrency d = state.maxConcurrency d

theorem SameTasks.rfl {state : SchedulerState} : SameTasks state state :=
  ⟨by rfl, by rfl, by rfl, by rfl, by rfl, fun _ => by rfl⟩

section
variable {state st : SchedulerState}

theorem SameTasks.dequeue (h : SameTasks state st) (key : UniqueId) (rest : List UniqueId) :
    SameTasks state (st.dequeue key rest) :=
  ⟨h.groups, h.taskIdToDedupe, h.pausedSet, h.offsets, h.listeners, h.limits⟩

theorem SameTasks.pushBack (h : SameTasks state st) (key : UniqueId) : SameTasks state (st.pushBack key) :=
  ⟨h.groups, h.taskIdToDedupe, h.pausedSet, h.offsets, h.listeners, h.limits⟩

theorem SameTasks.activate (h : SameTasks state st) (key : UniqueId) : SameTasks state (st.activate key) :=
  ⟨h.groups, h.taskIdToDedupe, h.pausedSet, h.offsets, h.listeners, h.limits⟩

end

theorem tryStartNext_same (state : SchedulerState) : SameTasks state (tryStartNext state).state := by
  refine tryStartNext_induct (P := fun st _ => SameTasks state st) .rfl ?_ ?_ ?_
  · intro st es key rest h _ _
    exact h.dequeue key rest
  · intro st es key rest h _ _
    exact (h.dequeue key rest).pushBack key
  · intro st es key rest group h _ _ _ _
    exact (h.dequeue key rest).activate key

end SpottedCat
