import SpottedCat.Sched.TryStartNext

/-!
# The handlers that edit the scheduler state

| here | there |
| --- | --- |
| `cancelActive`      | `active.cancel().cancel()` if the key is active: executor.rs:354-358, :464-466 |
| `groupStatus`       | `emit_status` if the key has a group: executor.rs:366-377, :472-485, handle_worker_event.rs:21-29, :42-53, :61-73, :88-100 |
| `removeGroup`       | `groups.remove(key)` and the leader's id mapping: executor.rs:472-476, handle_worker_event.rs:42-45, :61-64, :88-91 |
| `pauseGroup`, `resumeGroup`, `cancelGroup` | executor.rs:344, :387, :454 |
| `handleWorkerEvent` | handle_worker_event.rs:6 |

A status is emitted from the group as it was before its removal; only the listeners are read off the
state, and no handler edits them. No handler calls `try_start_next`; the loop does (`Loop.lean`).
-/

namespace SpottedCat

def cancelActive (state : SchedulerState) (key : UniqueId) : List Effect :=
  match state.active.lookup key with
  | some active => [.cancel active.cancel]
  | none => []

/-- `total` is read off the group. -/
def groupStatus (state : SchedulerState) (key : UniqueId) (status : TransferStatus)
    (transferred : Nat) (total : GroupState → Nat) : List Effect :=
  match state.groups.lookup key with
  | some group => emitStatus state group.entry status transferred (total group)
  | none => []

/-- `group.entry().inner().total_size()` -/
def GroupState.ownTotal (group : GroupState) : Nat := group.entry.inner.totalSize

namespace SchedulerState

def removeGroup (state : SchedulerState) (key : UniqueId) : SchedulerState :=
  match state.groups.lookup key with
  | some group => { state with
      groups := state.groups.erase key
      taskIdToDedupe := state.taskIdToDedupe.erase group.leaderInner.taskId }
  | none => state

/-- executor.rs:360-364 -/
def markPaused (state : SchedulerState) (key : UniqueId) : SchedulerState :=
  { state with
    queued := state.queued.filter fun k => k ≠ key
    queuedSet := state.queuedSet.erase key
    pausedSet := insert key state.pausedSet }

def unmarkPaused (state : SchedulerState) (key : UniqueId) : SchedulerState :=
  { state with pausedSet := state.pausedSet.erase key }

/-- executor.rs:464-471 -/
def withdraw (state : SchedulerState) (key : UniqueId) : SchedulerState :=
  { state with
    active := state.active.erase key
    queued := state.queued.filter fun k => k ≠ key
    queuedSet := state.queuedSet.erase key
    pausedSet := state.pausedSet.erase key }

/-- handle_worker_event.rs:38-40, :58-60 -/
def deactivate (state : SchedulerState) (key : UniqueId) : SchedulerState :=
  { state with active := state.active.erase key, pausedSet := state.pausedSet.erase key }

def setOffset (state : SchedulerState) (key : UniqueId) (offset : Nat) : SchedulerState :=
  { state with offsets := state.offsets.insert key offset }

def dropOffset (state : SchedulerState) (key : UniqueId) : SchedulerState :=
  { state with offsets := state.offsets.erase key }

end SchedulerState

/-- executor.rs:344. The token is cancelled but the key stays in `active` until the worker's
`Canceled` event arrives. -/
def pauseGroup (state : SchedulerState) (key : UniqueId) : SchedulerState × List Effect :=
  (state.markPaused key,
    cancelActive state key ++
      groupStatus state key .paused (state.current key) GroupState.ownTotal)

/-- executor.rs:399-402 -/
def notPausedError : MeowError := .fromCode .invalidTaskState "resume target is not paused"

/-- executor.rs:411-414 -/
def stillStoppingError : MeowError :=
  .fromCode .invalidTaskState "resume target is still stopping, retry later"

/-- executor.rs:425-428 -/
def groupMissingError : MeowError := .fromCode .invalidTaskState "resume target group missing"

/-- executor.rs:387 -/
def resumeGroup (state : SchedulerState) (key : UniqueId) :
    Except MeowError Unit × SchedulerState × List Effect :=
  if key ∉ state.pausedSet then (.error notPausedError, state, [])
  else if key ∈ state.active then (.error stillStoppingError, state, [])
  else if key ∉ state.groups then (.error groupMissingError, state.unmarkPaused key, [])
  else
    (.ok (),
      -- the second look at `active` (executor.rs:440) finds what the first did
      if key ∉ state.active ∧ key ∉ state.queuedSet then (state.unmarkPaused key).pushBack key
      else state.unmarkPaused key,
      groupStatus state key .pending (state.current key) GroupState.ownTotal)

/-- executor.rs:454. Unlike a pause it drops the key from `active` at once, and it leaves the key's
offset in place. -/
def cancelGroup (state : SchedulerState) (key : UniqueId) : SchedulerState × List Effect :=
  ((state.withdraw key).removeGroup key,
    cancelActive state key ++
      groupStatus state key .canceled (state.current key) GroupState.ownTotal)

/-- handle_worker_event.rs:6. `Completed` also stores the total as the offset (:41) before it drops
the offset again (:54). -/
def handleWorkerEvent (state : SchedulerState) : WorkerEvent → SchedulerState × List Effect
  | .progress key nextOffset totalSize =>
    (state.setOffset key nextOffset,
      groupStatus state key .transmission nextOffset fun _ => totalSize)
  | .completed key totalSize =>
    ((((state.deactivate key).setOffset key totalSize).removeGroup key).dropOffset key,
      groupStatus state key .complete totalSize fun _ => totalSize)
  | .failed key error =>
    (((state.deactivate key).removeGroup key).dropOffset key,
      groupStatus state key (.failed error) (state.current key) GroupState.ownTotal)
  | .canceled key =>
    -- a `Canceled` out of a pause: the group stays for `resume`
    if key ∈ state.pausedSet then ({ state with active := state.active.erase key }, [])
    else
      ((({ state with active := state.active.erase key }).removeGroup key).dropOffset key,
        groupStatus state key .canceled (state.current key) GroupState.ownTotal)

/-! ## `removeGroup` field by field -/

namespace SchedulerState

variable (state : SchedulerState) (key : UniqueId)

@[simp] theorem removeGroup_active : (state.removeGroup key).active = state.active := by
  unfold removeGroup; split <;> rfl

@[simp] theorem removeGroup_queued : (state.removeGroup key).queued = state.queued := by
  unfold removeGroup; split <;> rfl

@[simp] theorem removeGroup_queuedSet : (state.removeGroup key).queuedSet = state.queuedSet := by
  unfold removeGroup; split <;> rfl

@[simp] theorem removeGroup_pausedSet : (state.removeGroup key).pausedSet = state.pausedSet := by
  unfold removeGroup; split <;> rfl

@[simp] theorem removeGroup_offsets : (state.removeGroup key).offsets = state.offsets := by
  unfold removeGroup; split <;> rfl

@[simp] theorem removeGroup_nextToken : (state.removeGroup key).nextToken = state.nextToken := by
  unfold removeGroup; split <;> rfl

@[simp] theorem removeGroup_limits (d : Direction) :
    (state.removeGroup key).maxConcurrency d = state.maxConcurrency d := by
  unfold removeGroup; split <;> rfl

@[simp] theorem removeGroup_groups : (state.removeGroup key).groups = state.groups.erase key := by
  unfold removeGroup
  split
  · rfl
  · rename_i h
    refine Finmap.ext_lookup fun k => ?_
    rw [Table.lookup_erase_ite]
    split
    · rename_i hk; rw [hk, h]
    · rfl

/-- **The id mapping goes with the group.** -/
theorem removeGroup_taskIdToDedupe : (state.removeGroup key).taskIdToDedupe =
    match state.groups.lookup key with
    | some group => state.taskIdToDedupe.erase group.leaderInner.taskId
    | none => state.taskIdToDedupe := by
  unfold removeGroup; split <;> rfl

end SchedulerState

/-! ## What a status emission delivers -/

/-- **The only notifications are those of the key's own group.** -/
theorem mem_groupStatus {state : SchedulerState} {key : UniqueId} {status : TransferStatus}
    {transferred : Nat} {total : GroupState → Nat} {e : Effect}
    (h : e ∈ groupStatus state key status transferred total) :
    ∃ group, state.groups.lookup key = some group ∧
      e.record = some (toRecordInner group.entry.inner status transferred (total group)) := by
  unfold groupStatus at h
  split at h
  · rename_i group hg
    exact ⟨group, hg, mem_emitStatus h⟩
  · cases h

theorem mem_cancelActive {state : SchedulerState} {key : UniqueId} {e : Effect}
    (h : e ∈ cancelActive state key) :
    ∃ active, state.active.lookup key = some active ∧ e = .cancel active.cancel := by
  unfold cancelActive at h
  split at h
  · rename_i active ha
    exact ⟨active, ha, List.mem_singleton.1 h⟩
  · cases h

theorem statusesTo_groupStatus (cb : ProgressCb) (state : SchedulerState) (key : UniqueId)
    (status : TransferStatus) (transferred : Nat) (total : GroupState → Nat) :
    statusesTo cb (groupStatus state key status transferred total) =
      match state.groups.lookup key with
      | some group => if group.entry.callbacks.progressCb = some cb then [status] else []
      | none => [] := by
  unfold groupStatus
  split
  · exact statusesTo_emitStatus ..
  · rfl

@[simp] theorem statusesTo_cancelActive (cb : ProgressCb) (state : SchedulerState) (key : UniqueId) :
    statusesTo cb (cancelActive state key) = [] := by
  refine statusesTo_of_not_invoke fun e he dto => ?_
  obtain ⟨_, _, rfl⟩ := mem_cancelActive he
  simp

end SpottedCat
