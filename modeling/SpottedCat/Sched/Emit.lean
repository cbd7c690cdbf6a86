import Mathlib.Data.Rat.Init
import SpottedCat.Data.Task

/-!
# Commands, effects and status emission (`executor.rs:17-46`, `exec_impl/emit.rs`)

A scheduler function returns the new state together with what it did to the rest of the program, in
order: callbacks invoked, tokens cancelled, `run_group` tasks spawned, commands answered. A callback
that panics is caught (`emit.rs:10`), so an invocation never changes the scheduler.
-/

namespace SpottedCat

/-- executor.rs:17. `close` carries the order in which the hash maps `active` and `groups` iterate;
the `respond_to` channel of a command is the command itself. -/
inductive TransferCmd where
  | enqueue (inner : InnerTask) (callbacks : TaskCallbacks)
  | pause (taskId : TaskId)
  | resume (taskId : TaskId)
  | cancel (taskId : TaskId)
  | snapshot
  | close (activeOrder groupOrder : List UniqueId)
deriving DecidableEq, Repr

/-- transfer_snapshot.rs:4; `active_keys` lists a hash map's keys, in no particular order. -/
structure TransferSnapshot where
  queuedGroups : Nat
  activeGroups : Nat
  activeKeys : Finset UniqueId
deriving DecidableEq

inductive Effect where
  /-- A task's own callback is called. -/
  | invoke (cb : ProgressCb) (dto : FileTransferRecord)
  /-- A global listener is called. -/
  | broadcast (listener : GlobalProgressListenerId) (cb : ProgressCb) (dto : FileTransferRecord)
  /-- `token.cancel()` -/
  | cancel (token : CancellationToken)
  /-- `tokio::spawn` of `run_group` and its panic wrapper. -/
  | spawn (key : UniqueId) (inner : InnerTask) (cancel : CancellationToken) (startOffset : Nat)
  /-- `respond_to.send(ret)` of a control command. -/
  | respond (cmd : TransferCmd) (ret : Except MeowError Unit)
  | respondSnapshot (snapshot : TransferSnapshot)
deriving DecidableEq

/-- `transferred / total`, `0` when the total is unknown (emit.rs:63-67, executor.rs:729-733). -/
def progressOf (transferred total : Nat) : ℚ :=
  if total = 0 then 0 else (transferred : ℚ) / total

/-- executor.rs:723; `emit_status` builds its record the same way (emit.rs:57-70). -/
def toRecordInner (inner : InnerTask) (status : TransferStatus) (transferred fileSize : Nat) :
    FileTransferRecord where
  taskId := inner.taskId
  fileSign := inner.fileSign
  fileName := inner.fileName
  totalSize := fileSize
  progress := progressOf transferred fileSize
  status := status
  direction := inner.direction

/-- emit.rs:8, for the callback of an enqueue call. -/
def invokeProgressCb (callbacks : TaskCallbacks) (dto : FileTransferRecord) : List Effect :=
  match callbacks.progressCb with
  | some cb => [.invoke cb dto]
  | none => []

/-- emit.rs:19 -/
def emitGlobalProgress (state : SchedulerState) (dto : FileTransferRecord) : List Effect :=
  state.globalProgressListener.map fun (id, cb) => .broadcast id cb dto

/-- emit.rs:42 -/
def emitStatus (state : SchedulerState) (entry : RecordEntry) (status : TransferStatus)
    (transferred total : Nat) : List Effect :=
  let dto := toRecordInner entry.inner status transferred total
  invokeProgressCb entry.callbacks dto ++ emitGlobalProgress state dto

/-- The record an effect hands to a listener, if it is a notification. -/
def Effect.record : Effect → Option FileTransferRecord
  | .invoke _ dto | .broadcast _ _ dto => some dto
  | _ => none

/-- The statuses delivered to one task callback, in order. -/
def statusesTo (cb : ProgressCb) (es : List Effect) : List TransferStatus :=
  es.filterMap fun
    | .invoke cb' dto => if cb' = cb then some dto.status else none
    | _ => none

@[simp] theorem statusesTo_nil (cb : ProgressCb) : statusesTo cb [] = [] := rfl

@[simp] theorem statusesTo_append (cb : ProgressCb) (es es' : List Effect) :
    statusesTo cb (es ++ es') = statusesTo cb es ++ statusesTo cb es' := by
  simp [statusesTo]

@[simp] theorem statusesTo_respond (cb : ProgressCb) (es : List Effect) (cmd : TransferCmd)
    (ret : Except MeowError Unit) : statusesTo cb (es ++ [.respond cmd ret]) = statusesTo cb es := by
  rw [statusesTo_append]
  exact List.append_nil _

/-- What is not a call of a task callback delivers nothing to one. -/
theorem statusesTo_of_not_invoke {cb : ProgressCb} {es : List Effect}
    (h : ∀ e ∈ es, ∀ dto, e ≠ .invoke cb dto) : statusesTo cb es = [] := by
  rw [statusesTo, List.filterMap_eq_nil_iff]
  intro e he
  cases e with
  | invoke cb' dto =>
    have hne : cb' ≠ cb := fun hc => h _ he dto (hc ▸ rfl)
    simp [hne]
  | _ => rfl

theorem mem_emitGlobalProgress {state : SchedulerState} {dto : FileTransferRecord} {e : Effect}
    (h : e ∈ emitGlobalProgress state dto) : ∃ id cb, e = .broadcast id cb dto := by
  simp only [emitGlobalProgress, List.mem_map] at h
  obtain ⟨⟨id, cb⟩, _, rfl⟩ := h
  exact ⟨id, cb, rfl⟩

/-- A notification hands the one record to the callback and to the listeners. -/
theorem mem_notify {callbacks : TaskCallbacks} {state : SchedulerState} {dto : FileTransferRecord}
    {e : Effect} (h : e ∈ invokeProgressCb callbacks dto ++ emitGlobalProgress state dto) :
    e.record = some dto := by
  rcases List.mem_append.1 h with h | h
  · unfold invokeProgressCb at h
    split at h
    · simp only [List.mem_singleton] at h; subst h; rfl
    · cases h
  · obtain ⟨id, cb, rfl⟩ := mem_emitGlobalProgress h
    rfl

/-- **Everything `emit_status` does** is such a notification. -/
theorem mem_emitStatus {state : SchedulerState} {entry : RecordEntry} {status : TransferStatus}
    {transferred total : Nat} {e : Effect} (h : e ∈ emitStatus state entry status transferred total) :
    e.record = some (toRecordInner entry.inner status transferred total) :=
  mem_notify h

theorem statusesTo_emitStatus (cb : ProgressCb) (state : SchedulerState) (entry : RecordEntry)
    (status : TransferStatus) (transferred total : Nat) :
    statusesTo cb (emitStatus state entry status transferred total) =
      if entry.callbacks.progressCb = some cb then [status] else [] := by
  have hglobal : statusesTo cb (emitGlobalProgress state
      (toRecordInner entry.inner status transferred total)) = [] := by
    refine statusesTo_of_not_invoke fun e he dto heq => ?_
    obtain ⟨id, cb', rfl⟩ := mem_emitGlobalProgress he
    cases heq
  rw [emitStatus, statusesTo_append, hglobal, List.append_nil, invokeProgressCb]
  cases entry.callbacks.progressCb with
  | none => rfl
  | some cb' => by_cases h : cb' = cb <;> simp [statusesTo, h, toRecordInner]

end SpottedCat
