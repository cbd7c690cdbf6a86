import Mathlib.Data.Rat.Defs
import SpottedCat.Data.Error
import SpottedCat.Lib.Table

/-!
# Tasks, groups, events and the scheduler state

| here | there |
| --- | --- |
| `UniqueId`          | `(Direction, String)`, the dedupe key (`inner/mod.rs:4`) |
| `InnerTask`         | `inner/inner_task.rs:18`; the fields only handed on to `reqwest` (method, headers, client, `Accept`) are left out |
| `ProgressCb`        | the identity of one `Arc<dyn Fn(FileTransferRecord)>` (`inner/task_callbacks.rs:4`) |
| `CancellationToken` | the identity of one `tokio_util` token; its flag is kept by whoever holds the worker |
| `SchedulerState`    | `inner/scheduler_state.rs:11`; hash maps are `Table`s, hash sets `Finset`s |
| `WorkerEvent`       | `inner/worker_event.rs:6` |

`progress` is the exact quotient; the source rounds it to `f32`.
-/

namespace SpottedCat

/-- direction.rs:2 -/
inductive Direction where
  | upload
  | download
deriving DecidableEq, Repr

/-- A v4 uuid (ids.rs:7). -/
structure TaskId where
  uuid : BitVec 128
deriving DecidableEq, Repr

/-- ids.rs:23 -/
structure GlobalProgressListenerId where
  uuid : BitVec 128
deriving DecidableEq, Repr

/-- `{:?}` of a `TaskId` (ids.rs:15): hyphenated lower-case hex. -/
def TaskId.debug (id : TaskId) : String :=
  let hex := id.uuid.toHex.toList
  let part (start len : Nat) := String.ofList ((hex.drop start).take len)
  s!"{part 0 8}-{part 8 4}-{part 12 4}-{part 16 4}-{part 20 12}"

abbrev UniqueId := Direction × String

/-- What the source reads off a `PathBuf`: its `display()` and its `parent()`. -/
structure PathBuf where
  display : String
  parent : Option String
deriving DecidableEq, Repr

structure InnerTask where
  taskId : TaskId
  fileSign : String
  fileName : String
  filePath : PathBuf
  direction : Direction
  totalSize : Nat
  chunkSize : Nat
  url : String
  maxChunkRetries : Nat
deriving DecidableEq, Repr

/-- inner_task.rs:151 -/
def InnerTask.dedupeKey (inner : InnerTask) : UniqueId :=
  match inner.direction with
  | .upload => (.upload, inner.fileSign)
  | .download => (.download, inner.url)

/-- transfer_status.rs:4 -/
inductive TransferStatus where
  | none
  | pending
  | transmission
  | paused
  | complete
  | failed (error : MeowError)
  | canceled
deriving DecidableEq, Repr

/-- The three statuses that end a task. -/
def TransferStatus.terminal : TransferStatus → Bool
  | .complete | .failed _ | .canceled => true
  | _ => false

/-- file_transfer_record.rs:6 -/
structure FileTransferRecord where
  taskId : TaskId
  fileSign : String
  fileName : String
  totalSize : Nat
  progress : ℚ
  status : TransferStatus
  direction : Direction
deriving DecidableEq

/-- One closure object; `MeowClient::enqueue` makes a new one per call (meow_client.rs:175). -/
structure ProgressCb where
  call : Nat
deriving DecidableEq, Repr

/-- task_callbacks.rs:6 -/
structure TaskCallbacks where
  progressCb : Option ProgressCb
deriving DecidableEq, Repr

/-- group_state.rs:4 -/
structure RecordEntry where
  inner : InnerTask
  callbacks : TaskCallbacks
deriving DecidableEq, Repr

/-- group_state.rs:23 -/
structure GroupState where
  leaderInner : InnerTask
  entry : RecordEntry
deriving DecidableEq, Repr

structure CancellationToken where
  id : Nat
deriving DecidableEq, Repr

/-- active_state.rs:4 -/
structure ActiveState where
  cancel : CancellationToken
deriving DecidableEq, Repr

inductive WorkerEvent where
  | progress (key : UniqueId) (nextOffset totalSize : Nat)
  | completed (key : UniqueId) (totalSize : Nat)
  | failed (key : UniqueId) (error : MeowError)
  | canceled (key : UniqueId)
deriving DecidableEq, Repr

def WorkerEvent.key : WorkerEvent → UniqueId
  | .progress key _ _ | .completed key _ | .failed key _ | .canceled key => key

/-- Every event but `Progress` is the last one of its worker. -/
def WorkerEvent.terminal : WorkerEvent → Bool
  | .progress .. => false
  | _ => true

structure SchedulerState where
  maxUploadConcurrency : Nat
  maxDownloadConcurrency : Nat
  globalProgressListener : List (GlobalProgressListenerId × ProgressCb)
  groups : Table UniqueId GroupState
  taskIdToDedupe : Table TaskId UniqueId
  queued : List UniqueId
  queuedSet : Finset UniqueId
  pausedSet : Finset UniqueId
  active : Table UniqueId ActiveState
  offsets : Table UniqueId Nat
  /-- Number of `CancellationToken::new()` calls so far: names the next token. -/
  nextToken : Nat
deriving DecidableEq

/-- scheduler_state.rs:36 -/
def SchedulerState.new (maxUploadConcurrency maxDownloadConcurrency : Nat)
    (globalProgressListener : List (GlobalProgressListenerId × ProgressCb)) : SchedulerState where
  maxUploadConcurrency := maxUploadConcurrency
  maxDownloadConcurrency := maxDownloadConcurrency
  globalProgressListener := globalProgressListener
  groups := ∅
  taskIdToDedupe := ∅
  queued := []
  queuedSet := ∅
  pausedSet := ∅
  active := ∅
  offsets := ∅
  nextToken := 0

/-- `state.offsets().get(key).copied().unwrap_or(0)` -/
def SchedulerState.current (state : SchedulerState) (key : UniqueId) : Nat :=
  (state.offsets.lookup key).getD 0

def SchedulerState.maxConcurrency (state : SchedulerState) : Direction → Nat
  | .upload => state.maxUploadConcurrency
  | .download => state.maxDownloadConcurrency

/-- The active keys of one direction (exec.rs:132-136). -/
def SchedulerState.activeCount (state : SchedulerState) (direction : Direction) : Nat :=
  (state.active.keys.filter fun k => k.1 = direction).card

end SpottedCat
