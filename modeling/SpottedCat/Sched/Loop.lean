import SpottedCat.Lib.Run
import SpottedCat.Sched.Handlers

/-!
# The scheduler loop (`executor.rs:48-326`)

`react` is one iteration of `worker_loop` on a command or a worker event, `try_start_next` included.
`Loop` adds what its runs need: the ids of the `Enqueue` commands received so far (every task draws
a new one, `TaskId::new_v4`), everything the loop has done, and whether `Close` has ended it.

Here the worker events are arbitrary; `Joint` couples the loop with the workers that send them.
-/

namespace SpottedCat

/-- executor.rs:495 -/
def taskNotFoundError (taskId : TaskId) : MeowError :=
  .fromCode .taskNotFound s!"task not found: {taskId.debug}"

/-- executor.rs:84-90 -/
def duplicateRecord (leader : InnerTask) : FileTransferRecord :=
  toRecordInner leader (.failed (.fromCode1 .duplicateTaskError)) 0 leader.totalSize

/-- executor.rs:109-118: the id mapping and the group of an accepted task. -/
def insertTask (state : SchedulerState) (inner : InnerTask) (callbacks : TaskCallbacks) :
    SchedulerState :=
  { state with
    taskIdToDedupe := state.taskIdToDedupe.insert inner.taskId inner.dedupeKey
    groups := state.groups.insert inner.dedupeKey ⟨inner, ⟨inner, callbacks⟩⟩ }

/-- executor.rs:109-149: the accepted `Enqueue`, up to `try_start_next`. -/
def acceptTask (state : SchedulerState) (inner : InnerTask) (callbacks : TaskCallbacks) :
    SchedulerState × List Effect :=
  let key := inner.dedupeKey
  let shouldSendRunning := key ∈ state.active
  let state := insertTask state inner callbacks
  let status (s : TransferStatus) :=
    emitStatus state ⟨inner, callbacks⟩ s (state.current key) inner.totalSize
  let es := status .pending ++ if shouldSendRunning then status .transmission else []
  (if key ∉ state.active ∧ key ∉ state.queuedSet then state.pushBack key else state, es)

/-- executor.rs:274-303 -/
def closeAll (state : SchedulerState) (activeOrder groupOrder : List UniqueId) :
    SchedulerState × List Effect :=
  ({ state with
      active := ∅, groups := ∅, taskIdToDedupe := ∅, queued := [], queuedSet := ∅, pausedSet := ∅
      offsets := ∅ },
    activeOrder.flatMap (cancelActive state) ++
      groupOrder.flatMap fun key =>
        groupStatus state key .paused (state.current key) GroupState.ownTotal)

/-- `Close` cancels tokens and reports groups as paused, nothing else. -/
theorem mem_closeAll {state : SchedulerState} {activeOrder groupOrder : List UniqueId} {e : Effect}
    (h : e ∈ (closeAll state activeOrder groupOrder).2) : (∃ key, e ∈ cancelActive state key) ∨
      ∃ key, e ∈ groupStatus state key .paused (state.current key) GroupState.ownTotal := by
  rcases List.mem_append.1 h with hcancel | hstatus
  · obtain ⟨key, _, he⟩ := List.mem_flatMap.1 hcancel
    exact .inl ⟨key, he⟩
  · obtain ⟨key, _, he⟩ := List.mem_flatMap.1 hstatus
    exact .inr ⟨key, he⟩

/-- The trailing `try_start_next` of an iteration. -/
def thenStart : SchedulerState × List Effect → SchedulerState × List Effect
  | (state, es) => ((tryStartNext state).state, es ++ (tryStartNext state).effects)

/-- executor.rs:71-307. A duplicate `Enqueue`, `Snapshot` and `Close` skip `try_start_next`. -/
def handleCmd (state : SchedulerState) (cmd : TransferCmd) : SchedulerState × List Effect :=
  match cmd with
  | .enqueue inner callbacks =>
    match state.groups.lookup inner.dedupeKey with
    | some existing =>
      let dup := duplicateRecord existing.leaderInner
      (state, invokeProgressCb callbacks dup ++ emitGlobalProgress state dup)
    | none => thenStart (acceptTask state inner callbacks)
  | .pause taskId =>
    match state.taskIdToDedupe.lookup taskId with
    | some key =>
      thenStart ((pauseGroup state key).1, (pauseGroup state key).2 ++ [.respond cmd (.ok ())])
    | none => thenStart (state, [.respond cmd (.error (taskNotFoundError taskId))])
  | .resume taskId =>
    match state.taskIdToDedupe.lookup taskId with
    | some key =>
      let (ret, state, es) := resumeGroup state key
      thenStart (state, es ++ [.respond cmd ret])
    | none => thenStart (state, [.respond cmd (.error (taskNotFoundError taskId))])
  | .cancel taskId =>
    match state.taskIdToDedupe.lookup taskId with
    | some key =>
      thenStart ((cancelGroup state key).1, (cancelGroup state key).2 ++ [.respond cmd (.ok ())])
    | none => thenStart (state, [.respond cmd (.error (taskNotFoundError taskId))])
  | .snapshot =>
    (state, [.respondSnapshot ⟨state.queued.length, state.active.keys.card, state.active.keys⟩])
  | .close activeOrder groupOrder =>
    ((closeAll state activeOrder groupOrder).1,
      (closeAll state activeOrder groupOrder).2 ++ [.respond cmd (.ok ())])

/-- The client's edits of the shared listener list (meow_client.rs:90-146). -/
inductive ListenerOp where
  | register (id : GlobalProgressListenerId) (cb : ProgressCb)
  | unregister (id : GlobalProgressListenerId)
  | clear
deriving DecidableEq, Repr

def ListenerOp.apply (ls : List (GlobalProgressListenerId × ProgressCb)) :
    ListenerOp → List (GlobalProgressListenerId × ProgressCb)
  | .register id cb => ls ++ [(id, cb)]
  | .unregister id => ls.eraseP fun l => l.1 = id
  | .clear => []

inductive LoopInput where
  | cmd (cmd : TransferCmd)
  | event (event : WorkerEvent)
  | listen (op : ListenerOp)
deriving DecidableEq, Repr

/-- One iteration of the loop, or an edit of the listener list between two. -/
def react (state : SchedulerState) : LoopInput → SchedulerState × List Effect
  | .cmd cmd => handleCmd state cmd
  | .event event => thenStart (handleWorkerEvent state event)
  | .listen op => ({ state with globalProgressListener := op.apply state.globalProgressListener }, [])

structure Loop where
  state : SchedulerState
  /-- Task ids of all `Enqueue` commands so far. -/
  issued : List TaskId
  /-- Everything done so far, oldest first. -/
  log : List Effect
  closed : Bool

def Loop.init (maxUpload maxDownload : Nat) : Loop := ⟨.new maxUpload maxDownload [], [], [], false⟩

/-- The commands that can arrive: an `Enqueue` brings a new id, and the orders of a `Close` are
orders of the two hash maps. -/
def TransferCmd.Arrives (loop : Loop) : TransferCmd → Prop
  | .enqueue inner _ => inner.taskId ∉ loop.issued
  | .close activeOrder groupOrder =>
    (activeOrder.Nodup ∧ activeOrder.toFinset = loop.state.active.keys) ∧
      groupOrder.Nodup ∧ groupOrder.toFinset = loop.state.groups.keys
  | _ => True

instance (loop : Loop) (cmd : TransferCmd) : Decidable (cmd.Arrives loop) := by
  cases cmd <;> unfold TransferCmd.Arrives <;> infer_instance

def LoopInput.Arrives (loop : Loop) : LoopInput → Prop
  | .cmd c => c.Arrives loop
  | _ => True

instance (loop : Loop) (input : LoopInput) : Decidable (input.Arrives loop) := by
  cases input <;> unfold LoopInput.Arrives <;> infer_instance

/-- The id an input adds to `issued`. -/
def LoopInput.issues : LoopInput → List TaskId
  | .cmd (.enqueue inner _) => [inner.taskId]
  | _ => []

theorem LoopInput.Arrives.fresh {loop : Loop} {input : LoopInput} (h : input.Arrives loop) :
    ∀ id ∈ input.issues, id ∉ loop.issued := by
  intro id hid
  unfold LoopInput.issues at hid
  split at hid
  · rw [List.mem_singleton.1 hid]
    exact h
  · cases hid

/-- Only `Close` leaves the loop (executor.rs:305). -/
def LoopInput.closes : LoopInput → Bool
  | .cmd (.close ..) => true
  | _ => false

def Loop.step (loop : Loop) (input : LoopInput) : Option Loop :=
  if loop.closed = false ∧ input.Arrives loop then
    some ⟨(react loop.state input).1, loop.issued ++ input.issues,
      loop.log ++ (react loop.state input).2, input.closes⟩
  else none

theorem Loop.step_eq_some {loop loop' : Loop} {input : LoopInput} :
    loop.step input = some loop' ↔ loop.closed = false ∧ input.Arrives loop ∧
      loop' = ⟨(react loop.state input).1, loop.issued ++ input.issues,
        loop.log ++ (react loop.state input).2, input.closes⟩ := by
  unfold Loop.step
  split
  · rename_i h; simp [h.1, h.2, eq_comm]
  · rename_i h
    simp only [reduceCtorEq, false_iff]
    rintro ⟨h1, h2, _⟩; exact h ⟨h1, h2⟩

/-- A scheduler state at an iteration boundary of some run. -/
def Loop.Reachable (loop : Loop) : Prop :=
  ∃ maxUpload maxDownload inputs, Lts.run Loop.step (.init maxUpload maxDownload) inputs = some loop

/-- A download of one url under the `n`-th task id, for runs on fixed inputs. -/
def sampleTask (n : BitVec 128) : InnerTask where
  taskId := ⟨n⟩
  fileSign := "sign"
  fileName := "cat.bin"
  filePath := ⟨"cat.bin", none⟩
  direction := .download
  totalSize := 8
  chunkSize := 4
  url := "http://host/cat.bin"
  maxChunkRetries := 1

/-- Its `Enqueue`, with the callback of the `n`-th call. -/
def sampleEnqueue (n : Nat) : TransferCmd := .enqueue (sampleTask n) ⟨some ⟨n⟩⟩

end SpottedCat
