import Mathlib.Data.Set.Card
import SpottedCat.Sched.Commute

/-!
# What the scheduler is for

A board of jobs. Each job is in one of four modes, and the waiting ones stand in a line. Beside the jobs the board
keeps how far each key has come, also of keys that have no job.

| mode       | in `SchedulerState` |
| ---------- | --- |
| `waiting`  | in `queued` and `queued_set` |
| `running`  | in `active` |
| `stopping` | in `active` and `paused_set`: paused, but its worker is still there |
| `paused`   | in `paused_set` |

`Board.step` says what each input does to the board, and what is then told, answered and started. It knows nothing
of the seven collections that the loop keeps in step with each other, of its rounds over the queue, or of the
`try_start_next` that follows every handler: admission is `Admission`, and where nothing has changed there is none.

`scheduler_refines`: **in every run the loop is the board** (`SchedulerState.Shows`), and tells, answers and starts
the same, record by record and in the same order.
-/

namespace SpottedCat

open Admission

inductive Mode where
  | waiting
  | running
  | stopping
  | paused
deriving DecidableEq, Repr

/-- It takes a slot of its direction. -/
def Mode.slot : Mode → Bool
  | .running | .stopping => true
  | .waiting | .paused => false

def Mode.pause : Mode → Mode
  | .running | .stopping => .stopping
  | .waiting | .paused => .paused

structure Job where
  group : GroupState
  mode : Mode

/-- What others see of the scheduler. -/
inductive Output where
  | told (cb : ProgressCb) (dto : FileTransferRecord)
  /-- The id is that of the command, if it has one. -/
  | answered (id : Option TaskId) (ret : Except MeowError Unit)
  | counted (queued active : Nat) (keys : Set UniqueId)
  | started (key : UniqueId) (inner : InnerTask) (offset : Nat)

structure Board where
  job : UniqueId → Option Job
  /-- The waiting keys, first come first. -/
  line : List UniqueId
  /-- The last offset that a worker of the key has reported. -/
  offset : UniqueId → Option Nat

namespace Board

def empty : Board := ⟨fun _ => none, [], fun _ => none⟩

/-- Where a worker of the key would start. -/
def current (b : Board) (key : UniqueId) : Nat := (b.offset key).getD 0

/-- The keys that take a slot. -/
def holding (b : Board) : Set UniqueId := {k | ∃ j, b.job k = some j ∧ j.mode.slot = true}

noncomputable def free (limit : Direction → Nat) (b : Board) (d : Direction) : Nat :=
  limit d - {k ∈ b.holding | k.1 = d}.ncard

def alter (b : Board) (key : UniqueId) (f : Mode → Mode) : Board :=
  { b with job := Function.update b.job key ((b.job key).map fun j => { j with mode := f j.mode }) }

def join (b : Board) (key : UniqueId) : Board := { b with line := b.line ++ [key] }

def quit (b : Board) (key : UniqueId) : Board := { b with line := b.line.filter fun k => k ≠ key }

def add (b : Board) (inner : InnerTask) (callbacks : TaskCallbacks) : Board :=
  { b with job := Function.update b.job inner.dedupeKey (some ⟨⟨inner, ⟨inner, callbacks⟩⟩, .waiting⟩) }.join
    inner.dedupeKey

def drop (b : Board) (key : UniqueId) : Board :=
  { b with job := Function.update b.job key none }.quit key

def setOffset (b : Board) (key : UniqueId) (offset : Option Nat) : Board :=
  { b with offset := Function.update b.offset key offset }

def mode (b : Board) (key : UniqueId) : Option Mode := (b.job key).map Job.mode

open Classical in
/-- The key under which the task runs. -/
noncomputable def find (b : Board) (id : TaskId) : Option UniqueId :=
  if h : ∃ k j, b.job k = some j ∧ j.group.leaderInner.taskId = id then some h.choose else none

/-- A status of a task, told to its callback. -/
def toldTo (callbacks : TaskCallbacks) (inner : InnerTask) (status : TransferStatus) (transferred total : Nat) :
    List Output :=
  callbacks.progressCb.toList.map fun cb => .told cb (toRecordInner inner status transferred total)

/-- The total may be that of the task. -/
def tell (b : Board) (key : UniqueId) (status : TransferStatus) (transferred : Nat) (total : GroupState → Nat) :
    List Output :=
  match b.job key with
  | some j => toldTo j.group.entry.callbacks j.group.entry.inner status transferred (total j.group)
  | none => []

/-- A status, with how far the key has come. -/
def report (b : Board) (key : UniqueId) (status : TransferStatus) : List Output :=
  b.tell key status (b.current key) GroupState.ownTotal

def start (b : Board) (key : UniqueId) : List Output :=
  (b.job key).toList.map fun j => .started key j.group.leaderInner (b.current key)

noncomputable def admitted (limit : Direction → Nat) (b : Board) : List UniqueId :=
  started Prod.fst (b.free limit) b.line

/-- Who may run is told so, and runs. -/
noncomputable def refill (limit : Direction → Nat) (x : Board × List Output) : Board × List Output :=
  ({ x.1 with
      job := fun k => (x.1.job k).map fun j => if k ∈ x.1.admitted limit then { j with mode := .running } else j
      line := kept Prod.fst (x.1.free limit) x.1.line },
    x.2 ++ (x.1.admitted limit).flatMap fun k => x.1.report k .transmission ++ x.1.start k)

/-- An event about a key. -/
noncomputable def hear (limit : Direction → Nat) (b : Board) : WorkerEvent → Board × List Output
  | .progress key offset total =>
    (b.setOffset key (some offset), b.tell key .transmission offset fun _ => total)
  | .completed key total =>
    refill limit ((b.drop key).setOffset key none, b.tell key .complete total fun _ => total)
  | .failed key error => refill limit ((b.drop key).setOffset key none, b.report key (.failed error))
  | .canceled key =>
    match b.mode key with
    | some .stopping | some .paused => refill limit (b.alter key fun _ => .paused, [])
    | _ => refill limit ((b.drop key).setOffset key none, b.report key .canceled)

/-- A command. `cancel` leaves the offset of the key. -/
noncomputable def obey (limit : Direction → Nat) (b : Board) : TransferCmd → Board × List Output
  | .enqueue inner callbacks =>
    match b.job inner.dedupeKey with
    | some j =>
      (b, toldTo callbacks j.group.leaderInner (.failed (.fromCode1 .duplicateTaskError)) 0
        j.group.leaderInner.totalSize)
    | none =>
      refill limit (b.add inner callbacks,
        toldTo callbacks inner .pending (b.current inner.dedupeKey) inner.totalSize)
  | .pause id =>
    match b.find id with
    | some key => refill limit ((b.alter key Mode.pause).quit key, b.report key .paused ++ [.answered id (.ok ())])
    | none => (b, [.answered id (.error (taskNotFoundError id))])
  | .resume id =>
    match b.find id with
    | some key =>
      match b.mode key with
      | some .paused =>
        refill limit ((b.alter key fun _ => .waiting).join key, b.report key .pending ++ [.answered id (.ok ())])
      | some .stopping => (b, [.answered id (.error stillStoppingError)])
      | _ => (b, [.answered id (.error notPausedError)])
    | none => (b, [.answered id (.error (taskNotFoundError id))])
  | .cancel id =>
    match b.find id with
    | some key => refill limit (b.drop key, b.report key .canceled ++ [.answered id (.ok ())])
    | none => (b, [.answered id (.error (taskNotFoundError id))])
  | .snapshot => (b, [.counted b.line.length b.holding.ncard b.holding])
  | .close _ groupOrder => (empty, (groupOrder.flatMap fun key => b.report key .paused) ++ [.answered none (.ok ())])

noncomputable def step (limit : Direction → Nat) (b : Board) : LoopInput → Board × List Output
  | .cmd cmd => b.obey limit cmd
  | .event event => b.hear limit event
  | .listen _ => (b, [])

/-- One input after the other. -/
noncomputable def run (limit : Direction → Nat) (inputs : List LoopInput) : Board × List Output :=
  inputs.foldl (fun x input => ((x.1.step limit input).1, x.2 ++ (x.1.step limit input).2)) (empty, [])

/-- The line holds the waiting keys, no direction is above its limit, and none has a free slot while one of its
keys waits. -/
structure Orderly (limit : Direction → Nat) (b : Board) : Prop where
  nodup : b.line.Nodup
  waiting : ∀ k, k ∈ b.line ↔ b.mode k = some .waiting
  within : ∀ d, {k ∈ b.holding | k.1 = d}.ncard ≤ limit d
  full : ∀ k ∈ b.line, {k' ∈ b.holding | k'.1 = k.1}.ncard = limit k.1

end Board

/-! ## The board of a state -/

def SchedulerState.mode (s : SchedulerState) (key : UniqueId) : Mode :=
  if key ∈ s.active then (if key ∈ s.pausedSet then .stopping else .running)
  else if key ∈ s.pausedSet then .paused
  else .waiting

def SchedulerState.board (s : SchedulerState) : Board where
  job k := (s.groups.lookup k).map fun group => ⟨group, s.mode k⟩
  -- between two iterations all queued keys are runnable
  line := s.runnable
  offset := s.offsets.lookup

/-- The seven collections of the loop, read off a board; of `active` the keys. -/
structure SchedulerState.Shows (s : SchedulerState) (b : Board) : Prop where
  groups : ∀ k, s.groups.lookup k = (b.job k).map Job.group
  taskIdToDedupe : ∀ id, s.taskIdToDedupe.lookup id = b.find id
  queued : s.queued = b.line
  queuedSet : s.queuedSet = b.line.toFinset
  pausedSet : ∀ k, k ∈ s.pausedSet ↔ b.mode k = some .stopping ∨ b.mode k = some .paused
  active : ∀ k, k ∈ s.active ↔ b.mode k = some .running ∨ b.mode k = some .stopping
  offsets : ∀ k, s.offsets.lookup k = b.offset k

/-- The task that a control command names. -/
def TransferCmd.subject : TransferCmd → Option TaskId
  | .pause id | .resume id | .cancel id => some id
  | _ => none

def Effect.output : Effect → Option Output
  | .invoke cb dto => some (.told cb dto)
  | .respond cmd ret => some (.answered cmd.subject ret)
  | .respondSnapshot snapshot => some (.counted snapshot.queuedGroups snapshot.activeGroups snapshot.activeKeys)
  | .spawn key inner _ offset => some (.started key inner offset)
  | .broadcast .. | .cancel _ => none

def outputs (es : List Effect) : List Output := es.filterMap Effect.output

theorem Board.eq_of_fields {b b' : Board} (hjob : ∀ k, b.job k = b'.job k) (hline : b.line = b'.line)
    (hoffset : ∀ k, b.offset k = b'.offset k) : b = b' := by
  obtain ⟨job, line, offset⟩ := b
  obtain ⟨job', line', offset'⟩ := b'
  simp only at hjob hline hoffset
  rw [funext hjob, hline, funext hoffset]

theorem Board.setOffset_offset (b : Board) (key k : UniqueId) (offset : Option Nat) :
    (b.setOffset key offset).offset k = if k = key then offset else b.offset k :=
  Function.update_apply _ _ _ _

section
variable {s : SchedulerState} {key : UniqueId}

@[simp] theorem outputs_append (es es' : List Effect) : outputs (es ++ es') = outputs es ++ outputs es' :=
  List.filterMap_append ..

@[simp] theorem outputs_respond (cmd : TransferCmd) (ret : Except MeowError Unit) :
    outputs [.respond cmd ret] = [.answered cmd.subject ret] := rfl

theorem board_job (s : SchedulerState) (k : UniqueId) :
    s.board.job k = (s.groups.lookup k).map fun group => ⟨group, s.mode k⟩ := rfl

theorem outputs_notify (callbacks : TaskCallbacks) (dto : FileTransferRecord) :
    outputs (invokeProgressCb callbacks dto ++ emitGlobalProgress s dto) =
      callbacks.progressCb.toList.map fun cb => .told cb dto := by
  have hglobal : outputs (emitGlobalProgress s dto) = [] := by
    rw [outputs, List.filterMap_eq_nil_iff]
    intro e he
    obtain ⟨id, cb, rfl⟩ := mem_emitGlobalProgress he
    rfl
  rw [outputs_append, hglobal, List.append_nil]
  unfold invokeProgressCb
  cases callbacks.progressCb <;> rfl

@[simp] theorem outputs_emitStatus (entry : RecordEntry) (status : TransferStatus) (transferred total : Nat) :
    outputs (emitStatus s entry status transferred total) =
      Board.toldTo entry.callbacks entry.inner status transferred total :=
  outputs_notify _ _

@[simp] theorem outputs_groupStatus (key : UniqueId) (status : TransferStatus) (transferred : Nat)
    (total : GroupState → Nat) :
    outputs (groupStatus s key status transferred total) = s.board.tell key status transferred total := by
  unfold groupStatus Board.tell
  rw [board_job]
  cases s.groups.lookup key with
  | none => rfl
  | some group => exact outputs_emitStatus ..

@[simp] theorem board_tell_current (key : UniqueId) (status : TransferStatus) :
    s.board.tell key status (s.current key) GroupState.ownTotal = s.board.report key status := rfl

@[simp] theorem outputs_cancelActive (key : UniqueId) : outputs (cancelActive s key) = [] := by
  unfold cancelActive
  split <;> rfl

theorem mode_slot : (s.mode key).slot = true ↔ key ∈ s.active := by
  unfold SchedulerState.mode
  by_cases ha : key ∈ s.active <;> by_cases hp : key ∈ s.pausedSet <;> simp [ha, hp, Mode.slot]

/-- The slots that are taken are those in `active`. -/
theorem Loose.holding (h : Loose s) : s.board.holding = s.active.keys := by
  ext k
  simp only [Board.holding, Set.mem_ofPred_eq, board_job, Option.map_eq_some_iff, Finset.mem_coe, Finmap.mem_keys]
  constructor
  · rintro ⟨j, ⟨g, -, rfl⟩, hslot⟩
    exact mode_slot.1 hslot
  · intro ha
    obtain ⟨g, hg⟩ := Finmap.mem_iff.1 (h.active_group k ha)
    exact ⟨_, ⟨g, hg, rfl⟩, mode_slot.2 ha⟩

theorem Loose.ncard_holding (h : Loose s) (d : Direction) :
    {k ∈ s.board.holding | k.1 = d}.ncard = s.activeCount d := by
  have hset : {k ∈ s.board.holding | k.1 = d} =
      ((s.active.keys.filter fun k => k.1 = d : Finset UniqueId) : Set _) := by
    rw [h.holding]
    ext k
    simp
  rw [hset, Set.ncard_coe_finset]
  rfl

theorem Loose.board_free (h : Loose s) : s.board.free s.maxConcurrency = s.free := by
  funext d
  rw [Board.free, h.ncard_holding]
  rfl

theorem Inv.runnable_eq (h : Inv s) : s.runnable = s.queued := by
  apply List.filter_eq_self.2
  intro k hk
  simp [h.queued_active k hk, h.queued_group k hk]

/-! ## `try_start_next` -/

theorem outputs_startEffects (group : GroupState) : outputs (startEffects s key group) =
    Board.toldTo group.entry.callbacks group.entry.inner .transmission (s.current key) group.entry.inner.totalSize ++
      [.started key group.leaderInner (s.current key)] := by
  rw [startEffects, outputs_append, outputs_emitStatus]
  rfl

theorem outputs_tryStartNext (s : SchedulerState) : outputs (tryStartNext s).effects =
    (spawnedKeys (tryStartNext s).effects).flatMap fun k => s.board.report k .transmission ++ s.board.start k := by
  refine (tryStartNext_induct (P := fun st es => (st.groups = s.groups ∧ st.offsets = s.offsets) ∧ outputs es =
    (spawnedKeys es).flatMap fun k => s.board.report k .transmission ++ s.board.start k) ⟨⟨rfl, rfl⟩, rfl⟩ ?_ ?_ ?_).2
  · intro st es key rest h _ _
    exact h
  · intro st es key rest h _ _
    exact h
  · intro st es key rest group ⟨⟨hgroups, hoffsets⟩, h⟩ _ _ hg _
    refine ⟨⟨hgroups, hoffsets⟩, ?_⟩
    have hjob : s.board.job key = some ⟨group, s.mode key⟩ := by
      rw [board_job, ← hgroups, hg]
      rfl
    have hcurrent : st.current key = s.board.current key := by
      rw [SchedulerState.current, hoffsets]
      rfl
    have hstart : outputs (startEffects (st.dequeue key rest) key group) =
        s.board.report key .transmission ++ s.board.start key := by
      rw [outputs_startEffects, Board.report, Board.tell, Board.start, hjob, ← hcurrent]
      rfl
    rw [outputs_append, h, spawnedKeys_append, spawnedKeys_startEffects, List.flatMap_append, hstart,
      List.flatMap_singleton]

/-- **`try_start_next` admits.** -/
theorem board_thenStart {x : SchedulerState × List Effect} (h : Loose x.1) :
    ((thenStart x).1.board, outputs (thenStart x).2) =
      Board.refill x.1.maxConcurrency (x.1.board, outputs x.2) := by
  obtain ⟨s, es⟩ := x
  have hrefills := tryStartNext_refills h.queued_nodup h.queuedSet_eq
  have hsame := tryStartNext_same s
  have hadmitted : s.board.admitted s.maxConcurrency = started Prod.fst s.free s.runnable := by
    rw [Board.admitted, h.board_free]
    rfl
  have hkept : (tryStartNext s).state.runnable = kept Prod.fst s.free s.runnable := by
    rw [h.tryStartNext.runnable_eq, hrefills.queued, List.nil_append]
  refine Prod.ext (Board.eq_of_fields (fun k => ?_) ?_ fun k => ?_) ?_
  · show (tryStartNext s).state.board.job k = _
    simp only [Board.refill, board_job, hsame.groups, hadmitted, Option.map_map]
    congr 1
    funext group
    simp only [Function.comp_apply]
    by_cases hk : k ∈ started Prod.fst s.free s.runnable
    · have hrun := List.mem_filter.1 (started_sublist.subset hk)
      have hpaused := h.queued_paused k hrun.1
      simp [SchedulerState.mode, hrefills.active, hsame.pausedSet, hk, hpaused]
    · simp [SchedulerState.mode, hrefills.active, hsame.pausedSet, hk]
  · show (tryStartNext s).state.runnable = _
    rw [hkept, Board.refill, h.board_free]
    rfl
  · show (tryStartNext s).state.offsets.lookup k = s.offsets.lookup k
    rw [hsame.offsets]
  · show outputs (es ++ (tryStartNext s).effects) = _
    rw [outputs_append, outputs_tryStartNext, hrefills.spawned, Board.refill, hadmitted]

/-! ## The handlers -/

/-- Edits of one key leave the modes of the others. -/
theorem mode_congr (s s' : SchedulerState) {k : UniqueId} (hactive : k ∈ s'.active ↔ k ∈ s.active)
    (hpaused : k ∈ s'.pausedSet ↔ k ∈ s.pausedSet) : s'.mode k = s.mode k := by
  simp only [SchedulerState.mode, hactive, hpaused]

theorem Inv.board_drop (h : Inv s) {s' : SchedulerState} (hgroups : s'.groups = s.groups.erase key)
    (hactive : s'.active = s.active.erase key) (hpaused : s'.pausedSet = s.pausedSet.erase key)
    (hqueued : s'.queued = s.queued ∨ s'.queued = s.queued.filter fun k => k ≠ key)
    {offset : UniqueId → Option Nat} (hoffset : ∀ k, s'.offsets.lookup k = offset k) :
    s'.board = { s.board.drop key with offset := offset } := by
  refine Board.eq_of_fields (fun k => ?_) ?_ hoffset
  · simp only [board_job, hgroups, Table.lookup_erase_ite, Board.drop, Board.quit, Function.update_apply]
    by_cases hk : k = key
    · simp [hk]
    · simp only [hk, if_false]
      rw [mode_congr s s' (by simp [hactive, Finmap.mem_erase, hk]) (by simp [hpaused, hk])]
  · show s'.runnable = s.runnable.filter fun k => k ≠ key
    have hrun : ∀ k ∈ s.queued, (decide (k ∉ s'.active ∧ k ∈ s'.groups)) = decide (k ≠ key) := by
      intro k hk
      rw [decide_eq_decide, hactive, hgroups, Finmap.mem_erase, Finmap.mem_erase]
      have hinactive := h.queued_active k hk
      have hgroup := h.queued_group k hk
      simp [hinactive, hgroup]
    rw [h.runnable_eq, SchedulerState.runnable]
    rcases hqueued with hq | hq
    · rw [hq]
      exact List.filter_congr hrun
    · rw [hq, List.filter_filter]
      apply List.filter_congr
      intro k hk
      rw [hrun k hk, Bool.and_self]

theorem Inv.board_markPaused (h : Inv s) : (s.markPaused key).board = (s.board.alter key Mode.pause).quit key := by
  refine Board.eq_of_fields (fun k => ?_) ?_ fun _ => rfl
  · simp only [board_job, Board.quit, Board.alter, Function.update_apply]
    by_cases hk : k = key
    · subst hk
      have hmode : (s.markPaused k).mode k = (s.mode k).pause := by
        by_cases ha : k ∈ s.active <;> by_cases hp : k ∈ s.pausedSet <;>
          simp [SchedulerState.mode, SchedulerState.markPaused, Mode.pause, ha, hp]
      simp only [if_true, Option.map_map, hmode]
      rfl
    · simp only [hk, if_false]
      rw [mode_congr s (s.markPaused key) Iff.rfl (by simp [SchedulerState.markPaused, hk])]
      rfl
  · show (s.markPaused key).runnable = s.runnable.filter fun k => k ≠ key
    rw [h.runnable_eq]
    apply List.filter_eq_self.2
    intro k hk
    have hk : k ∈ s.queued := (List.mem_filter.1 hk).1
    have hinactive := h.queued_active k hk
    have hgroup := h.queued_group k hk
    simp [SchedulerState.markPaused, hinactive, hgroup]

theorem Inv.board_requeue (h : Inv s) (hp : key ∈ s.pausedSet) (ha : key ∉ s.active) :
    ((s.unmarkPaused key).pushBack key).board = (s.board.alter key fun _ => .waiting).join key := by
  have hg := h.paused_group key hp
  refine Board.eq_of_fields (fun k => ?_) ?_ fun _ => rfl
  · simp only [board_job, Board.alter, Board.join, Function.update_apply]
    by_cases hk : k = key
    · subst hk
      have hmode : ((s.unmarkPaused k).pushBack k).mode k = .waiting := by
        simp [SchedulerState.mode, SchedulerState.unmarkPaused, SchedulerState.pushBack, ha]
      simp only [if_true, Option.map_map, hmode]
      rfl
    · simp only [hk, if_false]
      rw [mode_congr s ((s.unmarkPaused key).pushBack key) Iff.rfl
        (by simp [SchedulerState.unmarkPaused, SchedulerState.pushBack, hk])]
      rfl
  · show ((s.unmarkPaused key).pushBack key).runnable = s.runnable ++ [key]
    rw [h.runnable_eq]
    apply List.filter_eq_self.2
    intro k hk
    rcases List.mem_append.1 hk with hk | hk
    · have hk : k ∈ s.queued := hk
      have hinactive := h.queued_active k hk
      have hgroup := h.queued_group k hk
      simp [SchedulerState.unmarkPaused, SchedulerState.pushBack, hinactive, hgroup]
    · rw [List.mem_singleton.1 hk]
      simp [SchedulerState.unmarkPaused, SchedulerState.pushBack, ha, hg]

theorem board_accept (h : Inv s) {inner : InnerTask} (callbacks : TaskCallbacks)
    (hg : inner.dedupeKey ∉ s.groups) :
    ((insertTask s inner callbacks).pushBack inner.dedupeKey).board = s.board.add inner callbacks := by
  have ha : inner.dedupeKey ∉ s.active := fun hk => hg (h.active_group _ hk)
  have hp : inner.dedupeKey ∉ s.pausedSet := fun hk => hg (h.paused_group _ hk)
  refine Board.eq_of_fields (fun k => ?_) ?_ fun _ => rfl
  · simp only [board_job, Board.add, Board.join, Function.update_apply, SchedulerState.pushBack, insertTask,
      Table.lookup_insert_ite]
    by_cases hk : k = inner.dedupeKey
    · subst hk
      simp [SchedulerState.mode, ha, hp]
    · simp only [hk, if_false]
      rfl
  · show ((insertTask s inner callbacks).pushBack inner.dedupeKey).runnable = s.runnable ++ [inner.dedupeKey]
    rw [h.runnable_eq]
    apply List.filter_eq_self.2
    intro k hk
    rcases List.mem_append.1 hk with hk | hk
    · have hk : k ∈ s.queued := hk
      have hinactive := h.queued_active k hk
      have hgroup := h.queued_group k hk
      simp [insertTask, SchedulerState.pushBack, hinactive, hgroup]
    · rw [List.mem_singleton.1 hk]
      simp [insertTask, SchedulerState.pushBack, ha]

/-- A `Canceled` out of a pause. -/
theorem Inv.board_stopped (h : Inv s) (hp : key ∈ s.pausedSet) :
    ({ s with active := s.active.erase key } : SchedulerState).board = s.board.alter key fun _ => .paused := by
  refine Board.eq_of_fields (fun k => ?_) ?_ fun _ => rfl
  · simp only [board_job, Board.alter, Function.update_apply]
    by_cases hk : k = key
    · subst hk
      have hmode : ({ s with active := s.active.erase k } : SchedulerState).mode k = .paused := by
        simp [SchedulerState.mode, Finmap.mem_erase, hp]
      simp only [if_true, Option.map_map, hmode]
      rfl
    · simp only [hk, if_false]
      rw [mode_congr s { s with active := s.active.erase key } (by simp [Finmap.mem_erase, hk]) Iff.rfl]
  · show ({ s with active := s.active.erase key } : SchedulerState).runnable = s.runnable
    rw [h.runnable_eq]
    apply List.filter_eq_self.2
    intro k hk
    have hinactive := h.queued_active k hk
    have hgroup := h.queued_group k hk
    simp [Finmap.mem_erase, hinactive, hgroup]

/-- The id mapping finds the key of a task. -/
theorem Inv.board_find (h : Inv s) (id : TaskId) : s.board.find id = s.taskIdToDedupe.lookup id := by
  have hjob (k : UniqueId) : (∃ j, s.board.job k = some j ∧ j.group.leaderInner.taskId = id) ↔
      s.taskIdToDedupe.lookup id = some k := by
    rw [h.id_map]
    simp only [board_job, Option.map_eq_some_iff]
    constructor
    · rintro ⟨j, ⟨g, hg, rfl⟩, hid⟩
      exact ⟨g, hg, hid⟩
    · rintro ⟨g, hg, hid⟩
      exact ⟨_, ⟨g, hg, rfl⟩, hid⟩
  unfold Board.find
  split
  · rename_i hex
    exact ((hjob _).1 hex.choose_spec).symm
  · rename_i hnone
    rw [eq_comm, Option.eq_none_iff_forall_ne_some]
    exact fun k hk => hnone ⟨k, (hjob k).2 hk⟩


theorem board_mode (s : SchedulerState) (k : UniqueId) :
    s.board.mode k = (s.groups.lookup k).map fun _ => s.mode k := by
  rw [Board.mode, board_job, Option.map_map]
  rfl

theorem Loose.board_mode_of_paused (h : Loose s) (hp : key ∈ s.pausedSet) :
    s.board.mode key = some (if key ∈ s.active then .stopping else .paused) := by
  obtain ⟨g, hg⟩ := Finmap.mem_iff.1 (h.paused_group key hp)
  rw [board_mode, hg]
  by_cases ha : key ∈ s.active <;> simp [SchedulerState.mode, ha, hp]

theorem board_mode_of_not_paused (hp : key ∉ s.pausedSet) :
    s.board.mode key ≠ some .stopping ∧ s.board.mode key ≠ some .paused := by
  rw [board_mode]
  cases s.groups.lookup key <;> by_cases ha : key ∈ s.active <;> simp [SchedulerState.mode, ha, hp]

/-! ## An iteration -/

/-- A handler that has edited the board, and then `try_start_next`. -/
theorem board_after {x : SchedulerState × List Effect} {b : Board} {os : List Output} (h : Loose x.1)
    (hlimits : x.1.maxConcurrency = s.maxConcurrency) (hboard : x.1.board = b) (hos : outputs x.2 = os) :
    ((thenStart x).1.board, outputs (thenStart x).2) = Board.refill s.maxConcurrency (b, os) := by
  rw [board_thenStart h, hlimits, hboard, hos]

/-- A handler that has refused. -/
theorem AtRest.board_same (h : AtRest s) (es : List Effect) :
    ((thenStart (s, es)).1.board, outputs (thenStart (s, es)).2) = (s.board, outputs es) := by
  rw [h.thenStart_eq]

theorem AtRest.board_hear (h : AtRest s) (event : WorkerEvent) :
    ((thenStart (handleWorkerEvent s event)).1.board, outputs (thenStart (handleWorkerEvent s event)).2) =
      s.board.hear s.maxConcurrency event := by
  have hloose : Loose (handleWorkerEvent s event).1 := h.toInv.handleWorkerEvent event
  have hlimits : (handleWorkerEvent s event).1.maxConcurrency = s.maxConcurrency :=
    funext (handleWorkerEvent_maxConcurrency s event)
  have hactive := handleWorkerEvent_active s event
  have hgroups := handleWorkerEvent_groups s event
  have hpaused := handleWorkerEvent_pausedSet s event
  have hqueued := handleWorkerEvent_queued s event
  -- an event that ends the task takes its offset
  have hoffset (hends : event.Ends s) (hover : event.terminal = true) :
      ∀ k, (handleWorkerEvent s event).1.offsets.lookup k = (s.board.setOffset event.key none).offset k := by
    intro k
    rw [handleWorkerEvent_offsets, Board.setOffset_offset, if_pos hends]
    cases event with
    | progress => cases hover
    | _ => rfl
  cases event with
  | progress key nextOffset totalSize =>
    have hrest : AtRest (s.setOffset key nextOffset) := { h with queued_blocked := h.queued_blocked }
    have hsame := hrest.board_same (groupStatus s key .transmission nextOffset fun _ => totalSize)
    rw [outputs_groupStatus] at hsame
    have hboard : (s.setOffset key nextOffset).board = s.board.setOffset key (some nextOffset) := by
      refine Board.eq_of_fields (fun _ => rfl) rfl fun k => ?_
      rw [Board.setOffset_offset]
      exact Table.lookup_insert_ite _ _ _ _
    exact hsame.trans (by rw [hboard, Board.hear])
  | completed key totalSize =>
    exact board_after hloose hlimits
      (h.toInv.board_drop hgroups hactive hpaused (.inl hqueued) (hoffset ⟨rfl, nofun⟩ rfl)) (outputs_groupStatus ..)
  | failed key error =>
    exact board_after hloose hlimits
      (h.toInv.board_drop hgroups hactive hpaused (.inl hqueued) (hoffset ⟨rfl, nofun⟩ rfl)) (outputs_groupStatus ..)
  | canceled key =>
    by_cases hp : key ∈ s.pausedSet
    · have hhear : s.board.hear s.maxConcurrency (.canceled key) =
          Board.refill s.maxConcurrency (s.board.alter key fun _ => .paused, []) := by
        rw [Board.hear, h.board_mode_of_paused hp]
        by_cases ha : key ∈ s.active <;> simp [ha]
      rw [hhear]
      apply board_after hloose hlimits
      · rw [← h.toInv.board_stopped hp]
        simp [handleWorkerEvent, hp]
      · simp [handleWorkerEvent, hp, outputs]
    · have hhear : s.board.hear s.maxConcurrency (.canceled key) =
          Board.refill s.maxConcurrency ((s.board.drop key).setOffset key none, s.board.report key .canceled) := by
        obtain ⟨hstopping, hpaused⟩ := board_mode_of_not_paused hp
        simp only [Board.hear]
      have hends : (WorkerEvent.canceled key).Ends s := ⟨rfl, fun _ => hp⟩
      rw [if_pos hends] at hgroups
      rw [hhear]
      apply board_after hloose hlimits
      · refine h.toInv.board_drop hgroups hactive ?_ (.inl hqueued) (hoffset hends rfl)
        rw [hpaused]
        simp [WorkerEvent.key, Finset.erase_eq_of_notMem hp]
      · simp only [handleWorkerEvent, hp, if_false, outputs_groupStatus]
        rfl

theorem board_cancel (h : Inv s) : (cancelGroup s key).1.board = s.board.drop key := by
  apply h.board_drop
  · exact SchedulerState.removeGroup_groups _ _
  · exact SchedulerState.removeGroup_active _ _
  · exact SchedulerState.removeGroup_pausedSet _ _
  · exact .inr (SchedulerState.removeGroup_queued _ _)
  · exact fun k => congrArg (Finmap.lookup k) (SchedulerState.removeGroup_offsets _ _)

theorem AtRest.board_resume (h : AtRest s) (cmd : TransferCmd) :
    ((thenStart ((resumeGroup s key).2.1, (resumeGroup s key).2.2 ++ [.respond cmd (resumeGroup s key).1])).1.board,
      outputs (thenStart ((resumeGroup s key).2.1,
        (resumeGroup s key).2.2 ++ [.respond cmd (resumeGroup s key).1])).2) =
      match s.board.mode key with
      | some .paused => Board.refill s.maxConcurrency ((s.board.alter key fun _ => .waiting).join key,
          s.board.report key .pending ++ [.answered cmd.subject (.ok ())])
      | some .stopping => (s.board, [.answered cmd.subject (.error stillStoppingError)])
      | _ => (s.board, [.answered cmd.subject (.error notPausedError)]) := by
  have hloose := h.toInv.resumeGroup key
  by_cases hp : key ∈ s.pausedSet
  · have hg : key ∈ s.groups := h.paused_group key hp
    rw [h.board_mode_of_paused hp]
    by_cases ha : key ∈ s.active
    · have hresume : resumeGroup s key = (.error stillStoppingError, s, []) := by
        simp [resumeGroup, hp, ha]
      rw [hresume, if_pos ha]
      exact h.board_same _
    · have hq : key ∉ s.queuedSet := fun hk =>
        h.queued_paused key (List.mem_toFinset.1 (h.queuedSet_eq ▸ hk)) hp
      have hresume : resumeGroup s key = (.ok (), (s.unmarkPaused key).pushBack key,
          groupStatus s key .pending (s.current key) GroupState.ownTotal) := by
        simp [resumeGroup, hp, ha, hg, hq]
      rw [hresume] at hloose ⊢
      rw [if_neg ha]
      refine board_after hloose rfl (h.toInv.board_requeue hp ha) ?_
      simp
  · have hresume : resumeGroup s key = (.error notPausedError, s, []) := by
      simp [resumeGroup, hp]
    obtain ⟨hstopping, hpaused⟩ := board_mode_of_not_paused hp
    rw [hresume]
    split
    · contradiction
    · contradiction
    · exact h.board_same _

theorem AtRest.board_obey (h : AtRest s) (cmd : TransferCmd)
    (hfresh : ∀ inner callbacks, cmd = .enqueue inner callbacks → s.taskIdToDedupe.lookup inner.taskId = none) :
    ((handleCmd s cmd).1.board, outputs (handleCmd s cmd).2) = s.board.obey s.maxConcurrency cmd := by
  cases cmd with
  | enqueue inner callbacks =>
    simp only [handleCmd, Board.obey, board_job]
    cases hg : s.groups.lookup inner.dedupeKey with
    | some existing =>
      simp only [Option.map_some]
      rw [outputs_notify]
      rfl
    | none =>
      simp only [Option.map_none]
      have hgroup : inner.dedupeKey ∉ s.groups := Finmap.lookup_eq_none.1 hg
      have ha : inner.dedupeKey ∉ s.active := fun hk => hgroup (h.active_group _ hk)
      have hq : inner.dedupeKey ∉ s.queuedSet := fun hk =>
        hgroup (h.queued_group _ (List.mem_toFinset.1 (h.queuedSet_eq ▸ hk)))
      have haccept : (acceptTask s inner callbacks).1 = (insertTask s inner callbacks).pushBack inner.dedupeKey := by
        simp [acceptTask, insertTask, ha, hq]
      refine board_after (h.toInv.acceptTask hgroup (hfresh _ _ rfl)) ?_ ?_ ?_
      · rw [haccept]
        rfl
      · rw [haccept]
        exact board_accept h.toInv callbacks hgroup
      · simp only [acceptTask, ha, if_false, List.append_nil, outputs_emitStatus]
        rfl
  | pause taskId =>
    simp only [handleCmd, Board.obey, h.toInv.board_find]
    cases hk : s.taskIdToDedupe.lookup taskId with
    | none => exact h.board_same _
    | some key =>
      obtain ⟨g, hg, -⟩ := (h.id_map taskId key).1 hk
      have hgroup : key ∈ s.groups := Finmap.mem_of_lookup_eq_some hg
      refine board_after (h.toLoose.markPaused hgroup) rfl h.toInv.board_markPaused ?_
      simp [pauseGroup, TransferCmd.subject]
  | resume taskId =>
    simp only [handleCmd, Board.obey, h.toInv.board_find]
    cases s.taskIdToDedupe.lookup taskId with
    | none => exact h.board_same _
    | some key => exact h.board_resume _
  | cancel taskId =>
    simp only [handleCmd, Board.obey, h.toInv.board_find]
    cases s.taskIdToDedupe.lookup taskId with
    | none => exact h.board_same _
    | some key =>
      refine board_after (h.toInv.cancelGroup key) ?_ (board_cancel h.toInv) ?_
      · exact funext fun d => SchedulerState.removeGroup_limits _ _ d
      · simp [cancelGroup, TransferCmd.subject]
  | snapshot =>
    simp only [handleCmd, Board.obey, h.holding]
    rw [show s.board.line = s.queued from h.toInv.runnable_eq, Set.ncard_coe_finset]
    rfl
  | close activeOrder groupOrder =>
    have hcancel : outputs (activeOrder.flatMap (cancelActive s)) = [] := by
      rw [outputs, List.filterMap_eq_nil_iff]
      intro e he
      obtain ⟨key, -, he⟩ := List.mem_flatMap.1 he
      obtain ⟨active, -, rfl⟩ := mem_cancelActive he
      rfl
    have hstatus (order : List UniqueId) : outputs (order.flatMap fun key =>
        groupStatus s key .paused (s.current key) GroupState.ownTotal) =
        order.flatMap fun key => s.board.report key .paused := by
      induction order with
      | nil => rfl
      | cons key rest ih =>
        rw [List.flatMap_cons, outputs_append, outputs_groupStatus, board_tell_current, ih, List.flatMap_cons]
    refine Prod.ext rfl ?_
    show outputs ((closeAll s activeOrder groupOrder).2 ++ _) = _
    rw [closeAll, outputs_append, outputs_append, hcancel, hstatus]
    rfl

/-- **One iteration is one step of the board.** -/
theorem board_react (h : AtRest s) {input : LoopInput} (hf : Fresh s input) :
    ((react s input).1.board, outputs (react s input).2) = s.board.step s.maxConcurrency input := by
  cases input with
  | cmd cmd => exact h.board_obey cmd fun inner callbacks hc => hf inner callbacks (by rw [hc])
  | event event => exact h.board_hear event
  | listen op => rfl

/-! ## Runs -/

theorem react_limits (s : SchedulerState) (input : LoopInput) :
    (react s input).1.maxConcurrency = s.maxConcurrency := by
  funext d
  obtain ⟨x, hbefore, hreact | hreact⟩ := react_before s input
  · rw [hreact, hbefore.limits]
  · rw [hreact, thenStart, (tryStartNext_same x.1).limits, hbefore.limits]

/-- A run is one of the board, from wherever both are. -/
theorem LoopInv.board_run {inputs : List LoopInput} {loop loop' : Loop} (hinv : LoopInv loop)
    (hrest : AtRest loop.state) (hrun : Lts.run Loop.step loop inputs = some loop') :
    (loop'.state.board, outputs loop'.log) = inputs.foldl (fun x input =>
      ((x.1.step loop.state.maxConcurrency input).1, x.2 ++ (x.1.step loop.state.maxConcurrency input).2))
      (loop.state.board, outputs loop.log) := by
  induction inputs generalizing loop with
  | nil =>
    cases hrun
    rfl
  | cons input inputs ih =>
    obtain ⟨mid, hstep, hrun⟩ := Lts.run_cons.1 hrun
    have hinv' := hinv.step hstep
    obtain ⟨-, harrives, rfl⟩ := Loop.step_eq_some.1 hstep
    have hf : Fresh loop.state input := fun inner callbacks hi => hinv.fresh harrives hi
    have hreact := board_react hrest hf
    have hmid := ih hinv' (hrest.react hf) hrun
    rw [react_limits] at hmid
    rw [hmid, List.foldl_cons, ← hreact, outputs_append]

theorem AtRest.orderly (h : AtRest s) : s.board.Orderly s.maxConcurrency where
  nodup := h.queued_nodup.filter _
  waiting := fun k => by
    show k ∈ s.runnable ↔ _
    rw [h.toInv.runnable_eq, board_mode]
    constructor
    · intro hk
      obtain ⟨g, hg⟩ := Finmap.mem_iff.1 (h.queued_group k hk)
      simp [hg, SchedulerState.mode, h.queued_active k hk, h.queued_paused k hk]
    · intro hk
      obtain ⟨g, hg, hmode⟩ := Option.map_eq_some_iff.1 hk
      have ha : k ∉ s.active := fun ha => by
        by_cases hp : k ∈ s.pausedSet <;> simp [SchedulerState.mode, ha, hp] at hmode
      have hp : k ∉ s.pausedSet := fun hp => by
        simp [SchedulerState.mode, ha, hp] at hmode
      rcases h.covered k (Finmap.mem_of_lookup_eq_some hg) with hq | hq | hq
      · exact hq
      · exact absurd hq ha
      · exact absurd hq hp
  within := fun d => by
    rw [h.ncard_holding]
    exact h.capacity d
  full := fun k hk => by
    have hk : k ∈ s.queued := h.toInv.runnable_eq ▸ hk
    have hcap := h.capacity k.1
    have hfull := (h.queued_blocked k hk).2.2
    rw [h.ncard_holding]
    omega

/-- **Between two iterations the collections are read off the board.** -/
theorem AtRest.shows (h : AtRest s) : s.Shows s.board where
  groups := fun k => by
    rw [board_job, Option.map_map]
    exact Option.map_id'.symm
  taskIdToDedupe := fun id => (h.toInv.board_find id).symm
  queued := h.toInv.runnable_eq.symm
  queuedSet := by
    rw [h.queuedSet_eq]
    exact congrArg List.toFinset h.toInv.runnable_eq.symm
  pausedSet := fun k => by
    constructor
    · intro hp
      rw [h.board_mode_of_paused hp]
      by_cases ha : k ∈ s.active <;> simp [ha]
    · intro hmode
      by_contra hp
      obtain ⟨hstopping, hpaused⟩ := board_mode_of_not_paused hp
      rcases hmode with hmode | hmode
      · exact hstopping hmode
      · exact hpaused hmode
  active := fun k => by
    rw [board_mode]
    constructor
    · intro ha
      obtain ⟨g, hg⟩ := Finmap.mem_iff.1 (h.active_group k ha)
      by_cases hp : k ∈ s.pausedSet <;> simp [hg, SchedulerState.mode, ha, hp]
    · intro hmode
      by_contra ha
      cases s.groups.lookup k <;> by_cases hp : k ∈ s.pausedSet <;> simp [SchedulerState.mode, ha, hp] at hmode
  offsets := fun _ => rfl

/-- The limits of the two directions. -/
def limits (maxUpload maxDownload : Nat) : Direction → Nat
  | .upload => maxUpload
  | .download => maxDownload

theorem run_limits {maxUpload maxDownload : Nat} {inputs : List LoopInput} {loop : Loop}
    (hrun : Lts.run Loop.step (.init maxUpload maxDownload) inputs = some loop) :
    loop.state.maxConcurrency = limits maxUpload maxDownload := by
  refine Lts.run_invariant (I := fun l => l.state.maxConcurrency = limits maxUpload maxDownload) ?_ ?_ hrun
  · intro l input l' hl hs
    obtain ⟨-, -, rfl⟩ := Loop.step_eq_some.1 hs
    rw [react_limits, hl]
  · funext d
    cases d <;> rfl

end

/-- **The scheduler is the board.** Whatever commands with fresh task ids and worker events the loop takes, in any
order, it has told (whole records), answered and started (with task and offset) what the board does for the same
inputs, in the same order, and its collections are read off that board. The board is orderly then: no key waits beside
a free slot. -/
theorem scheduler_refines {maxUpload maxDownload : Nat} {inputs : List LoopInput} {loop : Loop}
    (hrun : Lts.run Loop.step (.init maxUpload maxDownload) inputs = some loop) :
    loop.state.Shows (Board.run (limits maxUpload maxDownload) inputs).1 ∧
      outputs loop.log = (Board.run (limits maxUpload maxDownload) inputs).2 ∧
      (Board.run (limits maxUpload maxDownload) inputs).1.Orderly (limits maxUpload maxDownload) := by
  have hinit : AtRest (Loop.init maxUpload maxDownload).state :=
    ⟨(LoopInv.init _ _).inv, fun k hk => absurd hk List.not_mem_nil⟩
  have hstart : (Loop.init maxUpload maxDownload).state.maxConcurrency = limits maxUpload maxDownload :=
    @run_limits maxUpload maxDownload [] _ rfl
  have hrest : AtRest loop.state := Loop.Reachable.atRest ⟨maxUpload, maxDownload, inputs, hrun⟩
  have hboard : (loop.state.board, outputs loop.log) = Board.run (limits maxUpload maxDownload) inputs := by
    rw [(LoopInv.init _ _).board_run hinit hrun, hstart]
    rfl
  rw [← hboard]
  have horderly := hrest.orderly
  rw [run_limits hrun] at horderly
  exact ⟨hrest.shows, rfl, horderly⟩

/-- The first of three is paused half way, its slot goes to the second, and it waits behind the third when resumed. -/
def pausedAndResumed : List LoopInput :=
  threeDownloads ++ [.event (.progress (.download, "a") 4 8), .cmd (.pause ⟨0⟩),
    .event (.canceled (.download, "a")), .cmd (.resume ⟨0⟩)]

theorem scheduler_refines_resumed : ∃ loop,
    Lts.run Loop.step (.init 1 1) pausedAndResumed = some loop ∧
      loop.state.Shows (Board.run (limits 1 1) pausedAndResumed).1 ∧
      outputs loop.log = (Board.run (limits 1 1) pausedAndResumed).2 ∧
      (Board.run (limits 1 1) pausedAndResumed).1.Orderly (limits 1 1) ∧
      (Board.run (limits 1 1) pausedAndResumed).1.line = [(.download, "c"), (.download, "a")] ∧
      (Board.run (limits 1 1) pausedAndResumed).1.current (.download, "a") = 4 := by
  have hrun : Lts.run Loop.step (.init 1 1) pausedAndResumed = some _ := Lts.run_final (by decide)
  obtain ⟨hshows, hlog, horderly⟩ := scheduler_refines hrun
  refine ⟨_, hrun, hshows, hlog, horderly, hshows.queued.symm.trans (by decide), ?_⟩
  rw [Board.current, ← hshows.offsets]
  decide

end SpottedCat
