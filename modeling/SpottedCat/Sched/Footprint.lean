import SpottedCat.Sched.Invariant

/-!
# What one iteration does to groups, slots and offsets

`Footprint` lists the ways an input changes `groups`, `active` and `offsets` before the trailing
`try_start_next`, and `react_before` says there are no others. The invariants that couple the
scheduler with its workers are proved from these cases and from the start of a single worker
(`Joint`), without unfolding a handler again.
-/

namespace SpottedCat

inductive Footprint (s : SchedulerState) : LoopInput → SchedulerState → Prop
  /-- Queue, pause marks and listeners only. -/
  | keep {input : LoopInput} {s' : SchedulerState} (command : ∀ event, input ≠ .event event)
      (groups : s'.groups = s.groups) (active : s'.active = s.active)
      (offsets : s'.offsets = s.offsets) : Footprint s input s'
  | accept {s' : SchedulerState} (inner : InnerTask) (callbacks : TaskCallbacks)
      (vacant : s.groups.lookup inner.dedupeKey = none)
      (groups : s'.groups = s.groups.insert inner.dedupeKey ⟨inner, ⟨inner, callbacks⟩⟩)
      (active : s'.active = s.active) (offsets : s'.offsets = s.offsets) :
      Footprint s (.cmd (.enqueue inner callbacks)) s'
  | cancel {s' : SchedulerState} (taskId : TaskId) (key : UniqueId)
      (found : s.taskIdToDedupe.lookup taskId = some key)
      (groups : s'.groups = s.groups.erase key) (active : s'.active = s.active.erase key)
      (offsets : s'.offsets = s.offsets) : Footprint s (.cmd (.cancel taskId)) s'
  | close {s' : SchedulerState} (activeOrder groupOrder : List UniqueId)
      (groups : s'.groups = ∅) (active : s'.active = ∅) (offsets : s'.offsets = ∅) :
      Footprint s (.cmd (.close activeOrder groupOrder)) s'
  | progress {s' : SchedulerState} (key : UniqueId) (nextOffset totalSize : Nat)
      (groups : s'.groups = s.groups) (active : s'.active = s.active)
      (offsets : s'.offsets = s.offsets.insert key nextOffset) :
      Footprint s (.event (.progress key nextOffset totalSize)) s'
  | finish {s' : SchedulerState} (event : WorkerEvent) (terminal : event.terminal = true)
      (groups : s'.groups = s.groups.erase event.key) (active : s'.active = s.active.erase event.key)
      (offsets : s'.offsets = s.offsets.erase event.key) : Footprint s (.event event) s'
  /-- The `Canceled` of a paused task: its slot is freed, its group and its offset stay. -/
  | stop {s' : SchedulerState} (key : UniqueId) (paused : key ∈ s.pausedSet)
      (groups : s'.groups = s.groups) (active : s'.active = s.active.erase key)
      (offsets : s'.offsets = s.offsets) : Footprint s (.event (.canceled key)) s'

def NoSpawn (es : List Effect) : Prop := ∀ e ∈ es, ∀ key inner cancel offset,
  e ≠ .spawn key inner cancel offset

/-- An `Enqueue` brings an id that is not in use. -/
def Fresh (s : SchedulerState) (input : LoopInput) : Prop :=
  ∀ inner callbacks, input = .cmd (.enqueue inner callbacks) →
    s.taskIdToDedupe.lookup inner.taskId = none

/-- `x` is what `input` makes of `s` before `try_start_next`. -/
structure Before (s : SchedulerState) (input : LoopInput) (x : SchedulerState × List Effect) : Prop where
  footprint : Footprint s input x.1
  noSpawn : NoSpawn x.2
  nextToken : x.1.nextToken = s.nextToken
  limits : ∀ d, x.1.maxConcurrency d = s.maxConcurrency d
  loose : Inv s → Fresh s input → Loose x.1

/-! ## Nothing but `try_start_next` spawns -/

theorem NoSpawn.append {es es' : List Effect} (h : NoSpawn es) (h' : NoSpawn es') :
    NoSpawn (es ++ es') := by
  intro e he
  rcases List.mem_append.1 he with he | he
  · exact h e he
  · exact h' e he

theorem NoSpawn.of_record {es : List Effect} (h : ∀ e ∈ es, e.record.isSome) : NoSpawn es := by
  intro e he key inner cancel offset heq
  subst heq
  cases h _ he

theorem NoSpawn.respond {cmd : TransferCmd} {ret : Except MeowError Unit} :
    NoSpawn [.respond cmd ret] := by
  simp [NoSpawn]

theorem NoSpawn.emitStatus {s : SchedulerState} {entry : RecordEntry} {status : TransferStatus}
    {transferred total : Nat} : NoSpawn (emitStatus s entry status transferred total) :=
  .of_record fun _ he => by rw [mem_emitStatus he]; rfl

theorem NoSpawn.groupStatus {s : SchedulerState} {key : UniqueId} {status : TransferStatus}
    {transferred : Nat} {total : GroupState → Nat} :
    NoSpawn (groupStatus s key status transferred total) :=
  .of_record fun _ he => by obtain ⟨_, _, hr⟩ := mem_groupStatus he; rw [hr]; rfl

theorem NoSpawn.cancelActive {s : SchedulerState} {key : UniqueId} : NoSpawn (cancelActive s key) := by
  intro e he key' inner cancel offset heq
  obtain ⟨_, _, rfl⟩ := mem_cancelActive he
  cases heq

theorem NoSpawn.invokeProgressCb {callbacks : TaskCallbacks} {dto : FileTransferRecord} :
    NoSpawn (invokeProgressCb callbacks dto) := by
  unfold SpottedCat.invokeProgressCb
  split <;> simp [NoSpawn]

theorem NoSpawn.emitGlobalProgress {s : SchedulerState} {dto : FileTransferRecord} :
    NoSpawn (emitGlobalProgress s dto) := by
  intro e he key inner cancel offset heq
  obtain ⟨_, _, rfl⟩ := mem_emitGlobalProgress he
  cases heq

/-! ## The handlers -/

/-- A handler that only answers. -/
theorem Before.answer {s : SchedulerState} {input : LoopInput} {es : List Effect}
    (hcmd : ∀ event, input ≠ .event event) (hes : NoSpawn es) : Before s input (s, es) where
  footprint := .keep hcmd rfl rfl rfl
  noSpawn := hes
  nextToken := rfl
  limits := fun _ => rfl
  loose := fun h _ => h.toLoose

theorem Before.acceptTask {s : SchedulerState} {inner : InnerTask} {callbacks : TaskCallbacks}
    (hg : s.groups.lookup inner.dedupeKey = none) :
    Before s (.cmd (.enqueue inner callbacks)) (acceptTask s inner callbacks) := by
  constructor
  · refine .accept inner callbacks hg ?_ ?_ ?_ <;>
    · simp only [SpottedCat.acceptTask]
      split <;> rfl
  · refine NoSpawn.emitStatus.append ?_
    split
    · exact .emitStatus
    · simp [NoSpawn]
  · simp only [SpottedCat.acceptTask]
    split <;> rfl
  · intro d
    simp only [SpottedCat.acceptTask]
    split <;> rfl
  · exact fun h hf => h.acceptTask (Finmap.lookup_eq_none.1 hg) (hf _ _ rfl)

theorem Before.resumeGroup {s : SchedulerState} (taskId : TaskId) (key : UniqueId) :
    Before s (.cmd (.resume taskId)) ((resumeGroup s key).2.1,
      (resumeGroup s key).2.2 ++ [.respond (.resume taskId) (resumeGroup s key).1]) := by
  have hkeep : (SpottedCat.resumeGroup s key).2.1.groups = s.groups ∧
      (SpottedCat.resumeGroup s key).2.1.active = s.active ∧
      (SpottedCat.resumeGroup s key).2.1.offsets = s.offsets ∧
      (SpottedCat.resumeGroup s key).2.1.nextToken = s.nextToken ∧
      ∀ d, (SpottedCat.resumeGroup s key).2.1.maxConcurrency d = s.maxConcurrency d := by
    unfold SpottedCat.resumeGroup
    split_ifs <;> exact ⟨rfl, rfl, rfl, rfl, fun _ => rfl⟩
  obtain ⟨hgroups, hactive, hoffsets, htoken, hlimits⟩ := hkeep
  refine ⟨.keep (by simp) hgroups hactive hoffsets, ?_, htoken, hlimits, fun h _ => h.resumeGroup key⟩
  refine NoSpawn.append ?_ .respond
  unfold SpottedCat.resumeGroup
  split_ifs <;> first | exact NoSpawn.groupStatus | simp [NoSpawn]

theorem Before.handleWorkerEvent (s : SchedulerState) (event : WorkerEvent) :
    Before s (.event event) (handleWorkerEvent s event) := by
  cases event with
  | progress key nextOffset totalSize =>
    exact ⟨.progress key nextOffset totalSize rfl rfl rfl, .groupStatus, rfl, fun _ => rfl,
      fun h _ => h.handleWorkerEvent _⟩
  | completed key totalSize =>
    refine ⟨.finish _ rfl (SchedulerState.removeGroup_groups _ _) (SchedulerState.removeGroup_active _ _)
      ?_, .groupStatus, SchedulerState.removeGroup_nextToken _ _,
      SchedulerState.removeGroup_limits _ _, fun h _ => h.handleWorkerEvent _⟩
    -- the offset stored first is dropped with the rest
    refine Finmap.ext_lookup fun k => ?_
    simp only [SpottedCat.handleWorkerEvent, SchedulerState.dropOffset,
      SchedulerState.removeGroup_offsets, SchedulerState.setOffset, SchedulerState.deactivate,
      WorkerEvent.key, Table.lookup_erase_ite, Table.lookup_insert_ite]
    split <;> rfl
  | failed key error =>
    exact ⟨.finish _ rfl (SchedulerState.removeGroup_groups _ _) (SchedulerState.removeGroup_active _ _)
      (congrArg (Finmap.erase key) (SchedulerState.removeGroup_offsets _ _)), .groupStatus,
      SchedulerState.removeGroup_nextToken _ _, SchedulerState.removeGroup_limits _ _,
      fun h _ => h.handleWorkerEvent _⟩
  | canceled key =>
    have hloose : Inv s → Loose (SpottedCat.handleWorkerEvent s (.canceled key)).1 :=
      fun h => h.handleWorkerEvent _
    by_cases hp : key ∈ s.pausedSet
    · simp only [SpottedCat.handleWorkerEvent, hp, ↓reduceIte] at hloose ⊢
      exact ⟨.stop key hp rfl rfl rfl, by simp [NoSpawn], rfl, fun _ => rfl, fun h _ => hloose h⟩
    · simp only [SpottedCat.handleWorkerEvent, hp, ↓reduceIte] at hloose ⊢
      exact ⟨.finish _ rfl (SchedulerState.removeGroup_groups _ _)
        (SchedulerState.removeGroup_active _ _)
        (congrArg (Finmap.erase key) (SchedulerState.removeGroup_offsets _ _)), .groupStatus,
        SchedulerState.removeGroup_nextToken _ _, SchedulerState.removeGroup_limits _ _,
        fun h _ => hloose h⟩

/-- What an input does to the queue and to the pause marks: it takes keys out of the queue or puts one
at its end, and a key that it marks has its token cancelled. -/
structure Edits (s : SchedulerState) (x : SchedulerState × List Effect) : Prop where
  queue : (∃ p : UniqueId → Bool, x.1.queued = s.queued.filter p) ∨
    ∃ key, x.1.queued = s.queued ++ [key]
  /-- A live key that leaves the queue is paused, which frees no slot. -/
  stays : ∀ k ∈ s.queued, k ∈ x.1.queued ∨ k ∉ x.1.groups ∨ x.1.active = s.active
  paused : ∀ k ∈ x.1.pausedSet, k ∈ s.pausedSet ∨
    ∀ a, s.active.lookup k = some a → .cancel a.cancel ∈ x.2

theorem Edits.of_eq {s : SchedulerState} {x : SchedulerState × List Effect}
    (hq : x.1.queued = s.queued) (hp : x.1.pausedSet ⊆ s.pausedSet) : Edits s x where
  queue := .inl ⟨fun _ => true, by rw [hq]; simp⟩
  stays := fun _ hk => .inl (hq ▸ hk)
  paused := fun _ hk => .inl (hp hk)

theorem Edits.pushBack {s : SchedulerState} {x : SchedulerState × List Effect} {key : UniqueId}
    (hq : x.1.queued = s.queued ++ [key]) (hp : x.1.pausedSet ⊆ s.pausedSet) : Edits s x where
  queue := .inr ⟨key, hq⟩
  stays := fun _ hk => .inl (hq ▸ List.mem_append_left _ hk)
  paused := fun _ hk => .inl (hp hk)

theorem Edits.acceptTask {s : SchedulerState} {inner : InnerTask} {callbacks : TaskCallbacks} :
    Edits s (acceptTask s inner callbacks) := by
  unfold SpottedCat.acceptTask
  simp only
  split
  · exact .pushBack rfl (Finset.Subset.refl _)
  · exact .of_eq rfl (Finset.Subset.refl _)

theorem Edits.resumeGroup {s : SchedulerState} {key : UniqueId} {es : List Effect} :
    Edits s ((resumeGroup s key).2.1, es) := by
  have herase : s.pausedSet.erase key ⊆ s.pausedSet := Finset.erase_subset _ _
  unfold SpottedCat.resumeGroup
  split
  · exact .of_eq rfl (Finset.Subset.refl _)
  split
  · exact .of_eq rfl (Finset.Subset.refl _)
  split
  · exact .of_eq rfl herase
  simp only
  split
  · exact .pushBack rfl herase
  · exact .of_eq rfl herase

theorem Edits.handleWorkerEvent {s : SchedulerState} {event : WorkerEvent} :
    Edits s (handleWorkerEvent s event) := by
  have herase : ∀ key, s.pausedSet.erase key ⊆ s.pausedSet := fun _ => Finset.erase_subset _ _
  cases event with
  | progress => exact .of_eq rfl (Finset.Subset.refl _)
  | completed key totalSize =>
    exact .of_eq (SchedulerState.removeGroup_queued _ _)
      ((SchedulerState.removeGroup_pausedSet _ _).subset.trans (herase key))
  | failed key error =>
    exact .of_eq (SchedulerState.removeGroup_queued _ _)
      ((SchedulerState.removeGroup_pausedSet _ _).subset.trans (herase key))
  | canceled key =>
    unfold SpottedCat.handleWorkerEvent
    simp only
    split
    · exact .of_eq rfl (Finset.Subset.refl _)
    · exact .of_eq (SchedulerState.removeGroup_queued _ _) (SchedulerState.removeGroup_pausedSet _ _).subset

theorem Before.pauseGroup {s : SchedulerState} {taskId : TaskId} {key : UniqueId}
    (hk : s.taskIdToDedupe.lookup taskId = some key) : Before s (.cmd (.pause taskId))
      ((pauseGroup s key).1, (pauseGroup s key).2 ++ [.respond (.pause taskId) (.ok ())]) where
  footprint := .keep (by simp) rfl rfl rfl
  noSpawn := (NoSpawn.cancelActive.append .groupStatus).append .respond
  nextToken := rfl
  limits := fun _ => rfl
  loose := fun h _ => by
    obtain ⟨g, hg, _⟩ := (h.id_map taskId key).1 hk
    exact h.toLoose.markPaused (Finmap.mem_of_lookup_eq_some hg)

theorem Edits.pauseGroup {s : SchedulerState} {key : UniqueId} {es : List Effect} :
    Edits s ((pauseGroup s key).1, (pauseGroup s key).2 ++ es) where
  queue := .inl ⟨_, rfl⟩
  stays := fun _ _ => .inr (.inr rfl)
  paused := fun k hk => by
    rcases Finset.mem_insert.1 hk with rfl | hk
    · right
      intro a ha
      simp [SpottedCat.pauseGroup, SpottedCat.cancelActive, ha]
    · exact .inl hk

theorem Before.cancelGroup {s : SchedulerState} {taskId : TaskId} {key : UniqueId}
    (hk : s.taskIdToDedupe.lookup taskId = some key) : Before s (.cmd (.cancel taskId))
      ((cancelGroup s key).1, (cancelGroup s key).2 ++ [.respond (.cancel taskId) (.ok ())]) where
  footprint := .cancel taskId key hk (SchedulerState.removeGroup_groups _ _)
    (SchedulerState.removeGroup_active _ _) (SchedulerState.removeGroup_offsets _ _)
  noSpawn := (NoSpawn.cancelActive.append .groupStatus).append .respond
  nextToken := SchedulerState.removeGroup_nextToken _ _
  limits := SchedulerState.removeGroup_limits _ _
  loose := fun h _ => h.cancelGroup key

theorem cancelGroup_pausedSet (s : SchedulerState) (key : UniqueId) :
    (cancelGroup s key).1.pausedSet = s.pausedSet.erase key :=
  SchedulerState.removeGroup_pausedSet _ _

theorem Edits.cancelGroup {s : SchedulerState} {key : UniqueId} {es : List Effect} :
    Edits s ((cancelGroup s key).1, es) where
  queue := .inl ⟨_, SchedulerState.removeGroup_queued _ _⟩
  stays := fun k hq => by
    by_cases he : k = key
    · right; left
      simp [SpottedCat.cancelGroup, he]
    · left
      simpa [SpottedCat.cancelGroup, SchedulerState.withdraw, he] using hq
  paused := fun k hk => .inl (Finset.mem_of_mem_erase (cancelGroup_pausedSet s key ▸ hk))

theorem Before.closeAll {s : SchedulerState} (activeOrder groupOrder : List UniqueId) :
    Before s (.cmd (.close activeOrder groupOrder)) ((closeAll s activeOrder groupOrder).1,
      (closeAll s activeOrder groupOrder).2 ++ [.respond (.close activeOrder groupOrder) (.ok ())]) where
  footprint := .close activeOrder groupOrder rfl rfl rfl
  noSpawn := by
    refine NoSpawn.append (fun e he => ?_) .respond
    rcases mem_closeAll he with ⟨k, hcancel⟩ | ⟨k, hstatus⟩
    · exact NoSpawn.cancelActive e hcancel
    · exact NoSpawn.groupStatus e hstatus
  nextToken := rfl
  limits := fun _ => rfl
  loose := fun _ _ => (Inv.of_empty rfl rfl rfl rfl rfl rfl).toLoose

theorem Edits.closeAll {s : SchedulerState} {activeOrder groupOrder : List UniqueId} {es : List Effect} :
    Edits s ((closeAll s activeOrder groupOrder).1, es) where
  queue := .inl ⟨fun _ => false, (List.filter_false _).symm⟩
  stays := fun _ _ => .inr (.inl Finmap.notMem_empty)
  paused := fun _ hk => absurd hk (Finset.notMem_empty _)

/-- **One iteration** changes the tables in one of the listed ways, and then starts what it can. -/
theorem react_edits (s : SchedulerState) (input : LoopInput) :
    ∃ x, Before s input x ∧ Edits s x ∧ (react s input = x ∨ react s input = thenStart x) := by
  have hstay : ∀ es : List Effect, Edits s (s, es) := fun _ => .of_eq rfl (Finset.Subset.refl _)
  cases input with
  | listen op =>
    exact ⟨_, ⟨.keep (by simp) rfl rfl rfl, by simp [NoSpawn, react], rfl, fun _ => rfl,
      fun h _ => { h with }⟩, .of_eq rfl (Finset.Subset.refl _), .inl rfl⟩
  | event event => exact ⟨_, .handleWorkerEvent s event, .handleWorkerEvent, .inr rfl⟩
  | cmd cmd =>
    cases cmd with
    | enqueue inner callbacks =>
      cases hg : s.groups.lookup inner.dedupeKey with
      | some existing =>
        refine ⟨_, .answer (by simp) ?_, hstay _, .inl (by simp only [react, handleCmd, hg]; rfl)⟩
        exact NoSpawn.invokeProgressCb.append .emitGlobalProgress
      | none => exact ⟨_, .acceptTask hg, .acceptTask, .inr (by simp only [react, handleCmd, hg])⟩
    | pause taskId =>
      cases hk : s.taskIdToDedupe.lookup taskId with
      | none =>
        exact ⟨_, .answer (by simp) .respond, hstay _, .inr (by simp only [react, handleCmd, hk]; rfl)⟩
      | some key =>
        exact ⟨_, .pauseGroup hk, .pauseGroup, .inr (by simp only [react, handleCmd, hk])⟩
    | resume taskId =>
      cases hk : s.taskIdToDedupe.lookup taskId with
      | none =>
        exact ⟨_, .answer (by simp) .respond, hstay _, .inr (by simp only [react, handleCmd, hk]; rfl)⟩
      | some key =>
        exact ⟨_, .resumeGroup taskId key, .resumeGroup, .inr (by simp only [react, handleCmd, hk])⟩
    | cancel taskId =>
      cases hk : s.taskIdToDedupe.lookup taskId with
      | none =>
        exact ⟨_, .answer (by simp) .respond, hstay _, .inr (by simp only [react, handleCmd, hk]; rfl)⟩
      | some key =>
        exact ⟨_, .cancelGroup hk, .cancelGroup, .inr (by simp only [react, handleCmd, hk])⟩
    | snapshot =>
      exact ⟨_, .answer (by simp) (by simp [NoSpawn]), hstay _, .inl rfl⟩
    | close activeOrder groupOrder => exact ⟨_, .closeAll activeOrder groupOrder, .closeAll, .inl rfl⟩

/-- **Slots are freed one at a time**, each with nothing else lost; but for `Close`. -/
theorem Footprint.slots {s s' : SchedulerState} {input : LoopInput} (h : Footprint s input s') :
    s'.groups = ∅ ∨ s'.active = s.active ∨
      ∃ key, s'.active = s.active.erase key ∧ ∀ k ∈ s.groups, k ≠ key → k ∈ s'.groups := by
  have herase : ∀ key, s'.groups = s.groups.erase key → ∀ k ∈ s.groups, k ≠ key → k ∈ s'.groups := by
    intro key hgroups k hk hne
    rw [hgroups]
    exact Finmap.mem_erase.2 ⟨hne, hk⟩
  cases h with
  | keep _ _ active _ | accept _ _ _ _ active _ | progress _ _ _ _ active _ => exact .inr (.inl active)
  | cancel _ key _ groups active _ => exact .inr (.inr ⟨key, active, herase key groups⟩)
  | close _ _ groups _ _ => exact .inl groups
  | finish event _ groups active _ => exact .inr (.inr ⟨event.key, active, herase _ groups⟩)
  | stop key _ groups active _ => exact .inr (.inr ⟨key, active, fun k hk _ => groups ▸ hk⟩)

/-- A group is there from before, or was accepted just now. -/
theorem Footprint.group {s s' : SchedulerState} {input : LoopInput} (h : Footprint s input s')
    {k : UniqueId} {g : GroupState} (hg : s'.groups.lookup k = some g) :
    s.groups.lookup k = some g ∨ ∃ inner callbacks, input = .cmd (.enqueue inner callbacks) ∧
      k = inner.dedupeKey ∧ g = ⟨inner, ⟨inner, callbacks⟩⟩ := by
  have herase : ∀ key, s'.groups = s.groups.erase key → s.groups.lookup k = some g := by
    intro key hgroups
    rw [hgroups, Table.lookup_erase_ite] at hg
    split at hg
    · cases hg
    · exact hg
  cases h with
  | keep _ groups _ _ | progress _ _ _ groups _ _ | stop _ _ groups _ _ => exact .inl (groups ▸ hg)
  | accept inner callbacks _ groups _ _ =>
    rw [groups, Table.lookup_insert_ite] at hg
    split at hg
    · rename_i hk
      cases hg
      exact .inr ⟨inner, callbacks, rfl, hk, rfl⟩
    · exact .inl hg
  | cancel _ key _ groups _ _ => exact .inl (herase key groups)
  | close _ _ groups _ _ =>
    rw [groups] at hg
    cases hg
  | finish _ _ groups _ _ => exact .inl (herase _ groups)

theorem react_before (s : SchedulerState) (input : LoopInput) :
    ∃ x, Before s input x ∧ (react s input = x ∨ react s input = thenStart x) := by
  obtain ⟨x, hbefore, _, hreact⟩ := react_edits s input
  exact ⟨x, hbefore, hreact⟩

theorem react_group {s : SchedulerState} {input : LoopInput} {k : UniqueId} {g : GroupState}
    (hg : (react s input).1.groups.lookup k = some g) :
    s.groups.lookup k = some g ∨ ∃ inner callbacks, input = .cmd (.enqueue inner callbacks) ∧
      k = inner.dedupeKey ∧ g = ⟨inner, ⟨inner, callbacks⟩⟩ := by
  obtain ⟨x, hbefore, hreact⟩ := react_before s input
  rcases hreact with hreact | hreact
  · rw [hreact] at hg
    exact hbefore.footprint.group hg
  · rw [hreact, thenStart, (tryStartNext_same x.1).groups] at hg
    exact hbefore.footprint.group hg

end SpottedCat
