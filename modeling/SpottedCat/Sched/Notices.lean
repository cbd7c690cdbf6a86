import SpottedCat.Sched.Footprint

/-!
# Everything an iteration reports

`Notice` lists the statuses that one iteration of the loop can emit, each with the entry, the offset and
the total that its record is built from; only the record of a duplicate `Enqueue`, built from the leader
of another call, is none of them. `react_induct` is the induction principle over the effects of an
iteration: what holds of the notices and of the effects that report nothing, and of any two lists of
effects put together, holds of all the iteration does.
-/

namespace SpottedCat

/-- The key of the task, if it is paused and its worker has stopped. -/
def SchedulerState.resumable (s : SchedulerState) (taskId : TaskId) : List UniqueId :=
  (s.taskIdToDedupe.lookup taskId).toList.filter fun key => key ∈ s.pausedSet ∧ key ∉ s.active

/-- The keys whose groups an input makes the loop report as they stand, with the task's own total. -/
def LoopInput.restates (s : SchedulerState) : LoopInput → List UniqueId
  | .cmd (.pause taskId) | .cmd (.cancel taskId) => (s.taskIdToDedupe.lookup taskId).toList
  | .cmd (.resume taskId) => s.resumable taskId
  | .cmd (.close _ groupOrder) => groupOrder
  | .event (.failed key _) => [key]
  | .event (.canceled key) => if key ∈ s.pausedSet then [] else [key]
  | _ => []

/-- The keys that an input may put in the queue. -/
def LoopInput.queues (s : SchedulerState) : LoopInput → List UniqueId
  | .cmd (.enqueue inner _) => if inner.dedupeKey ∈ s.groups then [] else [inner.dedupeKey]
  | .cmd (.resume taskId) => s.resumable taskId
  | _ => []

/-- A status of `entry` that `input` makes the loop emit in state `s`, with its offset and total. -/
inductive Notice (s : SchedulerState) :
    LoopInput → RecordEntry → TransferStatus → Nat → Nat → Prop
  | accepted (inner : InnerTask) (callbacks : TaskCallbacks)
      (vacant : s.groups.lookup inner.dedupeKey = none) (status : TransferStatus)
      (open_ : status.terminal = false) :
      Notice s (.cmd (.enqueue inner callbacks)) ⟨inner, callbacks⟩ status (s.current inner.dedupeKey)
        inner.totalSize
  /-- By a control command, by the end of a worker, or by `Close`. -/
  | standing {input : LoopInput} (key : UniqueId) (group : GroupState)
      (found : s.groups.lookup key = some group) (status : TransferStatus)
      (failed : ∀ error, status = .failed error → input = .event (.failed key error))
      (restated : key ∈ input.restates s) :
      Notice s input group.entry status (s.current key) group.ownTotal
  | progress (key : UniqueId) (nextOffset totalSize : Nat) (group : GroupState)
      (found : s.groups.lookup key = some group) :
      Notice s (.event (.progress key nextOffset totalSize)) group.entry .transmission nextOffset totalSize
  | completed (key : UniqueId) (totalSize : Nat) (group : GroupState)
      (found : s.groups.lookup key = some group) :
      Notice s (.event (.completed key totalSize)) group.entry .complete totalSize totalSize
  | started {input : LoopInput} (key : UniqueId) (group : GroupState)
      (found : (react s input).1.groups.lookup key = some group)
      (waited : key ∈ s.queued ∨ key ∈ input.queues s) :
      Notice s input group.entry .transmission ((react s input).1.current key) group.ownTotal

/-- An `Enqueue` that is no duplicate of a live key. -/
def LoopInput.Unrepeated (s : SchedulerState) : LoopInput → Prop
  | .cmd (.enqueue inner _) => inner.dedupeKey ∉ s.groups
  | _ => True

instance (s : SchedulerState) (input : LoopInput) : Decidable (input.Unrepeated s) := by
  unfold LoopInput.Unrepeated
  split <;> infer_instance

/-- Only the listeners are read off the state. -/
theorem emitStatus_congr {s s' : SchedulerState} (h : s'.globalProgressListener = s.globalProgressListener)
    (entry : RecordEntry) (status : TransferStatus) (transferred total : Nat) :
    emitStatus s' entry status transferred total = emitStatus s entry status transferred total := by
  simp only [emitStatus, emitGlobalProgress, h]

/-- What an effect list is made of: notices and effects that report nothing. -/
structure Emits (s : SchedulerState) (input : LoopInput) (P : List Effect → Prop) : Prop where
  append : ∀ es es', P es → P es' → P (es ++ es')
  silent : ∀ es : List Effect, (∀ e ∈ es, e.record = none) → P es
  emit : ∀ entry status transferred total, Notice s input entry status transferred total →
    P (emitStatus s entry status transferred total)

section
variable {s : SchedulerState} {input : LoopInput} {P : List Effect → Prop}

theorem Emits.nil (h : Emits s input P) : P [] := h.silent [] fun _ he => absurd he List.not_mem_nil

theorem Emits.respond (h : Emits s input P) {es : List Effect} (hes : P es) (cmd : TransferCmd)
    (ret : Except MeowError Unit) : P (es ++ [.respond cmd ret]) := by
  refine h.append es _ hes (h.silent _ fun e he => ?_)
  rw [List.mem_singleton.1 he]
  rfl

theorem Emits.cancelActive (h : Emits s input P) (key : UniqueId) : P (cancelActive s key) := by
  refine h.silent _ fun e he => ?_
  obtain ⟨_, _, rfl⟩ := mem_cancelActive he
  rfl

/-- A status of the key's own group, with its own total. -/
theorem Emits.standing (h : Emits s input P) (key : UniqueId) (status : TransferStatus)
    (hfailed : ∀ error, status = .failed error → input = .event (.failed key error))
    (hrestated : key ∈ input.restates s) :
    P (groupStatus s key status (s.current key) GroupState.ownTotal) := by
  unfold groupStatus
  split
  · rename_i group hg
    exact h.emit _ _ _ _ (.standing key group hg status hfailed hrestated)
  · exact h.nil

theorem Emits.flatMap (h : Emits s input P) {α : Type} {f : α → List Effect} (l : List α)
    (hf : ∀ a ∈ l, P (f a)) : P (l.flatMap f) := by
  induction l with
  | nil => exact h.nil
  | cons a l ih =>
    rw [List.flatMap_cons]
    exact h.append _ _ (hf a List.mem_cons_self) (ih fun b hb => hf b (List.mem_cons_of_mem _ hb))

/-- A state on the way through `try_start_next`: it only takes keys out of the queue. -/
structure Refilling (s st : SchedulerState) : Prop extends SameTasks s st where
  queued : ∀ k ∈ st.queued, k ∈ s.queued

theorem Refilling.head {st : SchedulerState} {key : UniqueId} {rest : List UniqueId} (h : Refilling s st)
    (hq : st.queued = key :: rest) : key ∈ s.queued :=
  h.queued key (hq ▸ List.mem_cons_self)

theorem Refilling.dequeue {st : SchedulerState} {key : UniqueId} {rest : List UniqueId}
    (h : Refilling s st) (hq : st.queued = key :: rest) : Refilling s (st.dequeue key rest) where
  toSameTasks := h.toSameTasks.dequeue key rest
  queued := fun k hk => h.queued k (hq ▸ List.mem_cons_of_mem _ hk)

theorem Refilling.requeue {st : SchedulerState} {key : UniqueId} {rest : List UniqueId}
    (h : Refilling s st) (hq : st.queued = key :: rest) : Refilling s ((st.dequeue key rest).pushBack key) where
  toSameTasks := (h.toSameTasks.dequeue key rest).pushBack key
  queued := by
    intro k hk
    rcases List.mem_append.1 hk with hk | hk
    · exact (h.dequeue hq).queued k hk
    · rw [List.mem_singleton.1 hk]
      exact h.head hq

theorem Refilling.activate {st : SchedulerState} (h : Refilling s st) (key : UniqueId) :
    Refilling s (st.activate key) where
  toSameTasks := h.toSameTasks.activate key
  queued := h.queued

theorem tryStartNext_refilling (s : SchedulerState) : Refilling s (tryStartNext s).state := by
  refine tryStartNext_induct (P := fun st _ => Refilling s st) ⟨.rfl, fun _ hk => hk⟩ ?_ ?_ ?_
  · intro st _ key rest h hq _
    exact h.dequeue hq
  · intro st _ key rest h hq _
    exact h.requeue hq
  · intro st _ key rest _ h hq _ _ _
    exact (h.dequeue hq).activate key

/-! ## Before the refill -/

/-- `x` is what `input` makes of `s` before `try_start_next`, as far as reports go. -/
structure Reports (s : SchedulerState) (input : LoopInput) (x : SchedulerState × List Effect) : Prop where
  effects : ∀ P, Emits s input P → P x.2
  queued : ∀ k ∈ x.1.queued, k ∈ s.queued ∨ k ∈ input.queues s
  listeners : (∀ op, input ≠ .listen op) → x.1.globalProgressListener = s.globalProgressListener

/-- An input that only answers. -/
theorem Reports.answer {es : List Effect} (h : ∀ e ∈ es, e.record = none) : Reports s input (s, es) where
  effects := fun _ hemits => hemits.silent es h
  queued := fun _ hk => .inl hk
  listeners := fun _ => rfl

theorem Reports.respond {x : SchedulerState × List Effect} (h : Reports s input x) (cmd : TransferCmd)
    (ret : Except MeowError Unit) : Reports s input (x.1, x.2 ++ [.respond cmd ret]) where
  effects := fun P hemits => hemits.respond (h.effects P hemits) cmd ret
  queued := h.queued
  listeners := h.listeners

theorem removeGroup_listeners (key : UniqueId) :
    (s.removeGroup key).globalProgressListener = s.globalProgressListener := by
  unfold SchedulerState.removeGroup
  split <;> rfl

theorem Reports.handleWorkerEvent (s : SchedulerState) (event : WorkerEvent) :
    Reports s (.event event) (handleWorkerEvent s event) := by
  have hqueued : ∀ (st : SchedulerState) (key : UniqueId), st.queued = s.queued →
      ∀ k ∈ (st.removeGroup key).queued, k ∈ s.queued ∨ k ∈ (LoopInput.event event).queues s := by
    intro st key hq k hk
    rw [SchedulerState.removeGroup_queued, hq] at hk
    exact .inl hk
  cases event with
  | progress key nextOffset totalSize =>
    refine ⟨fun P h => ?_, fun k hk => .inl hk, fun _ => rfl⟩
    unfold SpottedCat.handleWorkerEvent groupStatus
    simp only
    split
    · rename_i group hg
      exact h.emit _ _ _ _ (.progress key nextOffset totalSize group hg)
    · exact h.nil
  | completed key totalSize =>
    refine ⟨fun P h => ?_, hqueued ((s.deactivate key).setOffset key totalSize) key rfl,
      fun _ => removeGroup_listeners key⟩
    unfold SpottedCat.handleWorkerEvent groupStatus
    simp only
    split
    · rename_i group hg
      exact h.emit _ _ _ _ (.completed key totalSize group hg)
    · exact h.nil
  | failed key error =>
    refine ⟨fun P h => ?_, hqueued (s.deactivate key) key rfl, fun _ => removeGroup_listeners key⟩
    exact h.standing key _ (fun error' he => by cases he; rfl) (List.mem_singleton.2 rfl)
  | canceled key =>
    unfold SpottedCat.handleWorkerEvent
    simp only
    split
    · exact ⟨fun P h => h.nil, fun _ hk => .inl hk, fun _ => rfl⟩
    · rename_i hp
      refine ⟨fun P h => ?_, hqueued { s with active := s.active.erase key } key rfl,
        fun _ => removeGroup_listeners key⟩
      exact h.standing key _ (by simp) (by simp [LoopInput.restates, hp])

theorem Reports.acceptTask {inner : InnerTask} {callbacks : TaskCallbacks}
    (hg : s.groups.lookup inner.dedupeKey = none) :
    Reports s (.cmd (.enqueue inner callbacks)) (acceptTask s inner callbacks) := by
  refine ⟨fun P h => h.append _ _ ?_ ?_, fun k hk => ?_, fun _ => ?_⟩
  · exact h.emit _ _ _ _ (.accepted inner callbacks hg .pending rfl)
  · split
    · exact h.emit _ _ _ _ (.accepted inner callbacks hg .transmission rfl)
    · exact h.nil
  · unfold SpottedCat.acceptTask at hk
    simp only at hk
    split at hk
    · refine (List.mem_append.1 hk).imp id fun hk => ?_
      simpa [LoopInput.queues, Finmap.lookup_eq_none.1 hg] using hk
    · exact .inl hk
  · unfold SpottedCat.acceptTask
    simp only
    split <;> rfl

theorem Reports.pauseGroup {taskId : TaskId} {key : UniqueId}
    (hk : s.taskIdToDedupe.lookup taskId = some key) :
    Reports s (.cmd (.pause taskId)) (pauseGroup s key) where
  effects := fun P h => by
    refine h.append _ _ (h.cancelActive key) (h.standing key .paused (by simp) ?_)
    simp [LoopInput.restates, hk]
  queued := fun _ hk => .inl (List.mem_of_mem_filter hk)
  listeners := fun _ => rfl

theorem Reports.cancelGroup {taskId : TaskId} {key : UniqueId}
    (hk : s.taskIdToDedupe.lookup taskId = some key) :
    Reports s (.cmd (.cancel taskId)) (cancelGroup s key) where
  effects := fun P h => by
    refine h.append _ _ (h.cancelActive key) (h.standing key .canceled (by simp) ?_)
    simp [LoopInput.restates, hk]
  queued := fun k hk => by
    rw [SpottedCat.cancelGroup, SchedulerState.removeGroup_queued] at hk
    exact .inl (List.mem_of_mem_filter hk)
  listeners := fun _ => removeGroup_listeners key

theorem Reports.resumeGroup {taskId : TaskId} {key : UniqueId}
    (hk : s.taskIdToDedupe.lookup taskId = some key) :
    Reports s (.cmd (.resume taskId)) (resumeGroup s key).2 := by
  unfold SpottedCat.resumeGroup
  split
  · exact .answer (by simp)
  split
  · exact .answer (by simp)
  split
  · exact ⟨fun _ h => h.nil, fun _ hk => .inl hk, fun _ => rfl⟩
  rename_i hpaused hactive _
  have hkey : key ∈ s.resumable taskId := by
    simpa [SchedulerState.resumable, hk, hactive] using hpaused
  refine ⟨fun P h => h.standing key .pending (by simp) hkey, fun k hk => ?_, fun _ => ?_⟩
  · simp only at hk
    split at hk
    · rcases List.mem_append.1 hk with hk | hk
      · exact .inl hk
      · rw [List.mem_singleton.1 hk]
        exact .inr hkey
    · exact .inl hk
  · simp only
    split <;> rfl

/-- **One iteration** that is no refusal reports notices, and then starts what it can. -/
theorem react_reports (hnew : input.Unrepeated s) :
    ∃ x, Reports s input x ∧ (react s input = x ∨ react s input = thenStart x) := by
  have hunknown (cmd : TransferCmd) (ret : Except MeowError Unit) :
      Reports s input (s, [.respond cmd ret]) := .answer (by simp [Effect.record])
  cases input with
  | listen op => exact ⟨_, ⟨fun _ h => h.nil, fun _ hk => .inl hk, fun h => absurd rfl (h op)⟩, .inl rfl⟩
  | event event => exact ⟨_, .handleWorkerEvent s event, .inr rfl⟩
  | cmd cmd =>
    cases cmd with
    | enqueue inner callbacks =>
      have hg : s.groups.lookup inner.dedupeKey = none := Finmap.lookup_eq_none.2 hnew
      exact ⟨_, .acceptTask hg, .inr (by simp only [react, handleCmd, hg])⟩
    | pause taskId =>
      cases hk : s.taskIdToDedupe.lookup taskId with
      | none => exact ⟨_, hunknown _ _, .inr (by simp only [react, handleCmd, hk]; rfl)⟩
      | some key =>
        exact ⟨_, (Reports.pauseGroup hk).respond (.pause taskId) (.ok ()),
          .inr (by simp only [react, handleCmd, hk])⟩
    | resume taskId =>
      cases hk : s.taskIdToDedupe.lookup taskId with
      | none => exact ⟨_, hunknown _ _, .inr (by simp only [react, handleCmd, hk]; rfl)⟩
      | some key =>
        exact ⟨_, (Reports.resumeGroup hk).respond (.resume taskId) (resumeGroup s key).1,
          .inr (by simp only [react, handleCmd, hk])⟩
    | cancel taskId =>
      cases hk : s.taskIdToDedupe.lookup taskId with
      | none => exact ⟨_, hunknown _ _, .inr (by simp only [react, handleCmd, hk]; rfl)⟩
      | some key =>
        exact ⟨_, (Reports.cancelGroup hk).respond (.cancel taskId) (.ok ()),
          .inr (by simp only [react, handleCmd, hk])⟩
    | snapshot => exact ⟨_, .answer (by simp [Effect.record]), .inl rfl⟩
    | close activeOrder groupOrder =>
      refine ⟨_, ⟨fun P h => h.respond (h.append _ _ ?_ ?_) _ _, fun k hk => ?_, fun _ => rfl⟩, .inl rfl⟩
      · exact h.flatMap _ fun key _ => h.cancelActive key
      · exact h.flatMap _ fun key hkey => h.standing key .paused (by simp) hkey
      · cases hk

theorem react_queued {k : UniqueId} (hk : k ∈ (react s input).1.queued) :
    k ∈ s.queued ∨ k ∈ input.queues s := by
  by_cases hnew : input.Unrepeated s
  · obtain ⟨x, hx, hreact⟩ := react_reports hnew
    rcases hreact with hreact | hreact
    · exact hx.queued k (hreact ▸ hk)
    · rw [hreact] at hk
      exact hx.queued k ((tryStartNext_refilling x.1).queued k hk)
  · -- a refusal leaves the state alone
    cases input with
    | listen | event => exact absurd trivial hnew
    | cmd cmd =>
      cases cmd with
      | enqueue inner callbacks =>
        obtain ⟨g, hg⟩ := Finmap.mem_iff.1 (not_not.1 hnew)
        simp only [react, handleCmd, hg] at hk
        exact .inl hk
      | _ => exact absurd trivial hnew

/-! ## The whole iteration -/

/-- **The refill** reports the keys that it starts. -/
theorem Emits.thenStart (h : Emits s input P) {x : SchedulerState × List Effect} (hx : Reports s input x)
    (hreact : react s input = thenStart x) (hlisten : ∀ op, input ≠ .listen op) : P (react s input).2 := by
  have hstate : (react s input).1 = (tryStartNext x.1).state := congrArg Prod.fst hreact
  have hsame := tryStartNext_same x.1
  suffices hstart : Refilling x.1 (tryStartNext x.1).state ∧ P (tryStartNext x.1).effects by
    rw [hreact]
    exact h.append _ _ (hx.effects P h) hstart.2
  refine tryStartNext_induct (P := fun st es => Refilling x.1 st ∧ P es)
    ⟨⟨.rfl, fun _ hk => hk⟩, h.nil⟩ ?_ ?_ ?_
  · rintro st es key rest ⟨hst, hes⟩ hq _
    exact ⟨hst.dequeue hq, hes⟩
  · rintro st es key rest ⟨hst, hes⟩ hq _
    exact ⟨hst.requeue hq, hes⟩
  · rintro st es key rest group ⟨hst, hes⟩ hq _ hg _
    refine ⟨(hst.dequeue hq).activate key, ?_⟩
    refine h.append _ _ hes (h.append _ _ ?_ (h.silent _ fun e he => ?_))
    · have hfound : (react s input).1.groups.lookup key = some group := by
        rw [hstate, hsame.groups, ← hst.groups]
        exact hg
      have hcurrent : (react s input).1.current key = (st.dequeue key rest).current key := by
        simp only [SchedulerState.current, SchedulerState.dequeue, hstate, hsame.offsets, hst.offsets]
      have hwaited := hx.queued key (hst.head hq)
      have hemit := h.emit _ _ _ _ (.started key group hfound hwaited)
      rw [hcurrent] at hemit
      have hlist : (st.dequeue key rest).globalProgressListener = s.globalProgressListener :=
        hst.listeners.trans (hx.listeners hlisten)
      rw [emitStatus_congr hlist]
      exact hemit
    · rw [List.mem_singleton.1 he]
      rfl

/-- **Induction over the effects of an iteration.** -/
theorem react_induct (h : Emits s input P) (hnew : input.Unrepeated s) : P (react s input).2 := by
  by_cases hlisten : ∃ op, input = .listen op
  · obtain ⟨op, rfl⟩ := hlisten
    exact h.nil
  · obtain ⟨x, hx, hreact⟩ := react_reports hnew
    rcases hreact with hreact | hreact
    · rw [hreact]
      exact hx.effects P h
    · exact h.thenStart hx hreact fun op hop => hlisten ⟨op, hop⟩

end

end SpottedCat
