import SpottedCat.Sched.Fairness

/-!
# Events on different keys

Two worker events on different keys commute, each followed by the `try_start_next` of its iteration
(`events_commute`). The handlers alone commute as they are (`handleWorkerEvent_comm`): each edits its
own key. What is between them is one more refill of the queue, and it does not matter
(`kept_refill_once`): whatever the first refill has given to the key of the second event comes back
with that event, and the keys still in the queue are in the same order.
-/

namespace SpottedCat

open Admission

/-- The events that end the task of their key: all that are the last of their worker, but the
`Canceled` of a paused key. -/
def WorkerEvent.Ends (s : SchedulerState) (event : WorkerEvent) : Prop :=
  event.terminal = true ∧ (event = .canceled event.key → event.key ∉ s.pausedSet)

instance (s : SchedulerState) (event : WorkerEvent) : Decidable (event.Ends s) := by
  unfold WorkerEvent.Ends
  infer_instance

attribute [ext] SchedulerState

/-! ## The handlers field by field -/

section
variable (s : SchedulerState) (event : WorkerEvent)

theorem handleWorkerEvent_groups : (handleWorkerEvent s event).1.groups =
    if event.Ends s then s.groups.erase event.key else s.groups := by
  cases event with
  | progress key nextOffset totalSize => rfl
  | completed key totalSize | failed key error =>
    simp [handleWorkerEvent, WorkerEvent.Ends, WorkerEvent.terminal, WorkerEvent.key,
      SchedulerState.dropOffset, SchedulerState.setOffset, SchedulerState.deactivate]
  | canceled key =>
    by_cases hp : key ∈ s.pausedSet <;>
      simp [handleWorkerEvent, WorkerEvent.Ends, WorkerEvent.terminal, WorkerEvent.key, hp,
        SchedulerState.dropOffset]

theorem handleWorkerEvent_taskIdToDedupe : (handleWorkerEvent s event).1.taskIdToDedupe =
    if event.Ends s then (s.removeGroup event.key).taskIdToDedupe else s.taskIdToDedupe := by
  cases event with
  | progress key nextOffset totalSize => rfl
  | completed key totalSize | failed key error =>
    simp [handleWorkerEvent, WorkerEvent.Ends, WorkerEvent.terminal, WorkerEvent.key,
      SchedulerState.dropOffset, SchedulerState.setOffset, SchedulerState.deactivate,
      SchedulerState.removeGroup_taskIdToDedupe]
  | canceled key =>
    by_cases hp : key ∈ s.pausedSet <;>
      simp [handleWorkerEvent, WorkerEvent.Ends, WorkerEvent.terminal, WorkerEvent.key, hp,
        SchedulerState.dropOffset, SchedulerState.removeGroup_taskIdToDedupe]

theorem handleWorkerEvent_active : (handleWorkerEvent s event).1.active =
    if event.terminal then s.active.erase event.key else s.active := by
  cases event with
  | progress key nextOffset totalSize => rfl
  | completed key totalSize | failed key error => exact SchedulerState.removeGroup_active _ _
  | canceled key =>
    by_cases hp : key ∈ s.pausedSet <;>
      simp [handleWorkerEvent, WorkerEvent.terminal, WorkerEvent.key, hp, SchedulerState.dropOffset]

theorem handleWorkerEvent_pausedSet : (handleWorkerEvent s event).1.pausedSet =
    if event.terminal ∧ event ≠ .canceled event.key then s.pausedSet.erase event.key
    else s.pausedSet := by
  cases event with
  | progress key nextOffset totalSize => rfl
  | completed key totalSize | failed key error =>
    simp [handleWorkerEvent, WorkerEvent.terminal, WorkerEvent.key, SchedulerState.dropOffset,
      SchedulerState.setOffset, SchedulerState.deactivate]
  | canceled key =>
    by_cases hp : key ∈ s.pausedSet <;>
      simp [handleWorkerEvent, WorkerEvent.key, hp, SchedulerState.dropOffset]

theorem handleWorkerEvent_offsets (k : UniqueId) : (handleWorkerEvent s event).1.offsets.lookup k =
    if k = event.key then
      match event with
      | .progress _ nextOffset _ => some nextOffset
      | _ => if event.Ends s then none else s.offsets.lookup k
    else s.offsets.lookup k := by
  cases event with
  | progress key nextOffset totalSize => exact Table.lookup_insert_ite _ _ _ _
  | completed key totalSize | failed key error =>
    by_cases hk : k = key <;>
      simp [handleWorkerEvent, WorkerEvent.Ends, WorkerEvent.terminal, WorkerEvent.key, hk,
        SchedulerState.dropOffset, SchedulerState.setOffset, SchedulerState.deactivate,
        Table.lookup_erase_ite]
  | canceled key =>
    by_cases hp : key ∈ s.pausedSet <;> by_cases hk : k = key <;>
      simp [handleWorkerEvent, WorkerEvent.Ends, WorkerEvent.terminal, WorkerEvent.key, hp, hk,
        SchedulerState.dropOffset, Table.lookup_erase_ite]

/-- Queue, listeners, limits and the token counter are left as they are. -/
theorem handleWorkerEvent_rest : (handleWorkerEvent s event).1 = { s with
    groups := (handleWorkerEvent s event).1.groups
    taskIdToDedupe := (handleWorkerEvent s event).1.taskIdToDedupe
    pausedSet := (handleWorkerEvent s event).1.pausedSet
    active := (handleWorkerEvent s event).1.active
    offsets := (handleWorkerEvent s event).1.offsets } := by
  have hremove : ∀ (st : SchedulerState) key, st.removeGroup key = { st with
      groups := (st.removeGroup key).groups
      taskIdToDedupe := (st.removeGroup key).taskIdToDedupe } := by
    intro st key
    unfold SchedulerState.removeGroup
    split <;> rfl
  cases event with
  | progress key nextOffset totalSize => rfl
  | completed key totalSize | failed key error =>
    simp only [handleWorkerEvent]
    rw [hremove]
    rfl
  | canceled key =>
    by_cases hp : key ∈ s.pausedSet
    · simp only [handleWorkerEvent, hp, if_true]
    · simp only [handleWorkerEvent, hp, if_false]
      rw [hremove]
      rfl

/-- The same for any one of those fields. -/
theorem handleWorkerEvent_field {β : Type*} (f : SchedulerState → β)
    (hf : ∀ groups ids paused active offsets, f { s with
      groups := groups
      taskIdToDedupe := ids
      pausedSet := paused
      active := active
      offsets := offsets } = f s) : f (handleWorkerEvent s event).1 = f s := by
  rw [handleWorkerEvent_rest]
  exact hf _ _ _ _ _

@[simp] theorem handleWorkerEvent_queued : (handleWorkerEvent s event).1.queued = s.queued :=
  handleWorkerEvent_field s event (·.queued) fun _ _ _ _ _ => rfl

@[simp] theorem handleWorkerEvent_queuedSet : (handleWorkerEvent s event).1.queuedSet = s.queuedSet :=
  handleWorkerEvent_field s event (·.queuedSet) fun _ _ _ _ _ => rfl

@[simp] theorem handleWorkerEvent_maxConcurrency (d : Direction) :
    (handleWorkerEvent s event).1.maxConcurrency d = s.maxConcurrency d :=
  handleWorkerEvent_field s event (·.maxConcurrency d) fun _ _ _ _ _ => rfl

end

/-! ## Two handlers -/

section
variable {s : SchedulerState} {e1 e2 : WorkerEvent}

theorem WorkerEvent.Ends.after (hne : e1.key ≠ e2.key) :
    e2.Ends (handleWorkerEvent s e1).1 ↔ e2.Ends s := by
  have hpaused : e2.key ∈ (handleWorkerEvent s e1).1.pausedSet ↔ e2.key ∈ s.pausedSet := by
    rw [handleWorkerEvent_pausedSet]
    split
    · rw [Finset.mem_erase]
      exact and_iff_right hne.symm
    · exact Iff.rfl
  simp only [WorkerEvent.Ends, hpaused]

/-- The id of a group is found the same after the other key's event. -/
theorem removeGroup_ids_after (hne : e1.key ≠ e2.key) :
    (((handleWorkerEvent s e1).1).removeGroup e2.key).taskIdToDedupe =
      match s.groups.lookup e2.key with
      | some group => (handleWorkerEvent s e1).1.taskIdToDedupe.erase group.leaderInner.taskId
      | none => (handleWorkerEvent s e1).1.taskIdToDedupe := by
  have hlookup : (handleWorkerEvent s e1).1.groups.lookup e2.key = s.groups.lookup e2.key := by
    rw [handleWorkerEvent_groups]
    split
    · exact Finmap.lookup_erase_ne hne.symm
    · rfl
  have hids := SchedulerState.removeGroup_taskIdToDedupe (handleWorkerEvent s e1).1 e2.key
  rw [hlookup] at hids
  exact hids

/-- **The handlers commute**: each edits its own key. -/
theorem handleWorkerEvent_comm (hne : e1.key ≠ e2.key) :
    (handleWorkerEvent (handleWorkerEvent s e1).1 e2).1 =
      (handleWorkerEvent (handleWorkerEvent s e2).1 e1).1 := by
  have hgroups : (handleWorkerEvent (handleWorkerEvent s e1).1 e2).1.groups =
      (handleWorkerEvent (handleWorkerEvent s e2).1 e1).1.groups := by
    simp only [handleWorkerEvent_groups, WorkerEvent.Ends.after hne, WorkerEvent.Ends.after hne.symm]
    by_cases h1 : e1.Ends s <;> by_cases h2 : e2.Ends s <;> simp [h1, h2, Finmap.erase_erase]
  have hids : (handleWorkerEvent (handleWorkerEvent s e1).1 e2).1.taskIdToDedupe =
      (handleWorkerEvent (handleWorkerEvent s e2).1 e1).1.taskIdToDedupe := by
    simp only [handleWorkerEvent_taskIdToDedupe _ e1, handleWorkerEvent_taskIdToDedupe _ e2,
      WorkerEvent.Ends.after hne, WorkerEvent.Ends.after hne.symm, removeGroup_ids_after hne,
      removeGroup_ids_after hne.symm, SchedulerState.removeGroup_taskIdToDedupe]
    cases s.groups.lookup e1.key <;> cases s.groups.lookup e2.key <;>
      by_cases h1 : e1.Ends s <;> by_cases h2 : e2.Ends s <;> simp [h1, h2, Finmap.erase_erase]
  have hactive : (handleWorkerEvent (handleWorkerEvent s e1).1 e2).1.active =
      (handleWorkerEvent (handleWorkerEvent s e2).1 e1).1.active := by
    simp only [handleWorkerEvent_active]
    cases e1.terminal <;> cases e2.terminal <;> simp [Finmap.erase_erase]
  have hpaused : (handleWorkerEvent (handleWorkerEvent s e1).1 e2).1.pausedSet =
      (handleWorkerEvent (handleWorkerEvent s e2).1 e1).1.pausedSet := by
    simp only [handleWorkerEvent_pausedSet]
    split <;> split <;> simp [Finset.erase_right_comm]
  have hoffsets : (handleWorkerEvent (handleWorkerEvent s e1).1 e2).1.offsets =
      (handleWorkerEvent (handleWorkerEvent s e2).1 e1).1.offsets := by
    refine Finmap.ext_lookup fun k => ?_
    simp only [handleWorkerEvent_offsets, WorkerEvent.Ends.after hne, WorkerEvent.Ends.after hne.symm]
    by_cases h1 : k = e1.key
    · have h2 : k ≠ e2.key := fun h2 => hne (h1.symm.trans h2)
      simp [h2]
    · simp [h1]
  -- every other field is that of `s`
  have hrest : ∀ {β : Type} (f : SchedulerState → β), (∀ st groups ids paused active offsets,
      f { st with
        groups := groups
        taskIdToDedupe := ids
        pausedSet := paused
        active := active
        offsets := offsets } = f st) →
      f (handleWorkerEvent (handleWorkerEvent s e1).1 e2).1 =
        f (handleWorkerEvent (handleWorkerEvent s e2).1 e1).1 := by
    intro β f hf
    simp only [handleWorkerEvent_field _ _ f (hf _)]
  exact SchedulerState.ext (hrest (·.maxUploadConcurrency) fun _ _ _ _ _ _ => rfl)
    (hrest (·.maxDownloadConcurrency) fun _ _ _ _ _ _ => rfl)
    (hrest (·.globalProgressListener) fun _ _ _ _ _ _ => rfl) hgroups hids
    (hrest (·.queued) fun _ _ _ _ _ _ => rfl) (hrest (·.queuedSet) fun _ _ _ _ _ _ => rfl) hpaused
    hactive hoffsets (hrest (·.nextToken) fun _ _ _ _ _ _ => rfl)

end

/-! ## One refill more -/

section
variable {x y : SchedulerState} {e : WorkerEvent}

/-- An event drops its own key from the runnable ones, if it is the last of its worker. -/
theorem runnable_event (h : Loose x) : (handleWorkerEvent x e).1.runnable =
    if e.terminal then x.runnable.filter fun k => k ≠ e.key else x.runnable := by
  have hrun : ∀ k ∈ x.queued, (k ∉ (handleWorkerEvent x e).1.active ∧ k ∈ (handleWorkerEvent x e).1.groups ↔
      (k ∉ x.active ∧ k ∈ x.groups) ∧ (e.terminal = true → k ≠ e.key)) := by
    intro k hk
    have hinactive : k ∉ x.active := h.queued_active k hk
    have hpaused : k ∉ x.pausedSet := h.queued_paused k hk
    have hactive : k ∉ (handleWorkerEvent x e).1.active := by
      rw [handleWorkerEvent_active]
      split
      · exact fun hm => hinactive (Finmap.mem_erase.1 hm).2
      · exact hinactive
    rw [handleWorkerEvent_groups]
    by_cases ht : e.terminal = true
    · by_cases hkey : k = e.key
      · have hends : e.Ends x := ⟨ht, fun _ => hkey ▸ hpaused⟩
        simp [hends, hkey, ht]
      · by_cases hends : e.Ends x <;> simp [hends, hkey, hactive, hinactive, Finmap.mem_erase]
    · have hends : ¬ e.Ends x := fun he => ht he.1
      simp [hends, ht, hactive, hinactive]
  have hfilter : (handleWorkerEvent x e).1.runnable =
      x.runnable.filter fun k => decide (e.terminal = true → k ≠ e.key) := by
    rw [SchedulerState.runnable, SchedulerState.runnable, handleWorkerEvent_queued, List.filter_filter]
    refine List.filter_congr fun k hk => ?_
    rw [← Bool.decide_and, decide_eq_decide, hrun k hk, and_comm]
  rw [hfilter]
  by_cases ht : e.terminal = true <;> simp [ht]

/-- It frees the slot that its key has, if any. -/
theorem free_event (h : Loose x) (d : Direction) : (handleWorkerEvent x e).1.free d =
    x.free d + if e.terminal = true ∧ e.key ∈ x.active then single e.key.1 d else 0 := by
  unfold SchedulerState.free
  rw [handleWorkerEvent_maxConcurrency]
  by_cases ht : e.terminal = true
  · by_cases ha : e.key ∈ x.active
    · have hcount : (handleWorkerEvent x e).1.activeCount d + (if e.key.1 = d then 1 else 0) =
          x.activeCount d := by
        unfold SchedulerState.activeCount
        rw [handleWorkerEvent_active, if_pos ht]
        exact Table.card_keys_erase_mem _ ha
      have hcap := h.capacity d
      simp only [ht, ha, and_self, if_true, single, eq_comm (a := d)]
      omega
    · have hcount : (handleWorkerEvent x e).1.activeCount d = x.activeCount d := by
        unfold SchedulerState.activeCount
        rw [handleWorkerEvent_active, if_pos ht, Table.erase_of_notMem ha]
      simp [ha, hcount]
  · have hcount : (handleWorkerEvent x e).1.activeCount d = x.activeCount d := by
      unfold SchedulerState.activeCount
      rw [handleWorkerEvent_active, if_neg ht]
    simp [ht, hcount]

/-- **What the first refill kept and gave away** does not matter for what the second keeps. -/
theorem kept_refill_once (h : Loose x) :
    kept Prod.fst (handleWorkerEvent (tryStartNext x).state e).1.free
        (handleWorkerEvent (tryStartNext x).state e).1.runnable =
      kept Prod.fst (handleWorkerEvent x e).1.free (handleWorkerEvent x e).1.runnable := by
  have hrefill := tryStartNext_refills h.queued_nodup h.queuedSet_eq
  have hnodup : x.runnable.Nodup := h.queued_nodup.filter _
  have hy : Inv (tryStartNext x).state := h.tryStartNext
  -- all that is left is blocked, so runnable
  have hleft : (tryStartNext x).state.runnable = kept Prod.fst x.free x.runnable := by
    rw [← List.nil_append (kept Prod.fst x.free x.runnable), ← hrefill.queued]
    refine List.filter_eq_self.2 fun k hk => ?_
    simp [hy.queued_active k hk, hy.queued_group k hk]
  have hfree : ∀ d, (tryStartNext x).state.free d = x.free d - used Prod.fst x.free x.runnable d := by
    intro d
    have hcount := hrefill.activeCount d
    have hmax := (tryStartNext_same x).limits d
    unfold SchedulerState.free at hcount ⊢
    omega
  have hfree1 := funext fun d => free_event (e := e) hy.toLoose d
  have hfree2 := funext fun d => free_event (e := e) h d
  rw [runnable_event hy.toLoose, runnable_event h, hfree1, hfree2, hleft]
  simp only [hfree]
  by_cases ht : e.terminal = true
  · simp only [ht, if_true, true_and]
    by_cases ha : e.key ∈ x.active
    · -- the key was running all along
      have hgone : e.key ∉ x.runnable := fun hm => by
        have hrun := (List.mem_filter.1 hm).2
        simp [ha] at hrun
      have hkept : e.key ∉ kept Prod.fst x.free x.runnable := fun hm => hgone (kept_sublist.subset hm)
      have hy' : e.key ∈ (tryStartNext x).state.active := (hrefill.active _).2 (.inl ha)
      simp only [ha, hy', if_true]
      rw [filter_ne_of_not_mem hgone, filter_ne_of_not_mem hkept]
      exact kept_add
    · -- it is the first refill that may have started it
      have hstarted : e.key ∈ (tryStartNext x).state.active ↔
          e.key ∈ started Prod.fst x.free x.runnable := by
        rw [hrefill.active]
        exact or_iff_right ha
      simp only [hstarted, ha, if_false, Nat.add_zero]
      exact kept_leave hnodup
  · simp only [ht, Bool.false_eq_true, if_false, false_and, Nat.add_zero]
    exact @kept_again UniqueId Direction _ Prod.fst x.free x.runnable

/-- Two states with the same tables, where `active` counts for its keys only: the tokens in it are
numbered in the order of the starts. -/
structure TablesAgree (x y : SchedulerState) : Prop where
  groups : x.groups = y.groups
  taskIdToDedupe : x.taskIdToDedupe = y.taskIdToDedupe
  queued : x.queued = y.queued
  queuedSet : x.queuedSet = y.queuedSet
  pausedSet : x.pausedSet = y.pausedSet
  offsets : x.offsets = y.offsets
  active : x.active.keys = y.active.keys

theorem TablesAgree.symm (h : TablesAgree x y) : TablesAgree y x :=
  ⟨h.groups.symm, h.taskIdToDedupe.symm, h.queued.symm, h.queuedSet.symm, h.pausedSet.symm,
    h.offsets.symm, h.active.symm⟩

theorem TablesAgree.trans {z : SchedulerState} (h : TablesAgree x y) (h' : TablesAgree y z) :
    TablesAgree x z :=
  ⟨h.groups.trans h'.groups, h.taskIdToDedupe.trans h'.taskIdToDedupe, h.queued.trans h'.queued,
    h.queuedSet.trans h'.queuedSet, h.pausedSet.trans h'.pausedSet, h.offsets.trans h'.offsets,
    h.active.trans h'.active⟩

/-- Who runs after a refill is read off what the queue still holds then. -/
theorem mem_active_refill (hnd : x.queued.Nodup) (hset : x.queuedSet = x.queued.toFinset) (k : UniqueId) :
    k ∈ (tryStartNext x).state.active ↔
      k ∈ x.active ∨ k ∈ x.runnable ∧ k ∉ (tryStartNext x).state.queued := by
  have hrefill := tryStartNext_refills hnd hset
  have hnodup : x.runnable.Nodup := hnd.filter _
  rw [hrefill.active, mem_started_iff hnodup, hrefill.queued, List.nil_append]

theorem mem_queued_refill (hnd : x.queued.Nodup) (hset : x.queuedSet = x.queued.toFinset) {k : UniqueId}
    (hk : k ∈ (tryStartNext x).state.queued) : k ∈ x.runnable := by
  rw [(tryStartNext_refills hnd hset).queued, List.nil_append] at hk
  exact kept_sublist.subset hk

theorem mem_active_refill_once (h : Loose x) {k : UniqueId}
    (hqueued : (tryStartNext (handleWorkerEvent (tryStartNext x).state e).1).state.queued =
      (tryStartNext (handleWorkerEvent x e).1).state.queued) :
    k ∈ (tryStartNext (handleWorkerEvent (tryStartNext x).state e).1).state.active ↔
      k ∈ (tryStartNext (handleWorkerEvent x e).1).state.active := by
  have hy : Inv (tryStartNext x).state := h.tryStartNext
  have hnd1 : (handleWorkerEvent (tryStartNext x).state e).1.queued.Nodup := by
    simpa using hy.queued_nodup
  have hset1 : (handleWorkerEvent (tryStartNext x).state e).1.queuedSet =
      (handleWorkerEvent (tryStartNext x).state e).1.queued.toFinset := by
    simpa using hy.queuedSet_eq
  have hnd2 : (handleWorkerEvent x e).1.queued.Nodup := by
    simpa using h.queued_nodup
  have hset2 : (handleWorkerEvent x e).1.queuedSet = (handleWorkerEvent x e).1.queued.toFinset := by
    simpa using h.queuedSet_eq
  have hlast : k ∈ (tryStartNext (handleWorkerEvent x e).1).state.queued →
      k ∈ (tryStartNext x).state.queued := by
    rw [← hqueued]
    intro hk
    have hrun := SchedulerState.runnable_sublist.subset (mem_queued_refill hnd1 hset1 hk)
    rwa [handleWorkerEvent_queued] at hrun
  have hfirst : k ∈ (tryStartNext x).state.queued → k ∈ x.runnable :=
    mem_queued_refill h.queued_nodup h.queuedSet_eq
  have hrun : k ∈ (tryStartNext x).state.runnable ↔ k ∈ (tryStartNext x).state.queued := by
    refine ⟨fun hk => SchedulerState.runnable_sublist.subset hk, fun hk => List.mem_filter.2 ⟨hk, ?_⟩⟩
    simp [hy.queued_active k hk, hy.queued_group k hk]
  have hactive := mem_active_refill h.queued_nodup h.queuedSet_eq k
  rw [mem_active_refill hnd1 hset1, mem_active_refill hnd2 hset2, hqueued, runnable_event hy.toLoose,
    runnable_event h, handleWorkerEvent_active, handleWorkerEvent_active]
  by_cases ht : e.terminal = true
  · simp only [ht, if_true, Finmap.mem_erase, List.mem_filter, decide_eq_true_eq, hrun, hactive]
    clear hrun hactive hnd1 hset1 hnd2 hset2 hqueued hy h
    tauto
  · simp only [ht, Bool.false_eq_true, if_false, hrun, hactive]
    clear hrun hactive hnd1 hset1 hnd2 hset2 hqueued hy h
    tauto

/-- **A refill before the event makes no difference**, given the one after it. -/
theorem refill_once (h : Loose x) :
    TablesAgree (tryStartNext (handleWorkerEvent (tryStartNext x).state e).1).state
      (tryStartNext (handleWorkerEvent x e).1).state := by
  have hsame := tryStartNext_same x
  have hrefill := tryStartNext_refills h.queued_nodup h.queuedSet_eq
  have hy : Inv (tryStartNext x).state := h.tryStartNext
  have hends : e.Ends (tryStartNext x).state ↔ e.Ends x := by
    unfold WorkerEvent.Ends
    rw [hsame.pausedSet]
  have h1 := tryStartNext_same (handleWorkerEvent (tryStartNext x).state e).1
  have h2 := tryStartNext_same (handleWorkerEvent x e).1
  have hrefill1 := @tryStartNext_refills (handleWorkerEvent (tryStartNext x).state e).1
    (by simpa using hy.queued_nodup) (by simpa using hy.queuedSet_eq)
  have hrefill2 := @tryStartNext_refills (handleWorkerEvent x e).1 (by simpa using h.queued_nodup)
    (by simpa using h.queuedSet_eq)
  have hqueued : (tryStartNext (handleWorkerEvent (tryStartNext x).state e).1).state.queued =
      (tryStartNext (handleWorkerEvent x e).1).state.queued := by
    rw [hrefill1.queued, hrefill2.queued, kept_refill_once h]
  refine ⟨?_, ?_, hqueued, ?_, ?_, ?_, ?_⟩
  · rw [h1.groups, h2.groups, handleWorkerEvent_groups, handleWorkerEvent_groups, hsame.groups]
    simp only [hends]
  · rw [h1.taskIdToDedupe, h2.taskIdToDedupe, handleWorkerEvent_taskIdToDedupe,
      handleWorkerEvent_taskIdToDedupe, SchedulerState.removeGroup_taskIdToDedupe,
      SchedulerState.removeGroup_taskIdToDedupe, hsame.groups, hsame.taskIdToDedupe]
    simp only [hends]
  · rw [hrefill1.queuedSet, hrefill2.queuedSet, hqueued]
  · rw [h1.pausedSet, h2.pausedSet, handleWorkerEvent_pausedSet, handleWorkerEvent_pausedSet,
      hsame.pausedSet]
  · rw [h1.offsets, h2.offsets]
    refine Finmap.ext_lookup fun k => ?_
    rw [handleWorkerEvent_offsets, handleWorkerEvent_offsets, hsame.offsets]
    simp only [hends]
  · ext k
    rw [Finmap.mem_keys, Finmap.mem_keys]
    exact mem_active_refill_once h hqueued

end

/-- **Events on different keys commute.** At every iteration boundary two worker events on distinct
keys, with any payloads, leave the same tables in either order, each followed by its `try_start_next`. -/
theorem events_commute (loop : Loop) (h : loop.Reachable) (e1 e2 : WorkerEvent) (hne : e1.key ≠ e2.key) :
    TablesAgree (react (react loop.state (.event e1)).1 (.event e2)).1
      (react (react loop.state (.event e2)).1 (.event e1)).1 := by
  have hinv : Inv loop.state := reachable_inv loop h
  have h12 := @refill_once _ e2 (hinv.handleWorkerEvent e1)
  have h21 := @refill_once _ e1 (hinv.handleWorkerEvent e2)
  rw [handleWorkerEvent_comm hne] at h12
  exact h12.trans h21.symm

/-- The second event concerns the very key that the first one starts. -/
theorem events_commute_started : ∃ loop, Lts.run Loop.step (.init 1 1) threeDownloads = some loop ∧
    TablesAgree
      (react (react loop.state (.event (.completed (.download, "a") 8))).1
        (.event (.canceled (.download, "b")))).1
      (react (react loop.state (.event (.canceled (.download, "b")))).1
        (.event (.completed (.download, "a") 8))).1 := by
  have hrun : Lts.run Loop.step (.init 1 1) threeDownloads = some _ := Lts.run_final (by decide)
  exact ⟨_, hrun, events_commute _ ⟨1, 1, _, hrun⟩ _ _ (by decide)⟩

end SpottedCat
