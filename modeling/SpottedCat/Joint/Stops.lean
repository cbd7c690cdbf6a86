import SpottedCat.Joint.Ownership
import SpottedCat.Sched.Commute
import SpottedCat.Sched.StopWatch

/-!
# A pause or a cancel that was answered

`active` holds one token per key, while a task may have several workers over its pauses, and a late
event may take the token out. What makes an acknowledged `Pause` or `Cancel` final for all of them
is that a worker of a live task has its token in `active` or cancelled already (`Agrees.token`): a
worker's token leaves `active` with the task, or out of a pause, which has cancelled it
(`Agrees.marked`).

`Agrees` couples the state of the monitor `stopWatch` with the system, so that the monitor never gets
stuck (`Agreed.step`).
-/

namespace SpottedCat

/-- Inside `executor.transfer_chunk` (retry.rs:72). -/
def RunPc.inChunk : RunPc → Bool
  | .retry _ _ (.calling _) => true
  | _ => false

/-- The monitor's state agrees with the scheduler and with the workers. -/
structure Agrees (id : TaskId) (stop : Stop) (ids : List TaskId) (s : SchedulerState) (pool : Pool) :
    Prop where
  live : ∀ k g, s.groups.lookup k = some g → g.leaderInner.taskId = id →
    stop ≠ .cancelled ∧ (stop = .paused ↔ k ∈ s.pausedSet)
  /-- A worker of a live task holds the slot of its key, or is cancelled. -/
  token : ∀ k g, s.groups.lookup k = some g → g.leaderInner.taskId = id →
    ∀ w ∈ pool.workers, w.inner.taskId = id →
      w.cancel ∈ pool.cancelled ∨ s.active.lookup k = some ⟨w.cancel⟩
  marked : ∀ k ∈ s.pausedSet, ∀ a, s.active.lookup k = some a → a.cancel ∈ pool.cancelled
  stopped : stop ≠ .running → ∀ w ∈ pool.workers, w.inner.taskId = id → w.cancel ∈ pool.cancelled
  issued : ∀ k g, s.groups.lookup k = some g → g.leaderInner.taskId ∈ ids
  fresh : id ∉ ids → stop = .running ∧ ∀ w ∈ pool.workers, w.inner.taskId ≠ id

variable {id : TaskId} {stop stop' : Stop} {ids : List TaskId} {s s' : SchedulerState}
  {pool pool' : Pool} {input : LoopInput} {x : SchedulerState × List Effect}

/-! ## Starts -/

theorem Agrees.start {key : UniqueId} {group : GroupState} {rest : List UniqueId} (hl : Loose s)
    (h : Agrees id stop ids s pool) (hq : s.queued = key :: rest) (ha : key ∉ s.active)
    (hg : s.groups.lookup key = some group) :
    stopWatch id stop (.spawn key group.leaderInner ⟨s.nextToken⟩ (s.current key)) = some stop ∧
    Agrees id stop ids ((s.dequeue key rest).activate key)
      (pool.spawn ⟨key, group.leaderInner, ⟨s.nextToken⟩, s.current key, .preparing, []⟩) := by
  -- a key in the queue is not paused, so its task is not stopped
  have hpaused : key ∉ s.pausedSet := hl.queued_paused key (by rw [hq]; exact List.mem_cons_self)
  have hrunning : group.leaderInner.taskId = id → stop = .running := by
    intro hid
    obtain ⟨hne, hiff⟩ := h.live key group hg hid
    cases stop with
    | running => rfl
    | paused => exact absurd (hiff.1 rfl) hpaused
    | cancelled => exact absurd rfl hne
  have hmem : ∀ w ∈ (pool.spawn ⟨key, group.leaderInner, ⟨s.nextToken⟩, s.current key, .preparing,
      []⟩).workers, w ∈ pool.workers ∨ w.inner = group.leaderInner ∧ w.cancel = ⟨s.nextToken⟩ := by
    intro w hw
    rcases List.mem_append.1 hw with hw | hw
    · exact .inl hw
    · rw [List.mem_singleton.1 hw]
      exact .inr ⟨rfl, rfl⟩
  refine ⟨?_, h.live, fun k g hgk hid w hw hwid => ?_, fun k hk a hak => ?_, fun hstop w hw hwid => ?_,
    h.issued, fun hfresh => ⟨(h.fresh hfresh).1, fun w hw hwid => ?_⟩⟩
  · refine if_neg ?_
    rintro ⟨hid, hne⟩
    exact hne (hrunning hid)
  · simp only [SchedulerState.activate, SchedulerState.dequeue, Table.lookup_insert_ite] at hgk ⊢
    rcases hmem w hw with hw | ⟨hinner, hcancel⟩
    · rcases h.token k g hgk hid w hw hwid with hc | hact
      · exact .inl hc
      · have hne : k ≠ key := fun he => ha (he ▸ Finmap.mem_of_lookup_eq_some hact)
        rw [if_neg hne]
        exact .inr hact
    · -- the new worker: its task has one key only
      have hkey : k = key := by
        have h1 := (hl.id_map id k).2 ⟨g, hgk, hid⟩
        have h2 := (hl.id_map id key).2 ⟨group, hg, hinner ▸ hwid⟩
        rw [h1] at h2
        exact Option.some.inj h2
      rw [if_pos hkey, hcancel]
      exact .inr rfl
  · simp only [SchedulerState.activate, SchedulerState.dequeue, Table.lookup_insert_ite] at hak hk
    have hne : k ≠ key := fun he => hpaused (he ▸ hk)
    rw [if_neg hne] at hak
    exact h.marked k hk a hak
  · rcases hmem w hw with hw | ⟨hinner, _⟩
    · exact h.stopped hstop w hw hwid
    · exact absurd (hrunning (hinner ▸ hwid)) hstop
  · rcases hmem w hw with hw | ⟨hinner, _⟩
    · exact (h.fresh hfresh).2 w hw hwid
    · exact hfresh (hwid ▸ hinner ▸ h.issued key group hg)

/-- **The refill** starts nothing for a stopped task. -/
theorem Agrees.tryStartNext (hl : Loose s) (h : Agrees id stop ids s pool) :
    Lts.run (stopWatch id) stop (tryStartNext s).effects = some stop ∧
      Agrees id stop ids (SpottedCat.tryStartNext s).state
        (pool.absorb (SpottedCat.tryStartNext s).effects) := by
  have habsorb : pool.absorb [] = pool := by simp [Pool.absorb]
  refine (tryStartNext_induct (P := fun st es => Loose st ∧ Lts.run (stopWatch id) stop es = some stop ∧
    Agrees id stop ids st (pool.absorb es)) ⟨hl, rfl, habsorb.symm ▸ h⟩ ?_ ?_ ?_).2
  · rintro st es key rest ⟨hl, hrun, h⟩ hq hd
    exact ⟨hl.dequeue hq hd, hrun, h.live, h.token, h.marked, h.stopped, h.issued, h.fresh⟩
  · rintro st es key rest ⟨hl, hrun, h⟩ hq _
    exact ⟨hl.requeue hq, hrun, h.live, h.token, h.marked, h.stopped, h.issued, h.fresh⟩
  · rintro st es key rest group ⟨hl, hrun, h⟩ hq ha hg hc
    obtain ⟨hwatch, hstart⟩ := h.start hl hq ha hg
    refine ⟨hl.start hq (Finmap.mem_of_lookup_eq_some hg) hc, ?_, ?_⟩
    · refine Lts.run_append.2 ⟨stop, hrun, Lts.run_snoc.2 ⟨stop, stopWatch_quiets ?_, hwatch⟩⟩
      exact fun e he => .of_record (mem_emitStatus he)
    · rw [Pool.absorb_append, Pool.absorb_startEffects]
      exact hstart

/-! ## One input -/

/-- Where the groups come from: a group that stays keeps its slot, unless it is paused. -/
theorem Footprint.origin (h : Footprint s input s') {k : UniqueId} {g : GroupState}
    (hg : s'.groups.lookup k = some g) :
    s.groups.lookup k = some g ∧ (s'.active.lookup k = s.active.lookup k ∨ k ∈ s.pausedSet) ∨
      g.leaderInner.taskId ∈ input.issues := by
  cases h with
  | keep _ groups active _ => exact .inl ⟨groups ▸ hg, .inl (by rw [active])⟩
  | accept inner callbacks _ groups active _ =>
    rw [groups, Table.lookup_insert_ite] at hg
    split at hg
    · cases hg
      exact .inr List.mem_cons_self
    · exact .inl ⟨hg, .inl (by rw [active])⟩
  | cancel _ key _ groups active _ =>
    obtain ⟨hg, ha⟩ := lookup_of_erase_group groups active hg
    exact .inl ⟨hg, .inl ha⟩
  | close _ _ groups _ _ =>
    rw [groups] at hg
    cases hg
  | progress _ _ _ groups active _ => exact .inl ⟨groups ▸ hg, .inl (by rw [active])⟩
  | finish _ _ groups active _ =>
    obtain ⟨hg, ha⟩ := lookup_of_erase_group groups active hg
    exact .inl ⟨hg, .inl ha⟩
  | stop key paused groups active _ =>
    refine .inl ⟨groups ▸ hg, ?_⟩
    by_cases hk : k = key
    · exact .inr (hk ▸ paused)
    · rw [active, Table.lookup_erase_ite, if_neg hk]
      exact .inl rfl

theorem Footprint.slot (h : Footprint s input s') {k : UniqueId} {a : ActiveState}
    (ha : s'.active.lookup k = some a) : s.active.lookup k = some a := by
  cases h with
  | keep _ _ active _ | accept _ _ _ _ active _ | progress _ _ _ _ active _ => exact active ▸ ha
  | cancel _ _ _ _ active _ | finish _ _ _ active _ | stop _ _ _ active _ =>
    exact (lookup_of_erase (active ▸ ha)).2
  | close _ _ _ active _ =>
    rw [active] at ha
    cases ha

theorem Pool.mem_absorb_cancelled {es : List Effect} {token : CancellationToken} :
    token ∈ (pool.absorb es).cancelled ↔ token ∈ pool.cancelled ∨ .cancel token ∈ es := by
  simp only [Pool.absorb, Finset.mem_union, List.mem_toFinset, List.mem_filterMap]
  refine or_congr_right ⟨?_, fun he => ⟨_, he, rfl⟩⟩
  rintro ⟨e, he, hc⟩
  cases e <;> cases hc
  exact he

/-- **What is left to show of an input** is what it does to the task's own stop. -/
theorem Agrees.before (h : Agrees id stop ids s pool) (hb : Before s input x) (he : Edits s x)
    (hnew : ∀ i ∈ input.issues, i ∉ ids)
    (hlive : ∀ k g, x.1.groups.lookup k = some g → g.leaderInner.taskId = id →
      stop' ≠ .cancelled ∧ (stop' = .paused ↔ k ∈ x.1.pausedSet))
    (hstopped : stop' ≠ .running → ∀ w ∈ pool.workers, w.inner.taskId = id →
      w.cancel ∈ (pool.absorb x.2).cancelled)
    (hknown : stop' = stop ∨ id ∈ ids) :
    Agrees id stop' (ids ++ input.issues) x.1 (pool.absorb x.2) := by
  have hworkers : (pool.absorb x.2).workers = pool.workers := Pool.absorb_noSpawn pool hb.noSpawn
  have hmono : ∀ token ∈ pool.cancelled, token ∈ (pool.absorb x.2).cancelled :=
    fun _ ht => Pool.mem_absorb_cancelled.2 (.inl ht)
  refine ⟨hlive, fun k g hg hid w hw hwid => ?_, fun k hk a ha => ?_, fun hstop w hw => ?_,
    fun k g hg => ?_, fun hid => ?_⟩
  · rw [hworkers] at hw
    rcases hb.footprint.origin hg with ⟨hg, hslot⟩ | hissued
    · rcases h.token k g hg hid w hw hwid with hc | ha
      · exact .inl (hmono _ hc)
      · rcases hslot with hsame | hpaused
        · exact .inr (hsame.trans ha)
        · exact .inl (hmono _ (h.marked k hpaused _ ha))
    · -- a task has no worker before it is accepted
      exact absurd hwid ((h.fresh (hnew id (hid ▸ hissued))).2 w hw)
  · have ha' := hb.footprint.slot ha
    rcases he.paused k hk with hk | hcancel
    · exact hmono _ (h.marked k hk a ha')
    · exact Pool.mem_absorb_cancelled.2 (.inr (hcancel a ha'))
  · rw [hworkers] at hw
    exact hstopped hstop w hw
  · rcases hb.footprint.origin hg with ⟨hg, _⟩ | hissued
    · exact List.mem_append_left _ (h.issued k g hg)
    · exact List.mem_append_right _ hissued
  · have hold : id ∉ ids := fun hm => hid (List.mem_append_left _ hm)
    obtain ⟨hrunning, hnone⟩ := h.fresh hold
    rw [hworkers]
    exact ⟨(hknown.resolve_right hold).trans hrunning, hnone⟩

/-- An input that leaves the task's pause mark alone. -/
theorem Agrees.keep (h : Agrees id stop ids s pool) (hb : Before s input x) (he : Edits s x)
    (hnew : ∀ i ∈ input.issues, i ∉ ids)
    (hgroups : ∀ k g, x.1.groups.lookup k = some g → g.leaderInner.taskId = id →
      s.groups.lookup k = some g ∧ (k ∈ x.1.pausedSet ↔ k ∈ s.pausedSet)) :
    Agrees id stop (ids ++ input.issues) x.1 (pool.absorb x.2) := by
  refine h.before hb he hnew (fun k g hg hid => ?_) (fun hstop w hw hwid => ?_) (.inl rfl)
  · obtain ⟨hg, hpaused⟩ := hgroups k g hg hid
    rw [hpaused]
    exact h.live k g hg hid
  · exact Pool.mem_absorb_cancelled.2 (.inl (h.stopped hstop w hw hwid))

/-- What `x`, before the refill, means to the monitor. -/
def Agrees.Passes (id : TaskId) (stop : Stop) (ids : List TaskId) (pool : Pool)
    (x : SchedulerState × List Effect) : Prop :=
  ∃ stop', Lts.run (stopWatch id) stop x.2 = some stop' ∧ Agrees id stop' ids x.1 (pool.absorb x.2)

/-- An event takes the pause mark of its own key only, with the group. -/
theorem handleWorkerEvent_live {event : WorkerEvent} {k : UniqueId} {g : GroupState}
    (hg : (handleWorkerEvent s event).1.groups.lookup k = some g) :
    s.groups.lookup k = some g ∧ (k ∈ (handleWorkerEvent s event).1.pausedSet ↔ k ∈ s.pausedSet) := by
  rw [handleWorkerEvent_groups] at hg
  rw [handleWorkerEvent_pausedSet]
  by_cases hends : event.Ends s
  · rw [if_pos hends, Table.lookup_erase_ite] at hg
    split at hg
    · cases hg
    · rename_i hk
      refine ⟨hg, ?_⟩
      split
      · rw [Finset.mem_erase]
        exact and_iff_right hk
      · exact Iff.rfl
  · rw [if_neg hends] at hg
    have hmark : ¬ (event.terminal = true ∧ event ≠ .canceled event.key) := fun hm =>
      hends ⟨hm.1, fun hc => absurd hc hm.2⟩
    rw [if_neg hmark]
    exact ⟨hg, Iff.rfl⟩

theorem Agrees.event (h : Agrees id stop ids s pool) (event : WorkerEvent) :
    Agrees.Passes id stop ids pool (handleWorkerEvent s event) := by
  have hkeep := h.keep (.handleWorkerEvent s event) .handleWorkerEvent
    (fun i hi => absurd hi List.not_mem_nil) fun k g hg _ => handleWorkerEvent_live hg
  rw [LoopInput.issues, List.append_nil] at hkeep
  · exact ⟨stop, stopWatch_quiets quiet_handleWorkerEvent, hkeep⟩
  · intro inner callbacks he
    cases he

theorem acceptTask_pausedSet {inner : InnerTask} {callbacks : TaskCallbacks} :
    (acceptTask s inner callbacks).1.pausedSet = s.pausedSet := by
  unfold acceptTask
  simp only
  split <;> rfl

theorem acceptTask_groups {inner : InnerTask} {callbacks : TaskCallbacks} :
    (acceptTask s inner callbacks).1.groups =
      s.groups.insert inner.dedupeKey ⟨inner, ⟨inner, callbacks⟩⟩ := by
  unfold acceptTask
  simp only
  split <;> rfl

theorem Agrees.accept {inner : InnerTask} {callbacks : TaskCallbacks} (hs : Inv s)
    (h : Agrees id stop ids s pool) (hg : s.groups.lookup inner.dedupeKey = none)
    (hnew : inner.taskId ∉ ids) :
    Agrees.Passes id stop (ids ++ [inner.taskId]) pool (acceptTask s inner callbacks) := by
  refine ⟨stop, stopWatch_quiets quiet_acceptTask, ?_⟩
  refine h.before (.acceptTask hg) .acceptTask (fun i hi => ?_) (fun k g hgk hid => ?_)
    (fun hstop w hw hwid => ?_) (.inl rfl)
  · rw [List.mem_singleton.1 hi]
    exact hnew
  · rw [acceptTask_groups, Table.lookup_insert_ite] at hgk
    rw [acceptTask_pausedSet]
    split at hgk
    · -- the new task: it has been neither stopped nor paused
      rename_i hk
      cases hgk
      have hrunning : stop = .running := (h.fresh (hid ▸ hnew)).1
      have hpaused : k ∉ s.pausedSet := fun hm =>
        Finmap.lookup_eq_none.1 hg (hk ▸ hs.paused_group k hm)
      simp [hrunning, hpaused]
    · exact h.live k g hgk hid
  · exact Pool.mem_absorb_cancelled.2 (.inl (h.stopped hstop w hw hwid))

section
variable {taskId : TaskId} {key : UniqueId}

/-- The key of a task is the one its id leads to. -/
theorem Loose.key_of_id (hs : Loose s) (hk : s.taskIdToDedupe.lookup taskId = some key) {k : UniqueId}
    {g : GroupState} (hg : s.groups.lookup k = some g) : k = key ↔ g.leaderInner.taskId = taskId := by
  obtain ⟨g0, hg0, hid0⟩ := (hs.id_map taskId key).1 hk
  constructor
  · rintro rfl
    rw [hg] at hg0
    cases hg0
    exact hid0
  · intro hid
    have hk' := (hs.id_map taskId k).2 ⟨g, hg, hid⟩
    rw [hk] at hk'
    exact (Option.some.inj hk').symm

/-- **A stop reaches every worker of the task**: the one in the slot by its token, the others before. -/
theorem Agrees.all_cancelled (hs : Loose s) (h : Agrees id stop ids s pool)
    (hk : s.taskIdToDedupe.lookup id = some key) {es : List Effect}
    (hes : ∀ e ∈ cancelActive s key, e ∈ es) :
    ∀ w ∈ pool.workers, w.inner.taskId = id → w.cancel ∈ (pool.absorb es).cancelled := by
  intro w hw hwid
  obtain ⟨g, hg, hid⟩ := (hs.id_map id key).1 hk
  rcases h.token key g hg hid w hw hwid with hc | ha
  · exact Pool.mem_absorb_cancelled.2 (.inl hc)
  · refine Pool.mem_absorb_cancelled.2 (.inr (hes _ ?_))
    simp [cancelActive, ha]

theorem Agrees.known (hs : Loose s) (h : Agrees id stop ids s pool)
    (hk : s.taskIdToDedupe.lookup id = some key) : id ∈ ids ∧ stop ≠ .cancelled := by
  obtain ⟨g, hg, hid⟩ := (hs.id_map id key).1 hk
  exact ⟨hid ▸ h.issued key g hg, (h.live key g hg hid).1⟩

theorem Agrees.pause (hs : Inv s) (h : Agrees id stop ids s pool)
    (hk : s.taskIdToDedupe.lookup taskId = some key) :
    Agrees.Passes id stop ids pool
      ((pauseGroup s key).1, (pauseGroup s key).2 ++ [.respond (.pause taskId) (.ok ())]) := by
  have hquiet : ∀ e ∈ (pauseGroup s key).2, e.Quiet := by
    intro e he
    rcases List.mem_append.1 he with he | he
    · exact quiet_cancelActive e he
    · exact quiet_groupStatus e he
  by_cases hid : taskId = id
  · subst hid
    obtain ⟨hknown, hne⟩ := h.known hs.toLoose hk
    refine ⟨.paused, ?_, ?_⟩
    · rw [stopWatch_answer hquiet]
      simp [stopWatch, hne]
    · have hbefore := @Agrees.before taskId stop .paused ids s pool _ _ h (.pauseGroup hk) .pauseGroup
        (fun i hi => absurd hi List.not_mem_nil) (fun k g hg hgid => ?_)
        (fun _ => h.all_cancelled hs.toLoose hk fun e he =>
          List.mem_append_left _ (List.mem_append_left _ he)) (.inr hknown)
      · simpa [LoopInput.issues] using hbefore
      · have hkey : k = key := (hs.toLoose.key_of_id hk hg).2 hgid
        simp [pauseGroup, SchedulerState.markPaused, hkey]
  · refine ⟨stop, ?_, ?_⟩
    · rw [stopWatch_answer hquiet]
      simp [stopWatch, hid]
    · have hkeep := h.keep (.pauseGroup hk) .pauseGroup (fun i hi => absurd hi List.not_mem_nil)
        fun k g hg hgid => ?_
      · simpa [LoopInput.issues] using hkeep
      · have hkey : k ≠ key := fun he => hid (((hs.toLoose.key_of_id hk hg).1 he).symm.trans hgid)
        exact ⟨hg, by simp [pauseGroup, SchedulerState.markPaused, hkey]⟩

theorem Agrees.cancel (hs : Inv s) (h : Agrees id stop ids s pool)
    (hk : s.taskIdToDedupe.lookup taskId = some key) :
    Agrees.Passes id stop ids pool
      ((cancelGroup s key).1, (cancelGroup s key).2 ++ [.respond (.cancel taskId) (.ok ())]) := by
  have hquiet : ∀ e ∈ (cancelGroup s key).2, e.Quiet := by
    intro e he
    rcases List.mem_append.1 he with he | he
    · exact quiet_cancelActive e he
    · exact quiet_groupStatus e he
  have hgroups : ∀ k g, (cancelGroup s key).1.groups.lookup k = some g →
      k ≠ key ∧ s.groups.lookup k = some g := by
    intro k g hg
    have hg : ((s.withdraw key).removeGroup key).groups.lookup k = some g := hg
    rw [SchedulerState.removeGroup_groups, Table.lookup_erase_ite] at hg
    split at hg
    · cases hg
    · rename_i hne
      exact ⟨hne, hg⟩
  by_cases hid : taskId = id
  · subst hid
    obtain ⟨hknown, hne⟩ := h.known hs.toLoose hk
    refine ⟨.cancelled, ?_, ?_⟩
    · rw [stopWatch_answer hquiet]
      simp [stopWatch, hne]
    · have hbefore := @Agrees.before taskId stop .cancelled ids s pool _ _ h (.cancelGroup hk) .cancelGroup
        (fun i hi => absurd hi List.not_mem_nil) (fun k g hg hgid => ?_)
        (fun _ => h.all_cancelled hs.toLoose hk fun e he =>
          List.mem_append_left _ (List.mem_append_left _ he)) (.inr hknown)
      · simpa [LoopInput.issues] using hbefore
      · obtain ⟨hkey, hg⟩ := hgroups k g hg
        exact absurd ((hs.toLoose.key_of_id hk hg).2 hgid) hkey
  · refine ⟨stop, ?_, ?_⟩
    · rw [stopWatch_answer hquiet]
      simp [stopWatch, hid]
    · have hkeep := h.keep (.cancelGroup hk) .cancelGroup (fun i hi => absurd hi List.not_mem_nil)
        fun k g hg hgid => ?_
      · simpa [LoopInput.issues] using hkeep
      · obtain ⟨hkey, hg⟩ := hgroups k g hg
        refine ⟨hg, ?_⟩
        rw [cancelGroup_pausedSet, Finset.mem_erase]
        exact and_iff_right hkey

/-- What a resume that succeeds has found and done. -/
theorem resumeGroup_ok_paused (hok : (resumeGroup s key).1 = .ok ()) :
    key ∈ s.pausedSet ∧ (resumeGroup s key).2.1.groups = s.groups ∧
      (resumeGroup s key).2.1.pausedSet = s.pausedSet.erase key := by
  unfold resumeGroup at hok ⊢
  by_cases hp : key ∈ s.pausedSet
  · by_cases ha : key ∈ s.active
    · simp [hp, ha] at hok
    · by_cases hg : key ∈ s.groups
      · simp only [hp, ha, hg, not_true_eq_false, if_false, not_false_eq_true, true_and]
        split <;> exact ⟨rfl, rfl⟩
      · simp [hp, ha, hg] at hok
  · simp [hp] at hok

theorem Agrees.resume (hs : Inv s) (h : Agrees id stop ids s pool)
    (hk : s.taskIdToDedupe.lookup taskId = some key) :
    Agrees.Passes id stop ids pool ((resumeGroup s key).2.1,
      (resumeGroup s key).2.2 ++ [.respond (.resume taskId) (resumeGroup s key).1]) := by
  have hkeep : ∀ es, (∀ k g, (resumeGroup s key).2.1.groups.lookup k = some g →
      g.leaderInner.taskId = id → s.groups.lookup k = some g ∧
        (k ∈ (resumeGroup s key).2.1.pausedSet ↔ k ∈ s.pausedSet)) → es = (resumeGroup s key).2.2 ++
          [.respond (.resume taskId) (resumeGroup s key).1] →
      Agrees id stop ids (resumeGroup s key).2.1 (pool.absorb es) := by
    rintro es hgroups rfl
    have hall := h.keep (.resumeGroup taskId key) .resumeGroup
      (fun i hi => absurd hi List.not_mem_nil) hgroups
    simpa [LoopInput.issues] using hall
  cases hret : (resumeGroup s key).1 with
  | error error =>
    obtain ⟨hstate, heffects⟩ := hs.toLoose.resumeGroup_error hret
    refine ⟨stop, ?_, hkeep _ (fun k g hg _ => ?_) (by rw [hret])⟩
    · rw [stopWatch_answer quiet_resumeGroup]
      exact stopWatch_error
    · rw [hstate] at hg ⊢
      exact ⟨hg, Iff.rfl⟩
  | ok =>
    obtain ⟨hp, hgroups, hpaused⟩ := resumeGroup_ok_paused hret
    by_cases hid : taskId = id
    · subst hid
      obtain ⟨g0, hg0, hid0⟩ := (hs.id_map taskId key).1 hk
      have hstop : stop = .paused := (h.live key g0 hg0 hid0).2.2 hp
      refine ⟨.running, ?_, ?_⟩
      · rw [stopWatch_answer quiet_resumeGroup]
        simp [stopWatch, hstop]
      · have hbefore := @Agrees.before taskId stop .running ids s pool _ _ h (.resumeGroup taskId key) .resumeGroup
          (fun i hi => absurd hi List.not_mem_nil) (fun k g hg hgid => ?_) (fun hne => absurd rfl hne)
          (.inr (h.known hs.toLoose hk).1)
        · rw [hret] at hbefore
          simpa [LoopInput.issues] using hbefore
        · have hg : s.groups.lookup k = some g := hgroups ▸ hg
          have hkey : k = key := (hs.toLoose.key_of_id hk hg).2 hgid
          simp [hpaused, hkey]
    · refine ⟨stop, ?_, hkeep _ (fun k g hg hgid => ?_) (by rw [hret])⟩
      · rw [stopWatch_answer quiet_resumeGroup]
        simp [stopWatch, hid]
      · have hg : s.groups.lookup k = some g := hgroups ▸ hg
        have hkey : k ≠ key := fun he => hid (((hs.toLoose.key_of_id hk hg).1 he).symm.trans hgid)
        refine ⟨hg, ?_⟩
        rw [hpaused, Finset.mem_erase]
        exact and_iff_right hkey

end

/-! ## Runs -/

theorem Agrees.Passes.thenStart (h : Agrees.Passes id stop ids pool x) (hl : Loose x.1) :
    Agrees.Passes id stop ids pool (thenStart x) := by
  obtain ⟨stop', hrun, hagrees⟩ := h
  obtain ⟨hrun', hagrees'⟩ := hagrees.tryStartNext hl
  refine ⟨stop', Lts.run_append.2 ⟨stop', hrun, hrun'⟩, ?_⟩
  rw [SpottedCat.thenStart, Pool.absorb_append]
  exact hagrees'

/-- **One iteration of the loop.** -/
theorem Agrees.react (hs : Inv s) (h : Agrees id stop ids s pool) (hf : Fresh s input)
    (hnew : ∀ i ∈ input.issues, i ∉ ids) :
    Agrees.Passes id stop (ids ++ input.issues) pool (react s input) := by
  have hquiet : ∀ es : List Effect, (∀ e ∈ es, stopWatch id stop e = some stop) → NoSpawn es →
      (∀ e, input ≠ .event e) → Agrees.Passes id stop (ids ++ input.issues) pool (s, es) := by
    intro es hes hspawn hcmd
    refine ⟨stop, Lts.run_fixed hes, ?_⟩
    exact h.keep (.answer hcmd hspawn) (.of_eq rfl (Finset.Subset.refl _)) hnew
      fun k g hg _ => ⟨hg, Iff.rfl⟩
  cases input with
  | listen op =>
    have hb : Before s (.listen op) (SpottedCat.react s (.listen op)) :=
      ⟨.keep (by simp) rfl rfl rfl, by simp [NoSpawn, SpottedCat.react], rfl, fun _ => rfl,
        fun h _ => { h with }⟩
    exact ⟨stop, rfl, h.keep hb (.of_eq rfl (Finset.Subset.refl _)) hnew fun k g hg _ => ⟨hg, Iff.rfl⟩⟩
  | event event =>
    rw [LoopInput.issues, List.append_nil]
    · exact (h.event event).thenStart (hs.handleWorkerEvent event)
    · intro inner callbacks he
      cases he
  | cmd cmd =>
    have hunknown : ∀ c (e : MeowError), Agrees.Passes id stop (ids ++ (LoopInput.cmd cmd).issues) pool
        (thenStart (s, [.respond c (.error e)])) := fun c e =>
      (hquiet _ (fun e' he => by rw [List.mem_singleton.1 he]; exact stopWatch_error) .respond
        (by simp)).thenStart hs.toLoose
    cases cmd with
    | enqueue inner callbacks =>
      cases hg : s.groups.lookup inner.dedupeKey with
      | some existing =>
        simp only [SpottedCat.react, handleCmd, hg]
        exact hquiet _ (fun e he => stopWatch_quiet (quiet_notify e he))
          (NoSpawn.invokeProgressCb.append .emitGlobalProgress) (by simp)
      | none =>
        simp only [SpottedCat.react, handleCmd, hg]
        exact (h.accept hs hg (hnew _ List.mem_cons_self)).thenStart
          ((Before.acceptTask hg).loose hs hf)
    | pause taskId =>
      cases hk : s.taskIdToDedupe.lookup taskId with
      | none =>
        simp only [SpottedCat.react, handleCmd, hk]
        exact hunknown _ _
      | some key =>
        simp only [SpottedCat.react, handleCmd, hk]
        have hpass := (h.pause hs hk).thenStart ((Before.pauseGroup hk).loose hs hf)
        simpa [LoopInput.issues] using hpass
    | resume taskId =>
      cases hk : s.taskIdToDedupe.lookup taskId with
      | none =>
        simp only [SpottedCat.react, handleCmd, hk]
        exact hunknown _ _
      | some key =>
        simp only [SpottedCat.react, handleCmd, hk]
        have hpass := (h.resume hs hk).thenStart ((Before.resumeGroup taskId key).loose hs hf)
        simpa [LoopInput.issues] using hpass
    | cancel taskId =>
      cases hk : s.taskIdToDedupe.lookup taskId with
      | none =>
        simp only [SpottedCat.react, handleCmd, hk]
        exact hunknown _ _
      | some key =>
        simp only [SpottedCat.react, handleCmd, hk]
        have hpass := (h.cancel hs hk).thenStart ((Before.cancelGroup hk).loose hs hf)
        simpa [LoopInput.issues] using hpass
    | snapshot =>
      exact hquiet _ (fun e he => by rw [List.mem_singleton.1 he]; rfl) (by simp [NoSpawn]) (by simp)
    | close activeOrder groupOrder =>
      have hall := h.keep (.closeAll activeOrder groupOrder) .closeAll
        (fun i hi => absurd hi List.not_mem_nil) fun k g hg _ => by cases hg
      refine ⟨stop, ?_, hall⟩
      have hes : ∀ e ∈ (closeAll s activeOrder groupOrder).2, e.Quiet := by
        intro e he
        rcases mem_closeAll he with ⟨k, hcancel⟩ | ⟨k, hstatus⟩
        · exact quiet_cancelActive e hcancel
        · exact quiet_groupStatus e hstatus
      exact (stopWatch_answer hes).trans rfl

/-- Workers move on with the task and the token they were started with. -/
theorem Agrees.of_workers (h : Agrees id stop ids s pool)
    (hw : ∀ w' ∈ pool'.workers, ∃ w ∈ pool.workers, w.inner = w'.inner ∧ w.cancel = w'.cancel)
    (hc : pool'.cancelled = pool.cancelled) : Agrees id stop ids s pool' := by
  refine ⟨h.live, fun k g hg hid w' hw' hwid => ?_, fun k hk a ha => ?_, fun hstop w' hw' hwid => ?_,
    h.issued, fun hid => ⟨(h.fresh hid).1, fun w' hw' hwid => ?_⟩⟩
  · obtain ⟨w, hmem, hinner, hcancel⟩ := hw w' hw'
    rw [hc, ← hcancel]
    exact h.token k g hg hid w hmem (hinner ▸ hwid)
  · rw [hc]
    exact h.marked k hk a ha
  · obtain ⟨w, hmem, hinner, hcancel⟩ := hw w' hw'
    rw [hc, ← hcancel]
    exact h.stopped hstop w hmem (hinner ▸ hwid)
  · obtain ⟨w, hmem, hinner, _⟩ := hw w' hw'
    exact (h.fresh hid).2 w hmem (hinner ▸ hwid)

theorem mem_set_worker {ws : List Worker} {i : Nat} {w w0 : Worker} (h0 : ws[i]? = some w0)
    (hinner : w0.inner = w.inner) (hcancel : w0.cancel = w.cancel) :
    ∀ w' ∈ ws.set i w, ∃ w'' ∈ ws, w''.inner = w'.inner ∧ w''.cancel = w'.cancel := by
  intro w' hw'
  rcases List.mem_or_eq_of_mem_set hw' with hw' | rfl
  · exact ⟨w', hw', rfl, rfl⟩
  · exact ⟨w0, List.mem_of_getElem? h0, hinner, hcancel⟩

/-- The monitor has read the whole log, and agrees with the system. -/
structure Agreed (id : TaskId) (sys : Sys) : Prop where
  loop : LoopInv sys.loop
  agrees : ∃ stop, Lts.run (stopWatch id) .running sys.loop.log = some stop ∧
    Agrees id stop sys.loop.issued sys.loop.state sys.pool

theorem Agreed.step {sys sys' : Sys} {act : Act} (h : Agreed id sys) (hs : sys.step act = some sys') :
    Agreed id sys' := by
  obtain ⟨stop, hlog, hagrees⟩ := h.agrees
  rcases Sys.step_cases hs with ⟨input, pool, hin, hfeed⟩ | ⟨i, input, pool, _, hwork, rfl⟩
  · obtain ⟨hstep, hpool⟩ := Sys.feed_eq_some.1 hfeed
    have hmoved : Agrees id stop sys.loop.issued sys.loop.state pool := by
      cases act with
      | cmd c => cases hin; exact hagrees
      | listen op => cases hin; exact hagrees
      | work i input => cases hin
      | deliver i =>
        obtain ⟨⟨event, pool1⟩, htake, he⟩ := Option.map_eq_some_iff.1 hin
        cases he
        obtain ⟨w, rest, hw, _, rfl⟩ := Pool.take_eq_some.1 htake
        exact hagrees.of_workers (mem_set_worker hw rfl rfl) rfl
    refine ⟨h.loop.step hstep, ?_⟩
    obtain ⟨_, harrives, hloop⟩ := Loop.step_eq_some.1 hstep
    obtain ⟨stop', hrun, hagrees'⟩ := hmoved.react h.loop.inv
      (fun inner callbacks he => h.loop.fresh harrives he) harrives.fresh
    rw [hloop, hpool]
    exact ⟨stop', Lts.run_append.2 ⟨stop, hlog, hrun⟩, hagrees'⟩
  · obtain ⟨w, pc, out, hw, _, _, rfl⟩ := Pool.work_eq_some.1 hwork
    exact ⟨h.loop, stop, hlog, hagrees.of_workers (mem_set_worker hw rfl rfl) rfl⟩

theorem Sys.Reachable.agreed {sys : Sys} (h : sys.Reachable) (id : TaskId) : Agreed id sys := by
  obtain ⟨maxUpload, maxDownload, acts, hrun⟩ := h
  refine Lts.run_invariant (fun _ _ _ hi hs => Agreed.step hi hs) ⟨.init _ _, .running, rfl, ?_⟩ hrun
  constructor <;> simp [Sys.init, Loop.init, SchedulerState.new]

/-! ## Workers that are told to stop -/

/-- The one way into `transfer_chunk` is past a token that is not cancelled. -/
theorem runStep_inChunk {key : UniqueId} {inner : InnerTask} {pc pc' : RunPc} {input : RunIn}
    {out : Option WorkerEvent} (h : runStep key inner pc input = some (pc', out))
    (hin : pc'.inChunk = true) : input = .attempt (.token false) := by
  unfold runStep at h
  split at h
  · rename_i ret
    cases h
    cases ret with
    | ok outcome => cases hin
    | error failure => cases failure <;> cases hin
  · cases h
    cases hin
  · cases h
    cases hin
  · obtain ⟨out, hretry, ho⟩ := Option.map_eq_some_iff.1 h
    cases ho
    unfold retryStep at hretry
    split at hretry
    · cases hretry
      cases hin
    · rfl
    · cases hretry
      cases hin
    · split at hretry <;> cases hretry <;> cases hin
    · cases hretry
      cases hin
    · cases hretry
      cases hin
    · cases hretry
      cases hin
    · cases hretry
  · rename_i done
    cases h
    cases done <;> cases hin
  · cases h
    cases hin
  · cases h
    cases hin
  · cases h

/-- A cancelled worker begins no chunk. -/
theorem Pool.work_inChunk {i : Nat} {w : Worker} {input : RunIn} (hw : pool.workers[i]? = some w)
    (hc : w.cancel ∈ pool.cancelled) (hwork : pool.work i input = some pool') :
    ∀ w', pool'.workers[i]? = some w' → w'.pc.inChunk = false := by
  obtain ⟨w0, pc, out, hw0, hsees, hs, rfl⟩ := Pool.work_eq_some.1 hwork
  rw [hw] at hw0
  cases hw0
  intro w' hw'
  rcases Places.lookup_set.1 hw' with ⟨_, _, rfl⟩ | ⟨hne, _⟩
  · by_contra hin
    have hinput := runStep_inChunk hs (Bool.not_eq_false _ ▸ hin)
    subst hinput
    simp [RunIn.Sees, hc] at hsees
  · exact absurd rfl hne

/-- **An acknowledged pause or cancel stops the requests.** Once a `Pause` or `Cancel` of a task was
answered `Ok`, and while no `Resume` of it was, no step of any worker ever started for the task leads
into `transfer_chunk`, and no worker is started for it. A `Resume` is answered `Ok` only after such an
answer to a `Pause`, with neither a `Cancel` nor another `Resume` answered `Ok` since. -/
theorem acknowledged_stop_holds (sys : Sys) (h : sys.Reachable) (id : TaskId) :
    (∀ cmd ∈ [TransferCmd.pause id, .cancel id], ∀ before after,
      sys.loop.log = before ++ .respond cmd (.ok ()) :: after →
      .respond (.resume id) (.ok ()) ∉ after →
        (∀ (i : Nat) (w : Worker) input pool, sys.pool.workers[i]? = some w → w.inner.taskId = id →
          sys.pool.work i input = some pool →
            ∀ w', pool.workers[i]? = some w' → w'.pc.inChunk = false) ∧
        ∀ key inner cancel offset, .spawn key inner cancel offset ∈ after → inner.taskId ≠ id) ∧
    ∀ before after, sys.loop.log = before ++ .respond (.resume id) (.ok ()) :: after →
      ∃ earlier between, before = earlier ++ .respond (.pause id) (.ok ()) :: between ∧
        .respond (.cancel id) (.ok ()) ∉ between ∧ .respond (.resume id) (.ok ()) ∉ between := by
  obtain ⟨stop, hlog, hagrees⟩ := (h.agreed id).agrees
  refine ⟨fun cmd hcmd before after heq hno => ?_, fun before after heq => ?_⟩
  · rw [heq] at hlog
    obtain ⟨stop1, _, hrun⟩ := Lts.run_append.1 hlog
    obtain ⟨stop2, hanswer, hafter⟩ := Lts.run_cons.1 hrun
    have hstopped : stop2 ≠ .running := by
      simp only [List.mem_cons, List.not_mem_nil, or_false] at hcmd
      rcases hcmd with rfl | rfl
      · simp only [stopWatch, if_true] at hanswer
        split at hanswer <;> cases hanswer
        simp
      · simp only [stopWatch, if_true] at hanswer
        split at hanswer <;> cases hanswer
        simp
    obtain ⟨hstill, hspawn⟩ := stopWatch_stays hno hstopped hafter
    refine ⟨fun i w input pool hw hwid hwork => ?_, hspawn⟩
    exact Pool.work_inChunk hw (hagrees.stopped hstill w (List.mem_of_getElem? hw) hwid) hwork
  · rw [heq] at hlog
    obtain ⟨stop1, hbefore, hrun⟩ := Lts.run_append.1 hlog
    obtain ⟨stop2, hanswer, _⟩ := Lts.run_cons.1 hrun
    simp only [stopWatch, if_true] at hanswer
    split at hanswer
    · rename_i hpaused
      exact stopWatch_paused (hpaused ▸ hbefore)
    · cases hanswer

/-- A task is paused twice, with a resume and a second worker between. -/
def pauseTwice : List Act :=
  pauseWhileStarting ++ [.cmd (.resume ⟨0⟩), .work 1 (.prepared (.ok ⟨0, 8⟩)), .work 1 (.token false),
    .cmd (.pause ⟨0⟩)]

theorem acknowledged_stop_holds_twice : ∃ sys before,
    Lts.run Sys.step (.init 1 1) pauseTwice = some sys ∧
      sys.loop.log = before ++ [.respond (.pause ⟨0⟩) (.ok ())] ∧
      ∀ input pool, sys.pool.work 1 input = some pool →
        ∀ w', pool.workers[1]? = some w' → w'.pc.inChunk = false := by
  have hrun : Lts.run Sys.step (.init 1 1) pauseTwice = some _ := Lts.run_final (by decide)
  have hlog : (Lts.final Sys.step (.init 1 1) pauseTwice).loop.log =
      (Lts.final Sys.step (.init 1 1) pauseTwice).loop.log.dropLast ++
        .respond (.pause ⟨0⟩) (.ok ()) :: [] := (List.dropLast_append_getLast? _ rfl).symm
  refine ⟨_, _, hrun, hlog, fun input pool hwork => ?_⟩
  exact ((acknowledged_stop_holds _ ⟨1, 1, _, hrun⟩ ⟨0⟩).1 (.pause ⟨0⟩) (by simp) _ _ hlog
    List.not_mem_nil).1 1 ⟨(sampleTask 0).dedupeKey, sampleTask 0, ⟨1⟩, 0, .retry 0 8 (.head 0), []⟩ input
      pool (by decide) rfl hwork

end SpottedCat
