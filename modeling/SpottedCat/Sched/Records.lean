import SpottedCat.Sched.Lifecycle
import SpottedCat.Sched.Notices

/-!
# Whose records are they

`emit_status` hands an entry's record to the entry's own callback and to every listener, so the two see
the same records of a task (`records_stay_with_task`). The refusal of a duplicate `Enqueue` does not: its
record is built from the leader of the call that is refused for it, and goes to the callback of the
refused call. That callback then sees an id that is not its own, and the listeners a failure of a task
that is running (`duplicate_fails_leader`). So the law holds of the runs without a duplicate of a live
key (`LoopInput.Unrepeated`).
-/

namespace SpottedCat

/-- The records delivered to one task callback, in order. -/
def recordsTo (cb : ProgressCb) (es : List Effect) : List FileTransferRecord :=
  es.filterMap fun
    | .invoke cb' dto => if cb' = cb then some dto else none
    | _ => none

/-- The records delivered to one global listener, in order. -/
def recordsAt (listener : GlobalProgressListenerId) (es : List Effect) : List FileTransferRecord :=
  es.filterMap fun
    | .broadcast listener' _ dto => if listener' = listener then some dto else none
    | _ => none

/-- The listener is registered, once: every registration draws a new id (ids.rs:26). -/
def SchedulerState.Hears (s : SchedulerState) (listener : GlobalProgressListenerId) : Prop :=
  (s.globalProgressListener.countP fun l => l.1 = listener) = 1

instance (s : SchedulerState) (listener : GlobalProgressListenerId) : Decidable (s.Hears listener) :=
  inferInstanceAs (Decidable (_ = _))

section
variable {cb : ProgressCb} {listener : GlobalProgressListenerId} {id : TaskId} {es es' : List Effect}
  {s : SchedulerState} {input : LoopInput} {entry : RecordEntry} {status : TransferStatus}
  {transferred total : Nat}

/-! ## One notice -/

theorem recordsTo_append : recordsTo cb (es ++ es') = recordsTo cb es ++ recordsTo cb es' :=
  List.filterMap_append

theorem recordsAt_append :
    recordsAt listener (es ++ es') = recordsAt listener es ++ recordsAt listener es' :=
  List.filterMap_append

theorem recordsTo_silent (h : ∀ e ∈ es, e.record = none) : recordsTo cb es = [] := by
  rw [recordsTo, List.filterMap_eq_nil_iff]
  intro e he
  cases e with
  | invoke cb' dto => cases h _ he
  | _ => rfl

theorem recordsAt_silent (h : ∀ e ∈ es, e.record = none) : recordsAt listener es = [] := by
  rw [recordsAt, List.filterMap_eq_nil_iff]
  intro e he
  cases e with
  | broadcast listener' cb' dto => cases h _ he
  | _ => rfl

theorem recordsTo_notify {callbacks : TaskCallbacks} {dto : FileTransferRecord} :
    recordsTo cb (invokeProgressCb callbacks dto ++ emitGlobalProgress s dto) =
      if callbacks.progressCb = some cb then [dto] else [] := by
  have hglobal : recordsTo cb (emitGlobalProgress s dto) = [] := by
    rw [recordsTo, List.filterMap_eq_nil_iff]
    intro e he
    obtain ⟨_, _, rfl⟩ := mem_emitGlobalProgress he
    rfl
  rw [recordsTo_append, hglobal, List.append_nil, invokeProgressCb]
  cases callbacks.progressCb with
  | none => rfl
  | some cb' => by_cases h : cb' = cb <;> simp [recordsTo, h]

theorem recordsTo_emitStatus : recordsTo cb (emitStatus s entry status transferred total) =
    if entry.callbacks.progressCb = some cb then [toRecordInner entry.inner status transferred total]
    else [] :=
  recordsTo_notify

/-- A listener gets the record as often as it is registered. -/
theorem recordsAt_emitStatus : recordsAt listener (emitStatus s entry status transferred total) =
    List.replicate (s.globalProgressListener.countP fun l => l.1 = listener)
      (toRecordInner entry.inner status transferred total) := by
  have hown : ∀ dto, recordsAt listener (invokeProgressCb entry.callbacks dto) = [] := by
    intro dto
    unfold invokeProgressCb
    split <;> rfl
  rw [emitStatus, recordsAt_append, hown, List.nil_append, emitGlobalProgress]
  induction s.globalProgressListener with
  | nil => rfl
  | cons l ls ih =>
    obtain ⟨listener', cb'⟩ := l
    rw [List.map_cons, List.countP_cons]
    by_cases h : listener' = listener
    · have hcons : ∀ dto es, recordsAt listener (.broadcast listener' cb' dto :: es) =
          dto :: recordsAt listener es := by
        intro dto es
        simp [recordsAt, h]
      rw [hcons, ih]
      simp [h, List.replicate_succ]
    · have hcons : ∀ dto es, recordsAt listener (.broadcast listener' cb' dto :: es) =
          recordsAt listener es := by
        intro dto es
        simp [recordsAt, h]
      rw [hcons, ih]
      simp [h]

/-! ## One iteration -/

/-- The entry has the callback if it has the id. -/
def RecordEntry.Pairs (id : TaskId) (cb : ProgressCb) (entry : RecordEntry) : Prop :=
  entry.inner.taskId = id ↔ entry.callbacks.progressCb = some cb

/-- Every entry in the scheduler does. -/
def Paired (id : TaskId) (cb : ProgressCb) (s : SchedulerState) : Prop :=
  ∀ k g, s.groups.lookup k = some g → g.entry.Pairs id cb

/-- An `Enqueue` that brings such an entry. -/
def LoopInput.Pairs (id : TaskId) (cb : ProgressCb) (input : LoopInput) : Prop :=
  ∀ inner callbacks, input = .cmd (.enqueue inner callbacks) → RecordEntry.Pairs id cb ⟨inner, callbacks⟩

theorem Paired.react (h : Paired id cb s) (hin : input.Pairs id cb) :
    Paired id cb (SpottedCat.react s input).1 := by
  intro k g hg
  rcases react_group hg with hg | ⟨inner, callbacks, hi, _, rfl⟩
  · exact h k g hg
  · exact hin inner callbacks hi

/-- Every notice is about an entry that the state or the input holds. -/
theorem Notice.pairs (h : Notice s input entry status transferred total) (hs : Paired id cb s)
    (hin : input.Pairs id cb) : entry.Pairs id cb := by
  cases h with
  | accepted inner callbacks => exact hin inner callbacks rfl
  | standing key group hg | progress key _ _ group hg | completed key _ group hg => exact hs key group hg
  | started key group hg => exact hs.react hin key group hg

/-- The task is in the scheduler or comes in with the input. -/
def Concerns (id : TaskId) (s : SchedulerState) (input : LoopInput) : Prop :=
  id ∈ s.taskIdToDedupe ∨ id ∈ input.issues

theorem Loose.mem_ids (h : Loose s) {k : UniqueId} {g : GroupState} (hg : s.groups.lookup k = some g) :
    s.taskIdToDedupe.lookup g.entry.inner.taskId = some k :=
  (h.id_map _ k).2 ⟨g, hg, by rw [h.entry_inner k g hg]⟩

theorem Notice.concerns (h : Notice s input entry status transferred total) (hs : Inv s) :
    Concerns entry.inner.taskId s input := by
  have hold : ∀ k g, s.groups.lookup k = some g → Concerns g.entry.inner.taskId s input :=
    fun k g hg => .inl (Finmap.mem_of_lookup_eq_some (hs.mem_ids hg))
  cases h with
  | accepted inner callbacks => exact .inr List.mem_cons_self
  | standing key group hg | progress key _ _ group hg | completed key _ group hg => exact hold key group hg
  | started key group hg =>
    rcases react_group hg with hg | ⟨inner, callbacks, rfl, _, rfl⟩
    · exact hold key group hg
    · exact .inr List.mem_cons_self

/-- **What a callback is told** by an iteration is a notice about an entry with this callback, but for the
refusal of a call that brings it. -/
theorem mem_recordsTo_react {dto : FileTransferRecord}
    (hnew : input.Unrepeated s ∨ ∀ inner callbacks, input = .cmd (.enqueue inner callbacks) →
      callbacks.progressCb ≠ some cb) (hdto : dto ∈ recordsTo cb (react s input).2) :
    ∃ entry status transferred total, Notice s input entry status transferred total ∧
      entry.callbacks.progressCb = some cb ∧ dto = toRecordInner entry.inner status transferred total := by
  by_cases hun : input.Unrepeated s
  · refine react_induct (s := s) (P := fun es => ∀ dto ∈ recordsTo cb es,
      ∃ entry status transferred total, Notice s input entry status transferred total ∧
        entry.callbacks.progressCb = some cb ∧ dto = toRecordInner entry.inner status transferred total)
      ⟨?_, ?_, ?_⟩ hun dto hdto
    · intro es es' h h' dto hdto
      rw [recordsTo_append] at hdto
      rcases List.mem_append.1 hdto with hdto | hdto
      · exact h dto hdto
      · exact h' dto hdto
    · intro es h dto hdto
      rw [recordsTo_silent h] at hdto
      cases hdto
    · intro entry status transferred total hnotice dto hdto
      rw [recordsTo_emitStatus] at hdto
      split at hdto
      · rename_i hcb
        exact ⟨entry, status, transferred, total, hnotice, hcb, List.mem_singleton.1 hdto⟩
      · cases hdto
  · exfalso
    cases input with
    | listen | event => exact hun trivial
    | cmd cmd =>
      cases cmd with
      | enqueue inner callbacks =>
        obtain ⟨g, hg⟩ := Finmap.mem_iff.1 (not_not.1 hun)
        simp only [react, handleCmd, hg] at hdto
        rw [recordsTo_notify, if_neg ((hnew.resolve_left hun) inner callbacks rfl)] at hdto
        cases hdto
      | _ => exact hun trivial

/-- **The callback gets records of its own task.** -/
theorem react_own (hs : Paired id cb s) (hin : input.Pairs id cb) (hnew : input.Unrepeated s) :
    ∀ dto ∈ recordsTo cb (react s input).2, dto.taskId = id := by
  intro dto hdto
  obtain ⟨entry, status, transferred, total, hnotice, hcb, rfl⟩ := mem_recordsTo_react (.inl hnew) hdto
  exact (hnotice.pairs hs hin).2 hcb

/-- **A listener gets the same records** of the task. -/
theorem react_echo (hinv : Inv s) (hs : Paired id cb s) (hin : input.Pairs id cb)
    (hnew : input.Unrepeated s) (hear : Concerns id s input → s.Hears listener) :
    (recordsAt listener (react s input).2).filter (fun dto => dto.taskId = id) =
      recordsTo cb (react s input).2 := by
  refine react_induct (P := fun es => (recordsAt listener es).filter (fun dto => dto.taskId = id) =
    recordsTo cb es) ⟨?_, ?_, ?_⟩ hnew
  · intro es es' h h'
    rw [recordsAt_append, recordsTo_append, List.filter_append, h, h']
  · intro es h
    rw [recordsAt_silent h, recordsTo_silent h]
    rfl
  · intro entry status transferred total hnotice
    rw [recordsAt_emitStatus, recordsTo_emitStatus]
    by_cases hid : entry.inner.taskId = id
    · have hcb : entry.callbacks.progressCb = some cb := (hnotice.pairs hs hin).1 hid
      have hheard : (s.globalProgressListener.countP fun l => l.1 = listener) = 1 :=
        hear (hid ▸ hnotice.concerns hinv)
      rw [hheard, if_pos hcb]
      simp [toRecordInner, hid]
    · have hcb : entry.callbacks.progressCb ≠ some cb := fun hcb => hid ((hnotice.pairs hs hin).2 hcb)
      rw [if_neg hcb]
      simp [toRecordInner, hid]

/-- **A failure is reported of a task that ends with it.** -/
theorem react_failed (hs : Inv s) (hf : Fresh s input) (hnew : input.Unrepeated s) {e : Effect}
    {dto : FileTransferRecord} {error : MeowError} (he : e ∈ (react s input).2)
    (hdto : e.record = some dto) (hstatus : dto.status = .failed error) :
    dto.taskId ∉ (react s input).1.taskIdToDedupe := by
  have hsource : ∃ key g, input = .event (.failed key error) ∧ s.groups.lookup key = some g ∧
      dto.taskId = g.entry.inner.taskId := by
    refine react_induct (s := s) (P := fun es => ∀ e ∈ es, e.record = some dto →
      ∃ key g, input = .event (.failed key error) ∧ s.groups.lookup key = some g ∧
        dto.taskId = g.entry.inner.taskId) ⟨?_, ?_, ?_⟩ hnew e he hdto
    · intro es es' h h' e he
      rcases List.mem_append.1 he with he | he
      · exact h e he
      · exact h' e he
    · intro es h e he hrec
      rw [h e he] at hrec
      cases hrec
    · intro entry status transferred total hnotice e he hrec
      rw [mem_emitStatus he] at hrec
      cases hrec
      have hfail : status = .failed error := hstatus
      cases hnotice with
      | accepted inner callbacks _ _ hopen =>
        rw [hfail] at hopen
        cases hopen
      | standing key group hg _ hfailed => exact ⟨key, group, hfailed error hfail, hg, rfl⟩
      | progress | completed | started => cases hfail
  obtain ⟨key, g, rfl, hg, hid⟩ := hsource
  intro hmem
  obtain ⟨k, hk⟩ := Finmap.mem_iff.1 hmem
  have hinv : Inv (react s (.event (.failed key error))).1 := hs.react _ fun _ _ hi => hf _ _ hi
  obtain ⟨g', hg', hid'⟩ := (hinv.id_map _ k).1 hk
  -- the only group of that id was the one of `key`, which is gone
  have hgroups : (react s (.event (.failed key error))).1.groups = s.groups.erase key := by
    rw [react, thenStart, (tryStartNext_same _).groups]
    exact SchedulerState.removeGroup_groups _ _
  rw [hgroups, Table.lookup_erase_ite] at hg'
  split at hg'
  · cases hg'
  · rename_i hne
    have h1 := (hs.id_map dto.taskId k).2 ⟨g', hg', hid'⟩
    rw [hid, hs.mem_ids hg] at h1
    exact hne (Option.some.inj h1).symm

end

/-! ## Runs -/

/-- No `Enqueue` of the run is a duplicate of a live key. -/
def Unrepeated (loop : Loop) (input : LoopInput) : Prop := input.Unrepeated loop.state

instance (loop : Loop) (input : LoopInput) : Decidable (Unrepeated loop input) :=
  inferInstanceAs (Decidable (input.Unrepeated loop.state))

/-- What has been delivered so far; `H` says that the listener hears the task. -/
structure Told (id : TaskId) (cb : ProgressCb) (listener : GlobalProgressListenerId) (H : Prop)
    (loop : Loop) : Prop where
  base : LoopInv loop
  paired : Paired id cb loop.state
  own : ∀ dto ∈ recordsTo cb loop.log, dto.taskId = id
  echo : H → (recordsAt listener loop.log).filter (fun dto => dto.taskId = id) = recordsTo cb loop.log

section
variable {id : TaskId} {cb : ProgressCb} {listener : GlobalProgressListenerId} {H : Prop}
  {loop loop' : Loop} {input : LoopInput} {inputs : List LoopInput}

theorem Told.step (h : Told id cb listener H loop) (hs : loop.step input = some loop')
    (hnew : Unrepeated loop input) (hin : input.Pairs id cb)
    (hear : H → Concerns id loop.state input → loop.state.Hears listener) :
    Told id cb listener H loop' := by
  have hbase := h.base.step hs
  obtain ⟨_, _, rfl⟩ := Loop.step_eq_some.1 hs
  refine ⟨hbase, h.paired.react hin, fun dto hdto => ?_, fun hH => ?_⟩
  · rw [recordsTo_append] at hdto
    rcases List.mem_append.1 hdto with hdto | hdto
    · exact h.own dto hdto
    · exact react_own h.paired hin hnew dto hdto
  · rw [recordsAt_append, recordsTo_append, List.filter_append, h.echo hH,
      react_echo h.base.inv h.paired hin hnew (hear hH)]

/-- An input that does not bring the task in. -/
theorem LoopInput.Foreign.pairs (h : input.Foreign id cb) : input.Pairs id cb := by
  intro inner callbacks hi
  obtain ⟨hid, hcb⟩ := h inner callbacks hi
  exact iff_of_false hid hcb

/-- Before the task is enqueued nobody needs to listen. -/
theorem Told.before (h : Told id cb listener H loop) (hrun : Lts.run Loop.step loop inputs = some loop')
    (hid : id ∉ loop'.issued) (hcb : Unshared cb inputs) (hnew : Lts.Meets Loop.step Unrepeated loop inputs) :
    Told id cb listener H loop' := by
  induction inputs generalizing loop with
  | nil => cases hrun; exact h
  | cons input inputs ih =>
    obtain ⟨loop1, hs, hrun1⟩ := Lts.run_cons.1 hrun
    have hissued : id ∉ loop.issued ∧ id ∉ input.issues := by
      rw [issued_run hrun, List.flatMap_cons] at hid
      simp only [List.mem_append, not_or] at hid
      exact ⟨hid.1, hid.2.1⟩
    have hforeign : input.Foreign id cb := by
      rintro inner callbacks rfl
      refine ⟨fun he => hissued.2 ?_, hcb inner callbacks List.mem_cons_self⟩
      rw [← he]
      exact List.mem_cons_self
    have hstep := h.step hs hnew.1 hforeign.pairs fun _ hconcerns => by
      rcases hconcerns with hm | hm
      · exact absurd (h.base.issued id hm) hissued.1
      · exact absurd hm hissued.2
    exact ih hstep hrun1 (fun inner callbacks hm => hcb inner callbacks (List.mem_cons_of_mem _ hm))
      (hnew.2 loop1 hs)

/-- From then on the listener must be registered. -/
theorem Told.after (h : Told id cb listener H loop) (hrun : Lts.run Loop.step loop inputs = some loop')
    (hid : id ∈ loop.issued) (hcb : Unshared cb inputs) (hnew : Lts.Meets Loop.step Unrepeated loop inputs)
    (hear : H → Lts.Meets Loop.step (fun l _ => l.state.Hears listener) loop inputs) :
    Told id cb listener H loop' := by
  induction inputs generalizing loop with
  | nil => cases hrun; exact h
  | cons input inputs ih =>
    obtain ⟨loop1, hs, hrun1⟩ := Lts.run_cons.1 hrun
    obtain ⟨_, harrives, hloop1⟩ := Loop.step_eq_some.1 hs
    have hforeign : input.Foreign id cb := by
      rintro inner callbacks rfl
      refine ⟨fun he => ?_, hcb inner callbacks List.mem_cons_self⟩
      have hfresh : inner.taskId ∉ loop.issued := harrives
      exact hfresh (he ▸ hid)
    have hid1 : id ∈ loop1.issued := by
      rw [hloop1]
      exact List.mem_append_left _ hid
    exact ih (h.step hs hnew.1 hforeign.pairs fun hH _ => (hear hH).1) hrun1 hid1
      (fun inner callbacks hm => hcb inner callbacks (List.mem_cons_of_mem _ hm)) (hnew.2 loop1 hs)
      fun hH => (hear hH).2 loop1 hs

/-- The failures that any listener has been told of are of tasks that have ended. -/
structure Reported (loop : Loop) : Prop where
  base : LoopInv loop
  issued : ∀ e ∈ loop.log, ∀ dto, e.record = some dto → dto.taskId ∈ loop.issued
  failed : ∀ e ∈ loop.log, ∀ dto error, e.record = some dto → dto.status = .failed error →
    dto.taskId ∉ loop.state.taskIdToDedupe

/-- Records are about ids that have been issued. -/
theorem react_issued (h : LoopInv loop) (hnew : Unrepeated loop input) {e : Effect}
    {dto : FileTransferRecord} (he : e ∈ (react loop.state input).2) (hdto : e.record = some dto) :
    dto.taskId ∈ loop.issued ++ input.issues := by
  refine react_induct (s := loop.state) (P := fun es => ∀ e ∈ es, e.record = some dto →
    dto.taskId ∈ loop.issued ++ input.issues) ⟨?_, ?_, ?_⟩ hnew e he hdto
  · intro es es' h h' e he
    rcases List.mem_append.1 he with he | he
    · exact h e he
    · exact h' e he
  · intro es hes e he hrec
    rw [hes e he] at hrec
    cases hrec
  · intro entry status transferred total hnotice e he hrec
    rw [mem_emitStatus he] at hrec
    cases hrec
    rcases hnotice.concerns h.inv with hm | hm
    · exact List.mem_append_left _ (h.issued _ hm)
    · exact List.mem_append_right _ hm

theorem Reported.step (h : Reported loop) (hs : loop.step input = some loop')
    (hnew : Unrepeated loop input) : Reported loop' := by
  have hbase := h.base.step hs
  obtain ⟨_, harrives, rfl⟩ := Loop.step_eq_some.1 hs
  refine ⟨hbase, fun e he dto hdto => ?_, fun e he dto error hdto hstatus => ?_⟩
  · rcases List.mem_append.1 he with he | he
    · exact List.mem_append_left _ (h.issued e he dto hdto)
    · exact react_issued h.base hnew he hdto
  · rcases List.mem_append.1 he with he | he
    · -- it ended before, and ids are not issued twice
      intro hm
      rcases mem_react_ids hm with hm | hm
      · exact h.failed e he dto error hdto hstatus hm
      · exact harrives.fresh _ hm (h.issued e he dto hdto)
    · exact react_failed h.base.inv (fun inner callbacks hi => h.base.fresh harrives hi) hnew he hdto hstatus

end

/-- **Record attribution**, in runs without a duplicate of a live key: the callback of an `Enqueue` gets
records of its own task only, a listener that is registered from that `Enqueue` on gets the same records
of the task, and what it is told has failed has ended. -/
theorem records_stay_with_task {maxUpload maxDownload : Nat} {before after : List LoopInput}
    {inner : InnerTask} {cb : ProgressCb} {loop0 loop : Loop}
    (hbefore : Lts.run Loop.step (.init maxUpload maxDownload) before = some loop0)
    (hrun : Lts.run Loop.step loop0 (.cmd (.enqueue inner ⟨some cb⟩) :: after) = some loop)
    (hown : Unshared cb (before ++ after))
    (hnew : Lts.Meets Loop.step Unrepeated (.init maxUpload maxDownload)
      (before ++ .cmd (.enqueue inner ⟨some cb⟩) :: after)) :
    (∀ dto ∈ recordsTo cb loop.log, dto.taskId = inner.taskId) ∧
    (∀ listener, Lts.Meets Loop.step (fun l _ => l.state.Hears listener) loop0
        (.cmd (.enqueue inner ⟨some cb⟩) :: after) →
      (recordsAt listener loop.log).filter (fun dto => dto.taskId = inner.taskId) =
        recordsTo cb loop.log) ∧
    ∀ listener lcb dto error, .broadcast listener lcb dto ∈ loop.log → dto.status = .failed error →
      dto.taskId ∉ loop.state.taskIdToDedupe := by
  have hinit : LoopInv (.init maxUpload maxDownload) := .init maxUpload maxDownload
  have hnew0 : Lts.Meets Loop.step Unrepeated loop0 (.cmd (.enqueue inner ⟨some cb⟩) :: after) :=
    hnew.right hbefore
  obtain ⟨loop1, hs, hafter⟩ := Lts.run_cons.1 hrun
  obtain ⟨_, hfresh, hloop1⟩ := Loop.step_eq_some.1 hs
  have htold : ∀ listener, Told inner.taskId cb listener (Lts.Meets Loop.step
      (fun l _ => l.state.Hears listener) loop0 (.cmd (.enqueue inner ⟨some cb⟩) :: after)) loop := by
    intro listener
    have hempty : Told inner.taskId cb listener (Lts.Meets Loop.step (fun l _ => l.state.Hears listener)
        loop0 (.cmd (.enqueue inner ⟨some cb⟩) :: after)) (.init maxUpload maxDownload) :=
      ⟨hinit, fun k g hg => by simp [Loop.init, SchedulerState.new] at hg,
        fun dto hdto => absurd hdto List.not_mem_nil, fun _ => rfl⟩
    have h0 := hempty.before hbefore hfresh
      (fun inner callbacks hm => hown inner callbacks (List.mem_append_left _ hm)) hnew.left
    have h1 : Told inner.taskId cb listener _ loop1 := h0.step hs hnew0.1 (fun inner' callbacks hi => by
      cases hi
      exact iff_of_true rfl rfl) fun hear _ => hear.1
    refine h1.after hafter ?_ (fun inner callbacks hm => hown inner callbacks (List.mem_append_right _ hm))
      (hnew0.2 loop1 hs) fun hear => hear.2 loop1 hs
    rw [hloop1]
    exact List.mem_append_right _ List.mem_cons_self
  have hreported : Reported loop := by
    refine Lts.run_invariant_of_meets (fun _ _ _ hi hc hs => Reported.step hi hs hc)
      ⟨hinit, fun e he => absurd he List.not_mem_nil, fun e he => absurd he List.not_mem_nil⟩ hnew
      (Lts.run_append.2 ⟨loop0, hbefore, hrun⟩)
  refine ⟨(htold ⟨0⟩).own, fun listener hear => (htold listener).echo hear, ?_⟩
  intro listener lcb dto error hm hstatus
  exact hreported.failed _ hm dto error rfl hstatus

/-- A listener, a task that starts, and a progress of its worker. -/
def listenThenProgress : List LoopInput :=
  [.event (.progress (sampleTask 0).dedupeKey 4 8), .cmd (.pause ⟨0⟩)]

theorem records_stay_with_task_paused : ∃ loop0 loop,
    Lts.run Loop.step (.init 1 1) [.listen (.register ⟨7⟩ ⟨7⟩)] = some loop0 ∧
      Lts.run Loop.step loop0 (.cmd (sampleEnqueue 0) :: listenThenProgress) = some loop ∧
      (recordsAt ⟨7⟩ loop.log).filter (fun dto => dto.taskId = ⟨0⟩) = recordsTo ⟨0⟩ loop.log := by
  have hbefore : Lts.run Loop.step (.init 1 1) [.listen (.register ⟨7⟩ ⟨7⟩)] = some _ :=
    Lts.run_final (by decide)
  have hrun : Lts.run Loop.step (Lts.final Loop.step (.init 1 1) [.listen (.register ⟨7⟩ ⟨7⟩)])
      (.cmd (sampleEnqueue 0) :: listenThenProgress) = some _ := Lts.run_final (by decide)
  have hown : Unshared ⟨0⟩ ([.listen (.register ⟨7⟩ ⟨7⟩)] ++ listenThenProgress) := by
    intro inner callbacks hm
    simp [listenThenProgress] at hm
  exact ⟨_, _, hbefore, hrun,
    (records_stay_with_task hbefore hrun hown (by decide)).2.1 ⟨7⟩ (by decide)⟩

/-- **A duplicate gets another task's record.** The callback of the second call, which returned id 1, is
told that task 0 has failed; so is a listener, though task 0 is running and its own callback was told no
such thing. -/
theorem duplicate_fails_leader : ∃ loop,
    Lts.run Loop.step (.init 1 1)
      [.listen (.register ⟨7⟩ ⟨7⟩), .cmd (sampleEnqueue 0), .cmd (sampleEnqueue 1)] = some loop ∧
    (∃ dto ∈ recordsTo ⟨1⟩ loop.log, dto.taskId = ⟨0⟩) ∧
    (recordsAt ⟨7⟩ loop.log).filter (fun dto => dto.taskId = ⟨0⟩) ≠ recordsTo ⟨0⟩ loop.log ∧
    (∃ dto ∈ recordsAt ⟨7⟩ loop.log, dto.taskId = ⟨0⟩ ∧
      dto.status = .failed (.fromCode1 .duplicateTaskError)) ∧
    ⟨0⟩ ∈ loop.state.taskIdToDedupe ∧ (sampleTask 0).dedupeKey ∈ loop.state.active := by
  have hrun : Lts.run Loop.step (.init 1 1) [.listen (.register ⟨7⟩ ⟨7⟩), .cmd (sampleEnqueue 0),
      .cmd (sampleEnqueue 1)] = some _ := Lts.run_final (by decide)
  refine ⟨_, hrun, by decide, fun heq => ?_, by decide, by decide, by decide⟩
  exact absurd (congrArg List.length heq) (by decide)

end SpottedCat
