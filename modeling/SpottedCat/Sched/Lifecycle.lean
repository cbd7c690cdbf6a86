import SpottedCat.Sched.Invariant

/-!
# One task over a whole run

`Absent` and `Present` say whether the scheduler holds a group of a task, given by its id and the
callback of its `Enqueue`. `Reacts` is what one iteration may do to it as its listener sees it: keep
the group and deliver no terminal status, or drop it and deliver exactly one. `task_lifecycle` is the
resulting history from `Pending` to the terminal status, with the answers to the control commands at
every point on the way.
-/

namespace SpottedCat

/-- `Pending` first, and a terminal status only at the end. -/
structure TaskHistory (statuses : List TransferStatus) : Prop where
  pending_first : statuses.head? = some .pending
  terminal_last : ∀ status ∈ statuses.dropLast, status.terminal = false

/-- The answer to a command among the effects of handling it. -/
def answerTo (cmd : TransferCmd) (es : List Effect) : Option (Except MeowError Unit) :=
  es.findSome? fun
    | .respond cmd' ret => if cmd' = cmd then some ret else none
    | _ => none

/-- What `cmd` is answered when the loop receives it next. -/
def Loop.answer (loop : Loop) (cmd : TransferCmd) : Option (Except MeowError Unit) :=
  answerTo cmd (handleCmd loop.state cmd).2

/-- The answers a task's controls get after `statuses` were delivered. -/
structure ControlAgrees (loop : Loop) (id : TaskId) (statuses : List TransferStatus) : Prop where
  ok_iff : ∀ cmd ∈ [TransferCmd.pause id, .cancel id], loop.answer cmd = some (.ok ()) ↔
    .pending ∈ statuses ∧ ∀ status ∈ statuses, status.terminal = false
  not_found : (∃ status ∈ statuses, status.terminal = true) →
    ∀ cmd ∈ [TransferCmd.pause id, .resume id, .cancel id],
      loop.answer cmd = some (.error (taskNotFoundError id))

/-! ## Answers -/

theorem answerTo_append (cmd : TransferCmd) (es es' : List Effect) :
    answerTo cmd (es ++ es') = (answerTo cmd es).or (answerTo cmd es') := by
  simp [answerTo, List.findSome?_append]

theorem answerTo_of_not_respond {cmd : TransferCmd} {es : List Effect}
    (h : ∀ e ∈ es, ∀ cmd' ret, e ≠ .respond cmd' ret) : answerTo cmd es = none := by
  rw [answerTo, List.findSome?_eq_none_iff]
  intro e he
  cases e with
  | respond cmd' ret => exact absurd rfl (h _ he cmd' ret)
  | _ => rfl

@[simp] theorem answerTo_groupStatus (cmd : TransferCmd) (s : SchedulerState) (key : UniqueId)
    (status : TransferStatus) (transferred : Nat) (total : GroupState → Nat) :
    answerTo cmd (groupStatus s key status transferred total) = none := by
  refine answerTo_of_not_respond fun e he cmd' ret heq => ?_
  obtain ⟨_, _, hr⟩ := mem_groupStatus he
  rw [heq] at hr
  cases hr

@[simp] theorem answerTo_cancelActive (cmd : TransferCmd) (s : SchedulerState) (key : UniqueId) :
    answerTo cmd (cancelActive s key) = none := by
  refine answerTo_of_not_respond fun e he cmd' ret => ?_
  obtain ⟨_, _, rfl⟩ := mem_cancelActive he
  simp

/-- An answer is sent before `try_start_next` runs. -/
theorem answerTo_thenStart (cmd : TransferCmd) (s : SchedulerState) (es : List Effect)
    (ret : Except MeowError Unit) (h : answerTo cmd es = none) :
    answerTo cmd (thenStart (s, es ++ [.respond cmd ret])).2 = some ret := by
  simp only [thenStart, answerTo_append, h]
  simp [answerTo]

/-- An unknown id is answered the same by all three controls. -/
theorem Loop.answer_none {loop : Loop} {id : TaskId}
    (h : loop.state.taskIdToDedupe.lookup id = none) :
    ∀ cmd ∈ [TransferCmd.pause id, .resume id, .cancel id],
      loop.answer cmd = some (.error (taskNotFoundError id)) := by
  intro cmd hcmd
  simp only [List.mem_cons, List.not_mem_nil, or_false] at hcmd
  rcases hcmd with rfl | rfl | rfl <;>
    simp only [Loop.answer, handleCmd, h] <;>
    exact answerTo_thenStart _ _ [] _ rfl

theorem Loop.answer_some {loop : Loop} {id : TaskId} {key : UniqueId}
    (h : loop.state.taskIdToDedupe.lookup id = some key) :
    ∀ cmd ∈ [TransferCmd.pause id, .cancel id], loop.answer cmd = some (.ok ()) := by
  intro cmd hcmd
  simp only [List.mem_cons, List.not_mem_nil, or_false] at hcmd
  rcases hcmd with rfl | rfl <;> simp only [Loop.answer, handleCmd, h] <;>
    refine answerTo_thenStart _ _ _ _ ?_ <;>
    simp [pauseGroup, cancelGroup, answerTo_append]

/-- A known id's `Resume` is answered what `resume_group` returns. -/
theorem Loop.answer_resume {loop : Loop} {id : TaskId} {key : UniqueId}
    (h : loop.state.taskIdToDedupe.lookup id = some key) :
    loop.answer (.resume id) = some (resumeGroup loop.state key).1 := by
  simp only [Loop.answer, handleCmd, h]
  refine answerTo_thenStart _ _ _ _ ?_
  unfold resumeGroup
  split_ifs <;> first | exact answerTo_groupStatus .. | rfl

/-- A `Close` is always accepted. -/
theorem Loop.answer_close (loop : Loop) (activeOrder groupOrder : List UniqueId) :
    loop.answer (.close activeOrder groupOrder) = some (.ok ()) := by
  have hsilent : answerTo (.close activeOrder groupOrder)
      (closeAll loop.state activeOrder groupOrder).2 = none := by
    apply answerTo_of_not_respond
    rintro e he cmd ret rfl
    rcases mem_closeAll he with ⟨key, hcancel⟩ | ⟨key, hstatus⟩
    · obtain ⟨_, _, heq⟩ := mem_cancelActive hcancel
      cases heq
    · obtain ⟨_, _, hrec⟩ := mem_groupStatus hstatus
      cases hrec
  simp only [Loop.answer, handleCmd, answerTo_append, hsilent]
  simp [answerTo]

section
variable (id : TaskId) (cb : ProgressCb)

/-- A group of the task: its leader has the id, or its entry the callback. -/
def GroupState.IsOf (group : GroupState) : Prop :=
  group.leaderInner.taskId = id ∨ group.entry.callbacks.progressCb = some cb

def Absent (s : SchedulerState) : Prop := ∀ k g, s.groups.lookup k = some g → ¬ g.IsOf id cb

structure Present (key : UniqueId) (s : SchedulerState) : Prop where
  group : ∃ g, s.groups.lookup key = some g ∧ g.leaderInner.taskId = id ∧
    g.entry.callbacks.progressCb = some cb
  only : ∀ k g, s.groups.lookup k = some g → g.IsOf id cb → k = key

/-- A status reaches the callback only through a group that carries it. -/
def Heard (s : SchedulerState) (es : List Effect) (status : TransferStatus) : Prop :=
  ∀ st ∈ statusesTo cb es,
    st = status ∧ ∃ k g, s.groups.lookup k = some g ∧ g.entry.callbacks.progressCb = some cb

structure Reacts (s : SchedulerState) (x : SchedulerState × List Effect) : Prop where
  absent : Absent id cb s → Absent id cb x.1 ∧ statusesTo cb x.2 = []
  present : ∀ key, Present id cb key s →
    Present id cb key x.1 ∧ (∀ st ∈ statusesTo cb x.2, st.terminal = false) ∨
    Absent id cb x.1 ∧ ∃ st, st.terminal = true ∧ statusesTo cb x.2 = [st]

/-- Not an `Enqueue` of the task itself. -/
def LoopInput.Foreign (input : LoopInput) : Prop :=
  ∀ inner callbacks, input = .cmd (.enqueue inner callbacks) →
    inner.taskId ≠ id ∧ callbacks.progressCb ≠ some cb

end

variable {id : TaskId} {cb : ProgressCb}

/-! ## One iteration -/

theorem Heard.groupStatus (s : SchedulerState) (key : UniqueId) (status : TransferStatus)
    (transferred : Nat) (total : GroupState → Nat) :
    Heard cb s (groupStatus s key status transferred total) status := by
  intro st hst
  rw [statusesTo_groupStatus] at hst
  split at hst
  · rename_i group hg
    split at hst
    · rename_i hcb
      exact ⟨List.mem_singleton.1 hst, key, group, hg, hcb⟩
    · cases hst
  · cases hst

theorem Heard.silent {s : SchedulerState} {es : List Effect} {status : TransferStatus}
    (h : Heard cb s es status) (ha : Absent id cb s) : statusesTo cb es = [] := by
  refine List.eq_nil_iff_forall_not_mem.2 fun st hst => ?_
  obtain ⟨_, k, g, hg, hcb⟩ := h st hst
  exact ha k g hg (.inr hcb)

theorem Heard.tryStartNext (s : SchedulerState) :
    Heard cb s (tryStartNext s).effects .transmission := by
  refine (tryStartNext_induct (P := fun st es => st.groups = s.groups ∧ Heard cb s es .transmission)
    ⟨rfl, fun st hst => absurd hst List.not_mem_nil⟩ ?_ ?_ ?_).2
  · exact fun _ _ _ _ h _ _ => h
  · exact fun _ _ _ _ h _ _ => h
  · rintro st es key rest group ⟨hgroups, hheard⟩ _ _ hg _
    refine ⟨hgroups, fun status hst => ?_⟩
    rw [statusesTo_append] at hst
    rcases List.mem_append.1 hst with hst | hst
    · exact hheard status hst
    · rw [startEffects, statusesTo_append, statusesTo_emitStatus] at hst
      rw [hgroups] at hg
      rcases List.mem_append.1 hst with hst | hst
      · split at hst
        · rename_i hcb
          exact ⟨List.mem_singleton.1 hst, key, group, hg, hcb⟩
        · cases hst
      · cases hst

theorem Reacts.keep {s : SchedulerState} {x : SchedulerState × List Effect} (status : TransferStatus)
    (hgroups : x.1.groups = s.groups) (hheard : Heard cb s x.2 status)
    (hstatus : status.terminal = false) : Reacts id cb s x where
  absent ha := ⟨fun k g hg => ha k g (hgroups ▸ hg), hheard.silent ha⟩
  present key hp := by
    left
    refine ⟨⟨?_, ?_⟩, fun st hst => (hheard st hst).1 ▸ hstatus⟩
    · rw [hgroups]; exact hp.group
    · rw [hgroups]; exact hp.only

theorem Reacts.erase {s : SchedulerState} {x : SchedulerState × List Effect} {key : UniqueId}
    (status : TransferStatus) {transferred : Nat} {total : GroupState → Nat}
    (hgroups : x.1.groups = s.groups.erase key)
    (hstatuses : statusesTo cb x.2 = statusesTo cb (groupStatus s key status transferred total))
    (hstatus : status.terminal = true) : Reacts id cb s x where
  absent ha := by
    refine ⟨fun k g hg => ?_, hstatuses.trans ((Heard.groupStatus s key _ _ _).silent ha)⟩
    rw [hgroups, Table.lookup_erase_ite] at hg
    split at hg
    · cases hg
    · exact ha k g hg
  present key0 hp := by
    obtain ⟨g0, hg0, hid0, hcb0⟩ := hp.group
    by_cases hkey : key0 = key
    · -- the task's own group goes
      right
      subst hkey
      refine ⟨fun k g hg hof => ?_, status, hstatus, ?_⟩
      · rw [hgroups, Table.lookup_erase_ite] at hg
        split at hg
        · cases hg
        · rename_i hne
          exact hne (hp.only k g hg hof)
      · rw [hstatuses, statusesTo_groupStatus, hg0]
        exact if_pos hcb0
    · left
      refine ⟨⟨⟨g0, ?_, hid0, hcb0⟩, fun k g hg hof => ?_⟩, ?_⟩
      · rw [hgroups, Table.lookup_erase_ite, if_neg hkey]
        exact hg0
      · rw [hgroups, Table.lookup_erase_ite] at hg
        split at hg
        · cases hg
        · exact hp.only k g hg hof
      · rw [hstatuses, statusesTo_groupStatus]
        intro st hst
        split at hst
        · rename_i g hg
          split at hst
          · rename_i hcb
            exact absurd (hp.only key g hg (.inr hcb)).symm hkey
          · cases hst
        · cases hst

/-- `try_start_next` adds `Transmission` statuses only. -/
theorem Reacts.thenStart {s : SchedulerState} {x : SchedulerState × List Effect}
    (h : Reacts id cb s x) : Reacts id cb s (thenStart x) := by
  have hgroups : (SpottedCat.thenStart x).1.groups = x.1.groups := (tryStartNext_same x.1).groups
  have hstatuses : statusesTo cb (SpottedCat.thenStart x).2 =
      statusesTo cb x.2 ++ statusesTo cb (SpottedCat.tryStartNext x.1).effects := statusesTo_append ..
  have habsent : Absent id cb x.1 → Absent id cb (SpottedCat.thenStart x).1 ∧
      statusesTo cb (SpottedCat.thenStart x).2 = statusesTo cb x.2 := fun ha => by
    refine ⟨fun k g hg => ha k g (hgroups ▸ hg), ?_⟩
    rw [hstatuses, (Heard.tryStartNext x.1).silent ha, List.append_nil]
  constructor
  · intro ha
    obtain ⟨ha', hs⟩ := h.absent ha
    exact ⟨(habsent ha').1, (habsent ha').2.trans hs⟩
  · intro key hp
    obtain ⟨hp', hs⟩ | ⟨ha', st, ht, hs⟩ := h.present key hp
    · left
      refine ⟨⟨hgroups ▸ hp'.group, hgroups ▸ hp'.only⟩, fun st hst => ?_⟩
      rw [hstatuses] at hst
      rcases List.mem_append.1 hst with hst | hst
      · exact hs st hst
      · rw [(Heard.tryStartNext x.1 st hst).1]; rfl
    · right
      exact ⟨(habsent ha').1, st, ht, (habsent ha').2.trans hs⟩

/-- Another task is accepted: its group is new, and its statuses go to its own callback. -/
theorem Reacts.acceptTask {s : SchedulerState} {inner : InnerTask} {callbacks : TaskCallbacks}
    (hg : s.groups.lookup inner.dedupeKey = none) (hid : inner.taskId ≠ id)
    (hcb : callbacks.progressCb ≠ some cb) : Reacts id cb s (acceptTask s inner callbacks) := by
  have hgroups : ∀ k, (SpottedCat.acceptTask s inner callbacks).1.groups.lookup k =
      if k = inner.dedupeKey then some ⟨inner, ⟨inner, callbacks⟩⟩ else s.groups.lookup k := by
    intro k
    rw [← Table.lookup_insert_ite]
    unfold SpottedCat.acceptTask
    simp only
    split <;> rfl
  have hstatuses : statusesTo cb (SpottedCat.acceptTask s inner callbacks).2 = [] := by
    have hemit : ∀ (st : SchedulerState) status transferred total,
        statusesTo cb (emitStatus st ⟨inner, callbacks⟩ status transferred total) = [] := by
      intros
      rw [statusesTo_emitStatus]
      exact if_neg hcb
    simp only [SpottedCat.acceptTask, statusesTo_append, hemit, List.nil_append]
    split
    · exact hemit _ _ _ _
    · rfl
  have hnew : ¬ (GroupState.mk inner ⟨inner, callbacks⟩).IsOf id cb := by
    rintro (h | h)
    · exact hid h
    · exact hcb h
  constructor
  · refine fun ha => ⟨fun k g hk => ?_, hstatuses⟩
    rw [hgroups] at hk
    split at hk
    · cases hk; exact hnew
    · exact ha k g hk
  · intro key hp
    left
    obtain ⟨g0, hg0, hids⟩ := hp.group
    have hne : key ≠ inner.dedupeKey := by rintro rfl; rw [hg] at hg0; cases hg0
    refine ⟨⟨⟨g0, ?_, hids⟩, fun k g hk hof => ?_⟩, ?_⟩
    · rw [hgroups, if_neg hne]; exact hg0
    · rw [hgroups] at hk
      split at hk
      · cases hk; exact absurd hof hnew
      · exact hp.only k g hk hof
    · rw [hstatuses]; exact fun _ hst => absurd hst List.not_mem_nil

/-- Effects among which no task callback is called. -/
theorem Heard.of_eq_nil {s : SchedulerState} {es : List Effect} (h : statusesTo cb es = []) :
    Heard cb s es .pending := fun _ hst => absurd (h ▸ hst) List.not_mem_nil

theorem Reacts.resumeGroup (s : SchedulerState) (key : UniqueId) (cmd : TransferCmd) :
    Reacts id cb s ((resumeGroup s key).2.1,
      (resumeGroup s key).2.2 ++ [.respond cmd (resumeGroup s key).1]) := by
  unfold SpottedCat.resumeGroup
  split
  · exact .keep .pending rfl (.of_eq_nil (statusesTo_respond _ _ _ _)) rfl
  split
  · exact .keep .pending rfl (.of_eq_nil (statusesTo_respond _ _ _ _)) rfl
  split
  · exact .keep .pending rfl (.of_eq_nil (statusesTo_respond _ _ _ _)) rfl
  refine .keep .pending ?_ (fun st hst => ?_) rfl
  · simp only
    split <;> rfl
  · rw [statusesTo_respond] at hst
    exact Heard.groupStatus s key _ _ _ st hst

theorem Reacts.handleWorkerEvent (s : SchedulerState) (event : WorkerEvent) :
    Reacts id cb s (handleWorkerEvent s event) := by
  cases event with
  | progress key nextOffset totalSize =>
    exact .keep .transmission rfl (Heard.groupStatus s key _ _ _) rfl
  | completed key totalSize => exact .erase .complete (SchedulerState.removeGroup_groups _ _) rfl rfl
  | failed key error => exact .erase (.failed error) (SchedulerState.removeGroup_groups _ _) rfl rfl
  | canceled key =>
    unfold SpottedCat.handleWorkerEvent
    simp only
    split
    · exact .keep .pending rfl (.of_eq_nil rfl) rfl
    · exact .erase .canceled (SchedulerState.removeGroup_groups _ _) rfl rfl

theorem Reacts.handleCmd (s : SchedulerState) (cmd : TransferCmd)
    (hforeign : (LoopInput.cmd cmd).Foreign id cb) (hclose : (LoopInput.cmd cmd).closes = false) :
    Reacts id cb s (handleCmd s cmd) := by
  have hunknown : ∀ ret, Reacts id cb s (SpottedCat.thenStart (s, [.respond cmd ret])) :=
    fun ret => Reacts.thenStart (.keep .pending rfl (.of_eq_nil rfl) rfl)
  cases cmd with
  | enqueue inner callbacks =>
    obtain ⟨hid, hcb⟩ := hforeign inner callbacks rfl
    simp only [SpottedCat.handleCmd]
    split
    · -- a duplicate: only its own callback hears of it
      refine .keep .pending rfl (.of_eq_nil (statusesTo_of_not_invoke fun e he _ heq => ?_)) rfl
      subst heq
      rcases List.mem_append.1 he with he | he
      · unfold invokeProgressCb at he
        split at he
        · rename_i cb' hcb'
          cases List.mem_singleton.1 he
          exact hcb hcb'
        · cases he
      · obtain ⟨_, _, h⟩ := mem_emitGlobalProgress he
        cases h
    · rename_i hg
      exact (Reacts.acceptTask hg hid hcb).thenStart
  | pause taskId =>
    simp only [SpottedCat.handleCmd]
    split
    · rename_i key _
      refine Reacts.thenStart (.keep .paused rfl (fun st hst => ?_) rfl)
      rw [statusesTo_respond, pauseGroup, statusesTo_append, statusesTo_cancelActive, List.nil_append] at hst
      exact Heard.groupStatus s key _ _ _ st hst
    · exact hunknown _
  | resume taskId =>
    simp only [SpottedCat.handleCmd]
    split
    · exact (Reacts.resumeGroup s _ _).thenStart
    · exact hunknown _
  | cancel taskId =>
    simp only [SpottedCat.handleCmd]
    split
    · rename_i key _
      have hstatuses : statusesTo cb ((cancelGroup s key).2 ++ [.respond (.cancel taskId) (.ok ())]) =
          statusesTo cb (groupStatus s key .canceled (s.current key) GroupState.ownTotal) := by
        rw [statusesTo_respond, cancelGroup, statusesTo_append, statusesTo_cancelActive,
          List.nil_append]
      exact Reacts.thenStart (.erase .canceled (SchedulerState.removeGroup_groups _ _) hstatuses rfl)
    · exact hunknown _
  | snapshot => exact .keep .pending rfl (.of_eq_nil rfl) rfl
  | close => cases hclose

theorem react_reacts (s : SchedulerState) (input : LoopInput) (hforeign : input.Foreign id cb)
    (hclose : input.closes = false) : Reacts id cb s (react s input) := by
  cases input with
  | cmd cmd => exact .handleCmd s cmd hforeign hclose
  | event event => exact (Reacts.handleWorkerEvent s event).thenStart
  | listen op => exact .keep .pending rfl (.of_eq_nil rfl) rfl

/-- `Close` leaves no group. -/
theorem react_closes_absent {s : SchedulerState} {input : LoopInput} (hclose : input.closes = true) :
    Absent id cb (react s input).1 := by
  cases input with
  | event | listen => cases hclose
  | cmd cmd =>
    cases cmd with
    | close activeOrder groupOrder => exact fun k g hg => by simp [react, handleCmd, closeAll] at hg
    | _ => cases hclose

/-- Its statuses are `Paused`. -/
theorem react_closes_heard {s : SchedulerState} {input : LoopInput} (hclose : input.closes = true) :
    Heard cb s (react s input).2 .paused := by
  cases input with
  | event | listen => cases hclose
  | cmd cmd =>
    cases cmd with
    | close activeOrder groupOrder =>
      intro st hst
      have hcancel : statusesTo cb (activeOrder.flatMap (cancelActive s)) = [] := by
        refine statusesTo_of_not_invoke fun e he dto heq => ?_
        obtain ⟨_, _, he⟩ := List.mem_flatMap.1 he
        obtain ⟨_, _, rfl⟩ := mem_cancelActive he
        cases heq
      simp only [react, handleCmd, closeAll] at hst
      rw [statusesTo_respond, statusesTo_append, hcancel, List.nil_append] at hst
      rw [statusesTo, List.filterMap_flatMap, List.mem_flatMap] at hst
      obtain ⟨key, _, hst⟩ := hst
      exact Heard.groupStatus s key _ _ _ st hst
    | _ => cases hclose

/-- A task that is not there stays away, and its callback silent. -/
theorem Absent.react {s : SchedulerState} (ha : Absent id cb s) {input : LoopInput}
    (hforeign : input.Foreign id cb) :
    Absent id cb (react s input).1 ∧ statusesTo cb (SpottedCat.react s input).2 = [] := by
  cases hclose : input.closes with
  | true => exact ⟨react_closes_absent hclose, (react_closes_heard hclose).silent ha⟩
  | false => exact (react_reacts s input hforeign hclose).absent ha

/-! ## Runs -/

/-- Where an accepted task stands: in the scheduler, over, or cut off by `Close`. -/
inductive Phase (id : TaskId) (cb : ProgressCb) (key : UniqueId) (loop : Loop) : Prop
  | live (present : Present id cb key loop.state) (rest : List TransferStatus)
      (delivered : statusesTo cb loop.log = .pending :: rest) (open_ : ∀ st ∈ rest, st.terminal = false)
  | ended (absent : Absent id cb loop.state) (rest : List TransferStatus) (last : TransferStatus)
      (delivered : statusesTo cb loop.log = .pending :: (rest ++ [last]))
      (open_ : ∀ st ∈ rest, st.terminal = false) (ended : last.terminal = true)
  | closed (closed : loop.closed = true) (rest : List TransferStatus)
      (delivered : statusesTo cb loop.log = .pending :: rest) (open_ : ∀ st ∈ rest, st.terminal = false)

theorem TaskHistory.of_open {rest : List TransferStatus} (h : ∀ st ∈ rest, st.terminal = false) :
    TaskHistory (.pending :: rest) where
  pending_first := rfl
  terminal_last st hst := by
    rcases List.mem_cons.1 (List.dropLast_subset _ hst) with rfl | hst
    · rfl
    · exact h st hst

theorem TaskHistory.of_over {rest : List TransferStatus} {last : TransferStatus}
    (h : ∀ st ∈ rest, st.terminal = false) : TaskHistory (.pending :: (rest ++ [last])) where
  pending_first := rfl
  terminal_last st hst := by
    rw [← List.cons_append, List.dropLast_concat] at hst
    rcases List.mem_cons.1 hst with rfl | hst
    · rfl
    · exact h st hst

theorem Phase.history {key : UniqueId} {loop : Loop} (h : Phase id cb key loop) :
    TaskHistory (statusesTo cb loop.log) := by
  cases h with
  | live _ rest hd ho => rw [hd]; exact .of_open ho
  | ended _ rest last hd ho _ => rw [hd]; exact .of_over ho
  | closed _ rest hd ho => rw [hd]; exact .of_open ho

theorem Phase.step {key : UniqueId} {loop loop' : Loop} {input : LoopInput}
    (h : Phase id cb key loop) (hs : loop.step input = some loop') (hforeign : input.Foreign id cb) :
    Phase id cb key loop' := by
  obtain ⟨hopen, _, rfl⟩ := Loop.step_eq_some.1 hs
  have hlog : statusesTo cb (loop.log ++ (react loop.state input).2) =
      statusesTo cb loop.log ++ statusesTo cb (react loop.state input).2 := statusesTo_append ..
  cases h with
  | closed hc => rw [hopen] at hc; cases hc
  | live hp rest hd ho =>
    rw [hd] at hlog
    cases hclose : input.closes with
    | true =>
      refine .closed rfl _ hlog fun st hst => ?_
      rcases List.mem_append.1 hst with hst | hst
      · exact ho st hst
      · rw [(react_closes_heard hclose st hst).1]; rfl
    | false =>
      obtain ⟨hp', hquiet⟩ | ⟨ha, last, hl, hlast⟩ :=
        (react_reacts loop.state input hforeign hclose).present key hp
      · refine .live hp' _ hlog fun st hst => ?_
        rcases List.mem_append.1 hst with hst | hst
        · exact ho st hst
        · exact hquiet st hst
      · rw [hlast] at hlog
        exact .ended ha rest last hlog ho hl
  | ended ha rest last hd ho hl =>
    have hquiet := ha.react hforeign
    rw [hd, hquiet.2, List.append_nil] at hlog
    exact .ended hquiet.1 rest last hlog ho hl

/-- Nothing of a task is there before its `Enqueue`. -/
theorem Absent.run {loop loop' : Loop} {inputs : List LoopInput} (ha : Absent id cb loop.state)
    (hrun : Lts.run Loop.step loop inputs = some loop')
    (hforeign : ∀ input ∈ inputs, input.Foreign id cb) :
    Absent id cb loop'.state ∧ statusesTo cb loop'.log = statusesTo cb loop.log := by
  refine Lts.run_invariant_of_meets (I := fun l => Absent id cb l.state ∧
    statusesTo cb l.log = statusesTo cb loop.log) (C := fun _ input => input.Foreign id cb)
    ?_ ⟨ha, rfl⟩ (Lts.Meets.of_forall fun input hi _ => hforeign input hi) hrun
  rintro l input l' ⟨hl, hlog⟩ hf hs
  obtain ⟨_, _, rfl⟩ := Loop.step_eq_some.1 hs
  have hquiet := hl.react hf
  refine ⟨hquiet.1, ?_⟩
  rw [statusesTo_append, hquiet.2, List.append_nil, hlog]

/-- **An accepted `Enqueue`** delivers `Pending`, and nothing terminal with it. -/
theorem Phase.of_accept {loop loop' : Loop} {inner : InnerTask}
    (hg : inner.dedupeKey ∉ loop.state.groups) (ha : Absent inner.taskId cb loop.state)
    (hlog : statusesTo cb loop.log = [])
    (hs : loop.step (.cmd (.enqueue inner ⟨some cb⟩)) = some loop') :
    Phase inner.taskId cb inner.dedupeKey loop' := by
  obtain ⟨_, _, rfl⟩ := Loop.step_eq_some.1 hs
  set x := acceptTask loop.state inner ⟨some cb⟩ with hx
  have hreact : react loop.state (.cmd (.enqueue inner ⟨some cb⟩)) = thenStart x := by
    simp only [react, handleCmd, Finmap.lookup_eq_none.2 hg, hx]
  have hgroups : ∀ k, (thenStart x).1.groups.lookup k =
      if k = inner.dedupeKey then some ⟨inner, ⟨inner, ⟨some cb⟩⟩⟩ else loop.state.groups.lookup k := by
    intro k
    rw [thenStart, (tryStartNext_same x.1).groups, ← Table.lookup_insert_ite, hx]
    unfold acceptTask
    simp only
    split <;> rfl
  have hpending : ∃ rest, statusesTo cb x.2 = .pending :: rest ∧ ∀ st ∈ rest, st.terminal = false := by
    have hemit : ∀ (st : SchedulerState) status transferred total,
        statusesTo cb (emitStatus st ⟨inner, ⟨some cb⟩⟩ status transferred total) = [status] := by
      intros
      rw [statusesTo_emitStatus]
      exact if_pos rfl
    rw [hx]
    simp only [acceptTask, statusesTo_append, hemit]
    split
    · exact ⟨_, rfl, by simp [hemit, TransferStatus.terminal]⟩
    · exact ⟨_, rfl, by simp⟩
  obtain ⟨rest, hrest, hquiet⟩ := hpending
  rw [hreact]
  refine .live ⟨⟨_, (hgroups _).trans (if_pos rfl), rfl, rfl⟩, fun k g hk hof => ?_⟩
    (rest ++ statusesTo cb (tryStartNext x.1).effects) ?_ fun st hst => ?_
  · rw [hgroups] at hk
    split at hk
    · assumption
    · exact absurd hof (ha k g hk)
  · rw [statusesTo_append, hlog, List.nil_append, thenStart, statusesTo_append, hrest,
      List.cons_append]
  · rcases List.mem_append.1 hst with hst | hst
    · exact hquiet st hst
    · rw [(Heard.tryStartNext x.1 st hst).1]; rfl

/-- A task without a group is unknown to every control. -/
theorem Absent.lookup_none {loop : Loop} (h : LoopInv loop) (ha : Absent id cb loop.state) :
    loop.state.taskIdToDedupe.lookup id = none := by
  refine Option.eq_none_iff_forall_ne_some.2 fun key hk => ?_
  obtain ⟨g, hg, hid⟩ := (h.inv.id_map id key).1 hk
  exact ha key g hg (.inl hid)

theorem ControlAgrees.of_absent {loop : Loop} {statuses : List TransferStatus} (h : LoopInv loop)
    (ha : Absent id cb loop.state)
    (hs : .pending ∉ statuses ∨ ∃ st ∈ statuses, st.terminal = true) :
    ControlAgrees loop id statuses := by
  have hnone := Loop.answer_none (ha.lookup_none h)
  refine ⟨fun cmd hcmd => ?_, fun _ => hnone⟩
  have hcmd' : cmd ∈ [TransferCmd.pause id, .resume id, .cancel id] := by
    simp only [List.mem_cons, List.not_mem_nil, or_false] at hcmd ⊢
    exact hcmd.imp_right .inr
  rw [hnone cmd hcmd']
  simp only [Option.some.injEq, reduceCtorEq, false_iff, not_and]
  intro hp hall
  rcases hs with hs | ⟨st, hst, ht⟩
  · exact hs hp
  · rw [hall st hst] at ht; cases ht

theorem Phase.control {key : UniqueId} {loop : Loop} (hphase : Phase id cb key loop)
    (h : LoopInv loop) (hopen : loop.closed = false) :
    ControlAgrees loop id (statusesTo cb loop.log) := by
  cases hphase with
  | closed hc => rw [hopen] at hc; cases hc
  | ended ha rest last hd ho hl =>
    exact .of_absent h ha (.inr ⟨last, by simp [hd], hl⟩)
  | live hp rest hd ho =>
    obtain ⟨g, hg, hid, _⟩ := hp.group
    have hall : ∀ st ∈ statusesTo cb loop.log, st.terminal = false := by
      rw [hd]
      intro st hst
      rcases List.mem_cons.1 hst with rfl | hst
      · rfl
      · exact ho st hst
    refine ⟨fun cmd hcmd => ?_, fun ⟨st, hst, ht⟩ => ?_⟩
    · rw [Loop.answer_some ((h.inv.id_map id key).2 ⟨g, hg, hid⟩) cmd hcmd]
      simp only [true_iff]
      exact ⟨by simp [hd], hall⟩
    · rw [hall st hst] at ht; cases ht

theorem issued_run {loop loop' : Loop} {inputs : List LoopInput}
    (hrun : Lts.run Loop.step loop inputs = some loop') :
    loop'.issued = loop.issued ++ inputs.flatMap LoopInput.issues := by
  induction inputs generalizing loop with
  | nil => cases hrun; simp
  | cons input inputs ih =>
    obtain ⟨loop1, hs, hrun⟩ := Lts.run_cons.1 hrun
    obtain ⟨_, _, rfl⟩ := Loop.step_eq_some.1 hs
    rw [ih hrun]
    simp

/-- No `Enqueue` among the inputs brings the callback `cb`. -/
def Unshared (cb : ProgressCb) (inputs : List LoopInput) : Prop :=
  ∀ inner callbacks, .cmd (.enqueue inner callbacks) ∈ inputs → callbacks.progressCb ≠ some cb

theorem Phase.run {key : UniqueId} {loop loop' : Loop} {inputs : List LoopInput}
    (h : Phase id cb key loop) (hid : id ∈ loop.issued) (hcb : Unshared cb inputs)
    (hrun : Lts.run Loop.step loop inputs = some loop') : Phase id cb key loop' := by
  induction inputs generalizing loop with
  | nil => cases hrun; exact h
  | cons input inputs ih =>
    obtain ⟨loop1, hs, hrun⟩ := Lts.run_cons.1 hrun
    -- the id is taken, so whatever is enqueued next has another
    have hforeign : input.Foreign id cb := by
      rintro inner callbacks rfl
      refine ⟨?_, hcb inner callbacks List.mem_cons_self⟩
      rintro rfl
      exact (Loop.step_eq_some.1 hs).2.1 hid
    refine ih (h.step hs hforeign) ?_ (fun inner callbacks hm => hcb _ _ (List.mem_cons_of_mem _ hm)) hrun
    obtain ⟨_, _, rfl⟩ := Loop.step_eq_some.1 hs
    exact List.mem_append.2 (.inl hid)

theorem Absent.of_fresh {maxUpload maxDownload : Nat} {inputs : List LoopInput} {loop : Loop}
    (hrun : Lts.run Loop.step (.init maxUpload maxDownload) inputs = some loop)
    (hid : id ∉ loop.issued) (hcb : Unshared cb inputs) :
    Absent id cb loop.state ∧ statusesTo cb loop.log = [] := by
  have hinit : Absent id cb (Loop.init maxUpload maxDownload).state :=
    fun k g hg => by simp [Loop.init, SchedulerState.new] at hg
  refine hinit.run hrun fun input hi inner callbacks he => ?_
  subst he
  refine ⟨?_, hcb inner callbacks hi⟩
  rintro rfl
  refine hid ?_
  rw [issued_run hrun]
  exact List.mem_append.2 (.inr (List.mem_flatMap.2 ⟨_, hi, List.mem_singleton.2 rfl⟩))

/-- What holds of the task of an accepted `Enqueue` at one point of a run. -/
structure TaskLaw (inner : InnerTask) (cb : ProgressCb) (loop : Loop) : Prop where
  history : statusesTo cb loop.log = [] ∨ TaskHistory (statusesTo cb loop.log)
  control : loop.closed = false → ControlAgrees loop inner.taskId (statusesTo cb loop.log)

/-- **The life of a task.** Take any run with an accepted `Enqueue` whose callback is its own. At the
end the statuses delivered to that callback begin with `Pending` and end at their only terminal one;
and at every point of the run the controls answer as the statuses delivered so far say. -/
theorem task_lifecycle {maxUpload maxDownload : Nat} {before after : List LoopInput}
    {inner : InnerTask} {cb : ProgressCb} {loop0 loop : Loop}
    (hbefore : Lts.run Loop.step (.init maxUpload maxDownload) before = some loop0)
    (haccepted : inner.dedupeKey ∉ loop0.state.groups)
    (hrun : Lts.run Loop.step loop0 (.cmd (.enqueue inner ⟨some cb⟩) :: after) = some loop)
    (hown : Unshared cb (before ++ after)) :
    TaskHistory (statusesTo cb loop.log) ∧
    ∀ pre post point, before ++ .cmd (.enqueue inner ⟨some cb⟩) :: after = pre ++ post →
      Lts.run Loop.step (.init maxUpload maxDownload) pre = some point → TaskLaw inner cb point := by
  have hownBefore : Unshared cb before := fun i c hm => hown i c (List.mem_append.2 (.inl hm))
  have hownAfter : Unshared cb after := fun i c hm => hown i c (List.mem_append.2 (.inr hm))
  have hwaiting : ∀ pre point, (∀ input ∈ pre, input ∈ before) → inner.taskId ∉ point.issued →
      Lts.run Loop.step (.init maxUpload maxDownload) pre = some point → TaskLaw inner cb point := by
    intro pre point hsub hid hpre
    obtain ⟨ha, hlog⟩ := Absent.of_fresh hpre hid fun i c hm => hownBefore i c (hsub _ hm)
    exact ⟨.inl hlog, fun _ => .of_absent (.of_run hpre) ha (.inl (by simp [hlog]))⟩
  -- the state right after the `Enqueue`, from which every later point is a run
  obtain ⟨loop1, hs, hafter⟩ := Lts.run_cons.1 hrun
  have hfresh : inner.taskId ∉ loop0.issued := (Loop.step_eq_some.1 hs).2.1
  have hissued : inner.taskId ∈ loop1.issued := by
    obtain ⟨_, _, rfl⟩ := Loop.step_eq_some.1 hs
    exact List.mem_append.2 (.inr (List.mem_singleton.2 rfl))
  obtain ⟨ha0, hlog0⟩ := Absent.of_fresh hbefore hfresh hownBefore
  have hphase1 : Phase inner.taskId cb inner.dedupeKey loop1 := .of_accept haccepted ha0 hlog0 hs
  refine ⟨(hphase1.run hissued hownAfter hafter).history, fun pre post point hsplit hpre => ?_⟩
  rcases List.append_eq_append_iff.1 hsplit with ⟨mid, hpre', hrest⟩ | ⟨mid, hbefore', _⟩
  · subst hpre'
    obtain ⟨l, hl, hmid⟩ := Lts.run_append.1 hpre
    rw [hbefore] at hl
    cases hl
    cases mid with
    | nil => cases hmid; exact hwaiting before _ (fun _ h => h) hfresh hbefore
    | cons input mid =>
      obtain ⟨rfl, rfl⟩ := List.cons.inj hrest
      obtain ⟨l, hl, hmid⟩ := Lts.run_cons.1 hmid
      rw [hs] at hl
      cases hl
      have hphase := hphase1.run hissued
        (fun i c hm => hownAfter i c (List.mem_append.2 (.inl hm))) hmid
      exact ⟨.inr hphase.history, hphase.control (.of_run hpre)⟩
  · subst hbefore'
    refine hwaiting pre point (fun _ h => List.mem_append.2 (.inl h)) (fun hid => hfresh ?_) hpre
    obtain ⟨l, hl, hmid⟩ := Lts.run_append.1 hbefore
    rw [hpre] at hl
    cases hl
    rw [issued_run hmid]
    exact List.mem_append.2 (.inl hid)

/-- A task is cancelled, and its url enqueued again. -/
def cancelThenRepeat : List LoopInput := [.cmd (.cancel ⟨0⟩), .cmd (sampleEnqueue 1)]

theorem task_lifecycle_canceled : ∃ loop,
    Lts.run Loop.step (.init 1 1) (.cmd (sampleEnqueue 0) :: cancelThenRepeat) = some loop ∧
      TaskHistory (statusesTo ⟨0⟩ loop.log) ∧ TaskLaw (sampleTask 0) ⟨0⟩ loop := by
  have hrun : Lts.run Loop.step (.init 1 1) (.cmd (sampleEnqueue 0) :: cancelThenRepeat) = some _ :=
    Lts.run_final (by decide)
  have hown : Unshared ⟨0⟩ ([] ++ cancelThenRepeat) := by
    intro inner callbacks hm
    simp only [List.nil_append, cancelThenRepeat, List.mem_cons, LoopInput.cmd.injEq, reduceCtorEq,
      sampleEnqueue, TransferCmd.enqueue.injEq, List.not_mem_nil, or_false, false_or] at hm
    rw [hm.2]
    decide
  have hlaw := task_lifecycle rfl Finmap.notMem_empty hrun hown
  exact ⟨_, hrun, hlaw.1, hlaw.2 _ [] _ (List.append_nil _).symm hrun⟩

end SpottedCat
