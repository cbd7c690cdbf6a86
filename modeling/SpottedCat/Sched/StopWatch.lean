import SpottedCat.Sched.Loop

/-!
# A monitor of pauses and cancels

`stopWatch` reads everything the loop does, as a client that follows one task: the answers to `Pause`,
`Cancel` and `Resume`, and the workers started for the task. It gets stuck on a worker that is started
while the task is stopped, and on a `Resume` answered `Ok` that follows no `Pause`. So a log that it
reads to the end has neither (`stopWatch_stays`, `stopWatch_paused`).
-/

namespace SpottedCat

/-- What a client knows of its task from the answers to its commands. -/
inductive Stop where
  | running
  | paused
  | cancelled
deriving DecidableEq, Repr

/-- One effect, as seen by that client. -/
def stopWatch (id : TaskId) (stop : Stop) : Effect → Option Stop
  | .respond (.pause taskId) (.ok ()) =>
    if taskId = id then if stop = .cancelled then none else some .paused else some stop
  | .respond (.cancel taskId) (.ok ()) =>
    if taskId = id then if stop = .cancelled then none else some .cancelled else some stop
  | .respond (.resume taskId) (.ok ()) =>
    if taskId = id then if stop = .paused then some .running else none else some stop
  | .spawn _ inner _ _ => if inner.taskId = id ∧ stop ≠ .running then none else some stop
  | _ => some stop

variable {id : TaskId} {stop stop' : Stop} {s : SchedulerState}

/-! ## Effects that it skips -/

/-- Neither an answer nor a start. -/
def Effect.Quiet (e : Effect) : Prop :=
  (∀ cmd ret, e ≠ .respond cmd ret) ∧ ∀ key inner cancel offset, e ≠ .spawn key inner cancel offset

theorem stopWatch_quiet {e : Effect} (h : e.Quiet) : stopWatch id stop e = some stop := by
  cases e with
  | respond cmd ret => exact absurd rfl (h.1 cmd ret)
  | spawn key inner cancel offset => exact absurd rfl (h.2 key inner cancel offset)
  | _ => rfl

theorem stopWatch_quiets {es : List Effect} (h : ∀ e ∈ es, e.Quiet) :
    Lts.run (stopWatch id) stop es = some stop :=
  Lts.run_fixed fun e he => stopWatch_quiet (h e he)

theorem Effect.Quiet.of_record {e : Effect} {dto : FileTransferRecord} (h : e.record = some dto) :
    e.Quiet := by
  refine ⟨fun cmd ret he => ?_, fun key inner cancel offset he => ?_⟩
  · rw [he] at h
    cases h
  · rw [he] at h
    cases h

theorem quiet_groupStatus {key : UniqueId} {status : TransferStatus} {transferred : Nat}
    {total : GroupState → Nat} : ∀ e ∈ groupStatus s key status transferred total, e.Quiet := by
  intro e he
  obtain ⟨_, _, hr⟩ := mem_groupStatus he
  exact .of_record hr

theorem quiet_cancelActive {key : UniqueId} : ∀ e ∈ cancelActive s key, e.Quiet := by
  intro e he
  obtain ⟨_, _, rfl⟩ := mem_cancelActive he
  exact ⟨by simp, by simp⟩

theorem quiet_handleWorkerEvent {event : WorkerEvent} : ∀ e ∈ (handleWorkerEvent s event).2, e.Quiet := by
  cases event with
  | progress | completed | failed => exact quiet_groupStatus
  | canceled key =>
    unfold handleWorkerEvent
    simp only
    split
    · exact fun e he => absurd he List.not_mem_nil
    · exact quiet_groupStatus

theorem quiet_notify {callbacks : TaskCallbacks} {dto : FileTransferRecord} :
    ∀ e ∈ invokeProgressCb callbacks dto ++ emitGlobalProgress s dto, e.Quiet :=
  fun _ he => .of_record (mem_notify he)

theorem quiet_acceptTask {inner : InnerTask} {callbacks : TaskCallbacks} :
    ∀ e ∈ (acceptTask s inner callbacks).2, e.Quiet := by
  intro e he
  rcases List.mem_append.1 he with he | he
  · exact .of_record (mem_emitStatus he)
  · split at he
    · exact .of_record (mem_emitStatus he)
    · cases he

theorem quiet_resumeGroup {key : UniqueId} : ∀ e ∈ (resumeGroup s key).2.2, e.Quiet := by
  unfold resumeGroup
  split_ifs <;> first | exact quiet_groupStatus | exact fun e he => absurd he List.not_mem_nil

/-- A handler's answer comes last. -/
theorem stopWatch_answer {es : List Effect} {cmd : TransferCmd} {ret : Except MeowError Unit}
    (h : ∀ e ∈ es, e.Quiet) : Lts.run (stopWatch id) stop (es ++ [.respond cmd ret]) =
      stopWatch id stop (.respond cmd ret) := by
  cases hw : stopWatch id stop (.respond cmd ret) with
  | some stop' => exact Lts.run_snoc.2 ⟨stop, stopWatch_quiets h, hw⟩
  | none =>
    rw [Option.eq_none_iff_forall_ne_some]
    intro stop' hrun
    obtain ⟨stop1, h1, h2⟩ := Lts.run_snoc.1 hrun
    rw [stopWatch_quiets h] at h1
    cases h1
    rw [hw] at h2
    cases h2

theorem stopWatch_error {cmd : TransferCmd} {e : MeowError} :
    stopWatch id stop (.respond cmd (.error e)) = some stop := by
  cases cmd <;> rfl

/-! ## What the monitor says of a log -/

/-- Once stopped, a task stays so until a `Resume` is answered `Ok`, and nothing is started for it. -/
theorem stopWatch_stays {es : List Effect} (hno : .respond (.resume id) (.ok ()) ∉ es)
    (hstop : stop ≠ .running) (hrun : Lts.run (stopWatch id) stop es = some stop') :
    stop' ≠ .running ∧ ∀ key inner cancel offset, .spawn key inner cancel offset ∈ es →
      inner.taskId ≠ id := by
  induction es generalizing stop with
  | nil =>
    cases hrun
    exact ⟨hstop, fun _ _ _ _ he => absurd he List.not_mem_nil⟩
  | cons e es ih =>
    obtain ⟨stop1, he, hrun⟩ := Lts.run_cons.1 hrun
    have hstop1 : stop1 ≠ .running ∧ ∀ key inner cancel offset, e = .spawn key inner cancel offset →
        inner.taskId ≠ id := by
      unfold stopWatch at he
      split at he
      · split at he
        · split at he <;> cases he
          exact ⟨by simp, by simp⟩
        · cases he
          exact ⟨hstop, by simp⟩
      · split at he
        · split at he <;> cases he
          exact ⟨by simp, by simp⟩
        · cases he
          exact ⟨hstop, by simp⟩
      · split at he
        · rename_i hid
          exact absurd (hid ▸ List.mem_cons_self) hno
        · cases he
          exact ⟨hstop, by simp⟩
      · split at he
        · cases he
        · rename_i hspawn
          cases he
          refine ⟨hstop, fun key inner cancel offset heq => ?_⟩
          cases heq
          exact fun hid => hspawn ⟨hid, hstop⟩
      · rename_i hother
        cases he
        refine ⟨hstop, fun key inner cancel offset heq => ?_⟩
        exact absurd heq (hother key inner cancel offset)
    obtain ⟨hlast, hrest⟩ := ih (fun hm => hno (List.mem_cons_of_mem _ hm)) hstop1.1 hrun
    refine ⟨hlast, fun key inner cancel offset hm => ?_⟩
    rcases List.mem_cons.1 hm with rfl | hm
    · exact hstop1.2 key inner cancel offset rfl
    · exact hrest key inner cancel offset hm

/-- The answer that paused it, and nothing that ended the pause since. -/
theorem stopWatch_paused {es : List Effect} (hrun : Lts.run (stopWatch id) .running es = some .paused) :
    ∃ earlier between, es = earlier ++ .respond (.pause id) (.ok ()) :: between ∧
      .respond (.cancel id) (.ok ()) ∉ between ∧ .respond (.resume id) (.ok ()) ∉ between := by
  induction es using List.reverseRecOn with
  | nil => cases hrun
  | append_singleton es e ih =>
    obtain ⟨stop1, hrun, he⟩ := Lts.run_snoc.1 hrun
    by_cases hpause : e = .respond (.pause id) (.ok ())
    · exact ⟨es, [], by rw [hpause], List.not_mem_nil, List.not_mem_nil⟩
    · -- any other effect leaves a pause only where it found one
      have hsame : stop1 = .paused ∧ e ≠ .respond (.cancel id) (.ok ()) ∧
          e ≠ .respond (.resume id) (.ok ()) := by
        unfold stopWatch at he
        split at he
        · split at he
          · rename_i hid
            exact absurd (by rw [hid]) hpause
          · cases he
            exact ⟨rfl, by simp, by simp⟩
        · split at he
          · split at he <;> cases he
          · rename_i hid
            cases he
            exact ⟨rfl, by simp [hid], by simp⟩
        · split at he
          · split at he <;> cases he
          · rename_i hid
            cases he
            exact ⟨rfl, by simp, by simp [hid]⟩
        · split at he <;> cases he
          exact ⟨rfl, by simp, by simp⟩
        · rename_i hcancel hresume _
          cases he
          exact ⟨rfl, fun h => hcancel _ h, fun h => hresume _ h⟩
      obtain ⟨rfl, hcancel, hresume⟩ := hsame
      obtain ⟨earlier, between, rfl, hc, hr⟩ := ih hrun
      refine ⟨earlier, between ++ [e], by simp, ?_, ?_⟩
      · simp [hc, Ne.symm hcancel]
      · simp [hr, Ne.symm hresume]

end SpottedCat
