import SpottedCat.Sched.Loop

/-!
# Where a `Complete` record comes from

Every record of an iteration but one tells of something else: `react_complete` traces a `Complete` back to the
`Completed` event of the group's worker, which is all that `handle_worker_event` has to go by.
-/

namespace SpottedCat

/-- Everything `try_start_next` reports is a `Transmission`. -/
theorem tryStartNext_records {s : SchedulerState} {e : Effect} (he : e ∈ (tryStartNext s).effects)
    {dto : FileTransferRecord} (hdto : e.record = some dto) : dto.status = .transmission := by
  suffices hall : ∀ e ∈ (tryStartNext s).effects, ∀ dto, e.record = some dto → dto.status = .transmission from
    hall e he dto hdto
  refine tryStartNext_induct (P := fun _ es => ∀ e ∈ es, ∀ dto, e.record = some dto →
    dto.status = .transmission) (fun e he => absurd he List.not_mem_nil) ?_ ?_ ?_
  · intro st es key rest h _ _
    exact h
  · intro st es key rest h _ _
    exact h
  · intro st es key rest group h _ _ _ _ e he dto hdto
    rcases List.mem_append.1 he with he | he
    · exact h e he dto hdto
    · rcases List.mem_append.1 he with he | he
      · rw [mem_emitStatus he] at hdto
        cases hdto
        rfl
      · rw [List.mem_singleton.1 he] at hdto
        cases hdto

/-- No record of a completion among them. -/
def Unfinished (es : List Effect) : Prop := ∀ e ∈ es, ∀ dto, e.record = some dto → dto.status ≠ .complete

section
variable {s : SchedulerState} {es es' : List Effect}

theorem Unfinished.append (h : Unfinished es) (h' : Unfinished es') : Unfinished (es ++ es') := by
  intro e he
  rcases List.mem_append.1 he with he | he
  · exact h e he
  · exact h' e he

theorem Unfinished.silent (h : ∀ e ∈ es, e.record = none) : Unfinished es := by
  intro e he dto hdto
  rw [h e he] at hdto
  cases hdto

theorem Unfinished.respond (h : Unfinished es) (cmd : TransferCmd) (ret : Except MeowError Unit) :
    Unfinished (es ++ [.respond cmd ret]) :=
  h.append (.silent fun e he => by rw [List.mem_singleton.1 he]; rfl)

theorem Unfinished.notify {callbacks : TaskCallbacks} {dto : FileTransferRecord} (h : dto.status ≠ .complete) :
    Unfinished (invokeProgressCb callbacks dto ++ emitGlobalProgress s dto) := by
  intro e he dto' hdto
  rw [mem_notify he] at hdto
  cases hdto
  exact h

theorem Unfinished.groupStatus {key : UniqueId} {status : TransferStatus} {transferred : Nat}
    {total : GroupState → Nat} (h : status ≠ .complete) :
    Unfinished (groupStatus s key status transferred total) := by
  intro e he dto hdto
  obtain ⟨group, -, hrecord⟩ := mem_groupStatus he
  rw [hrecord] at hdto
  cases hdto
  exact h

theorem Unfinished.cancelActive {key : UniqueId} : Unfinished (cancelActive s key) := by
  refine .silent fun e he => ?_
  obtain ⟨_, _, rfl⟩ := mem_cancelActive he
  rfl

theorem Unfinished.thenStart {x : SchedulerState × List Effect} (h : Unfinished x.2) :
    Unfinished (thenStart x).2 := by
  refine h.append fun e he dto hdto => ?_
  rw [tryStartNext_records he hdto]
  exact fun hc => nomatch hc

/-- A command completes nothing. -/
theorem handleCmd_unfinished (s : SchedulerState) (cmd : TransferCmd) : Unfinished (handleCmd s cmd).2 := by
  have hunknown (cmd : TransferCmd) (ret : Except MeowError Unit) :
      Unfinished (thenStart (s, [.respond cmd ret])).2 :=
    Unfinished.thenStart (.silent fun e he => by rw [List.mem_singleton.1 he]; rfl)
  cases cmd with
  | enqueue inner callbacks =>
    simp only [handleCmd]
    split
    · exact .notify (by simp [duplicateRecord, toRecordInner])
    · refine Unfinished.thenStart (Unfinished.append (.notify (by simp [toRecordInner])) ?_)
      split
      · exact .notify (by simp [toRecordInner])
      · exact .silent fun e he => absurd he List.not_mem_nil
  | pause taskId =>
    simp only [handleCmd]
    split
    · exact Unfinished.thenStart ((Unfinished.cancelActive.append (.groupStatus (by simp))).respond _ _)
    · exact hunknown _ _
  | resume taskId =>
    simp only [handleCmd]
    split
    · refine Unfinished.thenStart (Unfinished.respond ?_ _ _)
      unfold resumeGroup
      split
      · exact .silent fun e he => absurd he List.not_mem_nil
      split
      · exact .silent fun e he => absurd he List.not_mem_nil
      split
      · exact .silent fun e he => absurd he List.not_mem_nil
      exact .groupStatus (by simp)
    · exact hunknown _ _
  | cancel taskId =>
    simp only [handleCmd]
    split
    · exact Unfinished.thenStart ((Unfinished.cancelActive.append (.groupStatus (by simp))).respond _ _)
    · exact hunknown _ _
  | snapshot => exact .silent fun e he => by rw [List.mem_singleton.1 he]; rfl
  | close activeOrder groupOrder =>
    refine Unfinished.respond ?_ _ _
    intro e he
    rcases mem_closeAll he with ⟨key, he⟩ | ⟨key, he⟩
    · exact Unfinished.cancelActive e he
    · exact Unfinished.groupStatus (by simp) e he

/-- **A `Complete` record** is that of the group whose worker has reported `Completed`. -/
theorem react_complete {input : LoopInput} {e : Effect} (he : e ∈ (react s input).2) {dto : FileTransferRecord}
    (hdto : e.record = some dto) (hcomplete : dto.status = .complete) :
    ∃ key total group, input = .event (.completed key total) ∧ s.groups.lookup key = some group ∧
      dto = toRecordInner group.entry.inner .complete total total := by
  cases input with
  | cmd cmd => exact absurd hcomplete (handleCmd_unfinished s cmd e he dto hdto)
  | listen op => cases he
  | event event =>
    rcases List.mem_append.1 he with he | he
    · cases event with
      | completed key total =>
        obtain ⟨group, hg, hrecord⟩ := mem_groupStatus he
        rw [hrecord] at hdto
        cases hdto
        exact ⟨key, total, group, rfl, hg, rfl⟩
      | progress | failed =>
        obtain ⟨group, -, hrecord⟩ := mem_groupStatus he
        rw [hrecord] at hdto
        cases hdto
        cases hcomplete
      | canceled key =>
        simp only at he
        split at he
        · cases he
        · obtain ⟨group, -, hrecord⟩ := mem_groupStatus he
          rw [hrecord] at hdto
          cases hdto
          cases hcomplete
    · rw [tryStartNext_records he hdto] at hcomplete
      cases hcomplete

end

end SpottedCat
