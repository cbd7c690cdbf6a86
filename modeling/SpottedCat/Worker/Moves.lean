import SpottedCat.Worker.Retry

/-!
# The steps of a driven worker, one by one (`exec.rs:143-264`, `retry.rs:44-140`)

`Moves` lists what a step of `run_group` with its executor can be, and `step_moves` says that there is no
other: what holds after every run is proved one move at a time. `upto_run` is such an argument: what the calls of
a task keep, even if one that fails for good does not, holds where a run has completed.

| move | there |
| --- | --- |
| `prepared`, `called`           | `prepare` (exec.rs:159) or `transfer_chunk` (retry.rs:72) returns |
| `entered`, `halted`            | the token, at the top of the loop (exec.rs:184) |
| `attempted`, `quit`            | the token, before an attempt (retry.rs:60) |
| `slept`, `interrupted`         | the backoff is over, or cut short (retry.rs:122) |
| `reported`, `concluded`        | the channel takes a `Progress` (exec.rs:238), or the last event |
| `joined`                       | the wrapper has the `JoinError` of a panic (exec.rs:98) |
-/

namespace SpottedCat

variable {L A B : Type}

namespace Drive

/-- What a step makes of `r`. -/
inductive Moves (ex : TransferTrait L A B) (r : Drive L) : DriveAct A B → Drive L → Prop where
  | prepared {a : A} {ret : Ret PrepareOutcome} {loc : L} (hpc : r.pc = .preparing)
      (hcall : ex.prepare r.inner r.startOffset a r.loc = (ret, loc)) :
      Moves ex r (.prepare a) { r with pc := afterPrepare r.inner.dedupeKey r.inner ret, loc := loc }
  | entered {offset knownTotal : Nat} (hpc : r.pc = .loopHead offset knownTotal) :
      Moves ex r (.worker (.token false)) { r with pc := .retry offset knownTotal (.head 0) }
  | halted {offset knownTotal : Nat} (hpc : r.pc = .loopHead offset knownTotal) :
      Moves ex r (.worker (.token true)) { r with pc := .finish (.canceled r.inner.dedupeKey) }
  | attempted {offset knownTotal attempt : Nat} (hpc : r.pc = .retry offset knownTotal (.head attempt)) :
      Moves ex r (.worker (.attempt (.token false))) { r with pc := .retry offset knownTotal (.calling attempt) }
  | quit {offset knownTotal attempt : Nat} (hpc : r.pc = .retry offset knownTotal (.head attempt)) :
      Moves ex r (.worker (.attempt (.token true))) { r with pc := .finish (.canceled r.inner.dedupeKey) }
  | called {offset knownTotal attempt : Nat} {b : B} {ret : Ret ChunkOutcome} {loc : L}
      (hpc : r.pc = .retry offset knownTotal (.calling attempt))
      (hcall : ex.transferChunk r.inner offset r.inner.chunkSize knownTotal b r.loc = (ret, loc)) :
      Moves ex r (.chunk b) { r with
        pc := afterRetry r.inner.dedupeKey offset knownTotal (Retry.afterCall r.inner.maxChunkRetries attempt ret)
        loc := loc
        last := offsetAfter r.last ret }
  | slept {offset knownTotal attempt : Nat} (hpc : r.pc = .retry offset knownTotal (.waiting attempt)) :
      Moves ex r (.worker (.attempt (.woken false))) { r with pc := .retry offset knownTotal (.head (attempt + 1)) }
  | interrupted {offset knownTotal attempt : Nat} (hpc : r.pc = .retry offset knownTotal (.waiting attempt)) :
      Moves ex r (.worker (.attempt (.woken true))) { r with pc := .finish (.canceled r.inner.dedupeKey) }
  | reported {offset knownTotal : Nat} {done : Bool} (hpc : r.pc = .report offset knownTotal done) :
      Moves ex r (.worker .sent) { r with
        pc := if done then .finish (.completed r.inner.dedupeKey knownTotal) else .loopHead offset knownTotal
        sent := r.sent ++ [.progress r.inner.dedupeKey offset knownTotal] }
  | joined {joinErr : String} (hpc : r.pc = .joining) :
      Moves ex r (.worker (.joined joinErr)) { r with
        pc := .finish (.failed r.inner.dedupeKey (runGroupPanicked joinErr)) }
  | concluded {event : WorkerEvent} (hpc : r.pc = .finish event) :
      Moves ex r (.worker .sent) { r with pc := .ended, sent := r.sent ++ [event] }

variable {ex : TransferTrait L A B} {r r' : Drive L}

/-- **What a step is.** -/
theorem step_moves {a : DriveAct A B} (h : r.step ex a = some r') : r.Moves ex a r' := by
  obtain ⟨inner, startOffset, pc, loc, last, sent⟩ := r
  have hquiet : sent ++ (none : Option WorkerEvent).toList = sent := List.append_nil sent
  cases a with
  | prepare a =>
    obtain ⟨ret, loc', pc', out, hcall, hstep, rfl⟩ := step_prepare_eq h
    obtain ⟨hpc, rfl, rfl⟩ := runStep_prepared hstep
    obtain rfl : pc = .preparing := hpc
    rw [hquiet]
    exact .prepared rfl hcall
  | chunk b =>
    obtain ⟨offset, knownTotal, attempt, hpc⟩ := step_chunk_pc h
    obtain rfl : pc = _ := hpc
    rcases hcall : ex.transferChunk inner offset inner.chunkSize knownTotal b loc with ⟨ret, loc'⟩
    rw [step_call rfl hcall] at h
    cases h
    exact .called rfl hcall
  | worker input =>
    obtain ⟨hcall, pc', out, hstep, rfl⟩ := step_worker_eq h
    cases pc with
    | preparing =>
      cases input <;> cases hstep
      cases hcall
    | loopHead offset knownTotal =>
      cases input with
      | token cancelled =>
        cases cancelled <;> cases hstep
        · rw [hquiet]
          exact .entered rfl
        · rw [hquiet]
          exact .halted rfl
      | prepared | attempt | joined | sent => cases hstep
    | retry offset knownTotal rpc =>
      cases input with
      | attempt input =>
        cases rpc with
        | head attempt =>
          cases input with
          | token cancelled =>
            cases cancelled <;> cases hstep
            · rw [hquiet]
              exact .attempted rfl
            · rw [hquiet]
              exact .quit rfl
          | chunk | woken => cases hstep
        | calling attempt =>
          cases input with
          | chunk => cases hcall
          | token | woken => cases hstep
        | waiting attempt =>
          cases input with
          | woken cancelled =>
            cases cancelled <;> cases hstep
            · rw [hquiet]
              exact .slept rfl
            · rw [hquiet]
              exact .interrupted rfl
          | token | chunk => cases hstep
      | prepared | token | joined | sent => cases hstep
    | report offset knownTotal done =>
      cases input with
      | sent =>
        cases hstep
        exact .reported rfl
      | prepared | attempt | token | joined => cases hstep
    | joining =>
      cases input with
      | joined joinErr =>
        cases hstep
        rw [hquiet]
        exact .joined rfl
      | prepared | attempt | token | sent => cases hstep
    | finish event =>
      cases input with
      | sent =>
        cases hstep
        exact .concluded rfl
      | prepared | attempt | token | joined => cases hstep
    | ended => cases input <;> cases hstep

/-- The task stays the same. -/
theorem step_task {a : DriveAct A B} (h : r.step ex a = some r') :
    r'.inner = r.inner ∧ r'.startOffset = r.startOffset := by
  cases step_moves h <;> exact ⟨rfl, rfl⟩

theorem step_worker (input : RunIn) {pc : RunPc} {out : Option WorkerEvent} (hcall : input.ofCall = false)
    (h : runStep r.inner.dedupeKey r.inner r.pc input = some (pc, out)) :
    r.step ex (.worker input) = some { r with pc := pc, sent := r.sent ++ out.toList } := by
  simp [Drive.step, advance, hcall, h]

/-- **A worker that has not ended can go on**: in a call with whatever happens there, and elsewhere with an
open token. -/
theorem exists_step (ex : TransferTrait L A B) (hpc : r.pc ≠ .ended) (a : A) (b : B) :
    ∃ act r', r.step ex act = some r' ∧
      (act = .prepare a ∧ r.pc = .preparing ∨ act = .chunk b ∨
        ∃ input, act = .worker input ∧ input.Sees false) := by
  cases hp : r.pc with
  | preparing => exact ⟨_, _, step_prepared hp rfl, .inl ⟨rfl, rfl⟩⟩
  | loopHead offset knownTotal =>
    exact ⟨_, _, step_worker (.token false) rfl (by rw [hp]; rfl), .inr (.inr ⟨_, rfl, rfl⟩)⟩
  | retry offset knownTotal rpc =>
    cases rpc with
    | head attempt => exact ⟨_, _, step_attempt (.token false) hp rfl rfl, .inr (.inr ⟨_, rfl, rfl⟩)⟩
    | calling attempt => exact ⟨_, _, step_call hp rfl, .inr (.inl rfl)⟩
    | waiting attempt => exact ⟨_, _, step_attempt (.woken false) hp rfl rfl, .inr (.inr ⟨_, rfl, by decide⟩)⟩
  | report offset knownTotal done =>
    exact ⟨_, _, step_worker .sent rfl (by rw [hp]; rfl), .inr (.inr ⟨_, rfl, trivial⟩)⟩
  | joining =>
    exact ⟨_, _, step_worker (.joined "") rfl (by rw [hp]; rfl), .inr (.inr ⟨_, rfl, trivial⟩)⟩
  | finish event =>
    exact ⟨_, _, step_worker .sent rfl (by rw [hp]; rfl), .inr (.inr ⟨_, rfl, trivial⟩)⟩
  | ended => exact absurd hp hpc

end Drive

/-! ## What holds when a worker has completed -/

def CompletedIn (sent : List WorkerEvent) : Prop := ∃ key total, WorkerEvent.completed key total ∈ sent

/-- The calls of a task keep `K` at the next offset. One that fails may break it, if it is not tried again. -/
structure Retains (ex : TransferTrait L A B) (fair : DriveAct A B → Prop) (ready : L → Prop) (K : Nat → L → Prop)
    (inner : InnerTask) (startOffset : Nat) : Prop where
  prepare : ∀ a, fair (.prepare a) →
    Triple ready (ex.prepare inner startOffset a) (fun outcome => K outcome.nextOffset) (fun _ _ => True)
  chunk : ∀ b offset knownTotal, fair (.chunk b) →
    Triple (K offset) (ex.transferChunk inner offset inner.chunkSize knownTotal b)
      (fun outcome => K outcome.nextOffset) (fun e l => ¬ e.Final → K offset l)

/-- `K` up to the end of a run that completes. -/
def RunPc.Upto (ready : L → Prop) (K : Nat → L → Prop) (loc : L) (sent : List WorkerEvent) : RunPc → Prop
  | .preparing => ¬ CompletedIn sent ∧ ready loc
  | .joining => ¬ CompletedIn sent
  | .loopHead offset _ | .retry offset _ _ | .report offset _ _ => ¬ CompletedIn sent ∧ K offset loc
  | .finish event => ¬ CompletedIn sent ∧ (CompletedIn [event] → ∃ offset, K offset loc)
  | .ended => CompletedIn sent → ∃ offset, K offset loc

section
variable {ready : L → Prop} {K : Nat → L → Prop} {loc : L} {sent : List WorkerEvent}

theorem completedIn_append {event : WorkerEvent} :
    CompletedIn (sent ++ [event]) ↔ CompletedIn sent ∨ CompletedIn [event] := by
  simp only [CompletedIn, List.mem_append, exists_or]

theorem not_completed {event : WorkerEvent} (h : ∀ key total, event ≠ .completed key total) :
    ¬ CompletedIn [event] := by
  rintro ⟨key, total, hmem⟩
  exact h key total (List.mem_singleton.1 hmem).symm

/-- A worker that ends with another event. -/
theorem RunPc.upto_finish {event : WorkerEvent} (hsent : ¬ CompletedIn sent)
    (h : ∀ key total, event ≠ .completed key total) : (RunPc.finish event).Upto ready K loc sent :=
  ⟨hsent, fun hcompleted => absurd hcompleted (not_completed h)⟩

/-- A call that has returned. -/
theorem upto_afterCall {key : UniqueId} {offset knownTotal maxChunkRetries attempt : Nat} {ret : Ret ChunkOutcome}
    (hsent : ¬ CompletedIn sent)
    (hret : match ret with
      | .ok outcome => K outcome.nextOffset loc
      | .error e => ¬ e.Final → K offset loc) :
    (afterRetry key offset knownTotal (Retry.afterCall maxChunkRetries attempt ret)).Upto ready K loc sent := by
  rcases ret with (err | msg) | outcome
  · cases hretry : isChunkRetryable err with
    | false =>
      rw [Retry.afterCall_final hretry]
      exact RunPc.upto_finish hsent nofun
    | true =>
      have hkept : K offset loc := hret fun hfinal => Bool.false_ne_true (hfinal.symm.trans hretry)
      unfold Retry.afterCall
      simp only
      split
      · exact RunPc.upto_finish hsent nofun
      · exact ⟨hsent, hkept⟩
  · exact hsent
  · exact ⟨hsent, hret⟩

namespace Drive

variable {ex : TransferTrait L A B} {fair : DriveAct A B → Prop} {r r' : Drive L}

/-- **One step.** -/
theorem upto_step (hk : Retains ex fair ready K r.inner r.startOffset) {a : DriveAct A B} (ha : fair a)
    (hr : r.pc.Upto ready K r.loc r.sent) (h : r.step ex a = some r') : r'.pc.Upto ready K r'.loc r'.sent := by
  cases step_moves h with
  | @prepared a ret loc hpc hcall =>
    rw [hpc] at hr
    have hspec := hk.prepare a ha r.loc hr.2
    rw [hcall] at hspec
    rcases ret with (err | msg) | outcome
    · exact RunPc.upto_finish hr.1 nofun
    · exact hr.1
    · exact ⟨hr.1, hspec⟩
  | entered hpc | attempted hpc | slept hpc =>
    rw [hpc] at hr
    exact hr
  | halted hpc | quit hpc | interrupted hpc =>
    rw [hpc] at hr
    exact RunPc.upto_finish hr.1 nofun
  | @called offset knownTotal attempt b ret loc hpc hcall =>
    rw [hpc] at hr
    have hspec := hk.chunk b offset knownTotal ha r.loc hr.2
    rw [hcall] at hspec
    apply upto_afterCall hr.1
    cases ret <;> exact hspec
  | @reported offset knownTotal done hpc =>
    rw [hpc] at hr
    have hsent : ¬ CompletedIn (r.sent ++ [.progress r.inner.dedupeKey offset knownTotal]) := by
      rw [completedIn_append, not_or]
      exact ⟨hr.1, not_completed nofun⟩
    cases done with
    | false => exact ⟨hsent, hr.2⟩
    | true => exact ⟨hsent, fun _ => ⟨offset, hr.2⟩⟩
  | joined hpc =>
    rw [hpc] at hr
    exact RunPc.upto_finish hr nofun
  | @concluded event hpc =>
    rw [hpc] at hr
    intro hcompleted
    exact hr.2 ((completedIn_append.1 hcompleted).resolve_left hr.1)

/-- **A run that completes** ends where `K` holds. -/
theorem upto_run (hk : Retains ex fair ready K r.inner r.startOffset) (hpc : r.pc = .preparing)
    (hsent : r.sent = []) (hready : ready r.loc) {acts : List (DriveAct A B)} (hacts : ∀ a ∈ acts, fair a)
    (h : Lts.run (Drive.step ex) r acts = some r') (hcompleted : CompletedIn r'.sent) :
    ∃ offset, K offset r'.loc := by
  have hstart : r.pc.Upto ready K r.loc r.sent := by
    rw [hpc, hsent]
    exact ⟨fun ⟨_, _, hmem⟩ => (nomatch hmem), hready⟩
  have hinv := Lts.run_invariant_of_meets (C := fun _ a => fair a)
    (I := fun s : Drive L => s.pc.Upto ready K s.loc s.sent ∧ s.inner = r.inner ∧ s.startOffset = r.startOffset)
    (fun s a s' hs ha hstep => by
      obtain ⟨hupto, hinner, hoffset⟩ := hs
      have hk' : Retains ex fair ready K s.inner s.startOffset := by rwa [hinner, hoffset]
      obtain ⟨hinner', hoffset'⟩ := step_task hstep
      exact ⟨upto_step hk' ha hupto hstep, hinner'.trans hinner, hoffset'.trans hoffset⟩)
    ⟨hstart, rfl, rfl⟩ (Lts.Meets.of_forall fun a ha _ => hacts a ha) h
  have hend := hinv.1
  cases hp : r'.pc with
  | preparing | loopHead | retry | report | finish =>
    rw [hp] at hend
    exact absurd hcompleted hend.1
  | joining =>
    rw [hp] at hend
    exact absurd hcompleted hend
  | ended =>
    rw [hp] at hend
    exact hend hcompleted

end Drive

end

end SpottedCat
