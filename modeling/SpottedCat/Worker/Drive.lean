import SpottedCat.Lib.Run
import SpottedCat.Lib.Triple
import SpottedCat.Worker.RunGroup

/-!
# A worker with its executor

The machine of `RunGroup` takes what its executor returns as an input. Here the executor is there: a
`TransferTrait` (transfer_executor_trait.rs:9) on a state `L` of its own, where `A` and `B` are what the
world decides during one call of `prepare` and of `transfer_chunk`.

A `CallInv` says what an executor keeps from call to call, and `Keeps` that it does; then the loop with
its retries keeps it in every run (`Drive.Good.run`), and reports `Completed` only when the executor has
said of a chunk that it is the last.
-/

namespace SpottedCat

structure TransferTrait (L A B : Type) where
  prepare : InnerTask → (localOffset : Nat) → A → Comp L Failure PrepareOutcome
  transferChunk : InnerTask → (offset chunkSize remoteTotalSize : Nat) → B → Comp L Failure ChunkOutcome

structure Drive (L : Type) where
  inner : InnerTask
  /-- `start_offset` of `run_group`. -/
  startOffset : Nat
  pc : RunPc
  /-- State of the executor. -/
  loc : L
  /-- The `next_offset` of the last chunk that succeeded. -/
  last : Nat
  /-- Every event sent so far. -/
  sent : List WorkerEvent

inductive DriveAct (A B : Type) where
  /-- `prepare` runs. -/
  | prepare (a : A)
  /-- `transfer_chunk` runs. -/
  | chunk (b : B)
  /-- Any other step of the worker. -/
  | worker (input : RunIn)

/-- The inputs that a call of the executor returns. -/
def RunIn.ofCall : RunIn → Bool
  | .prepared _ | .attempt (.chunk _) => true
  | _ => false

/-- An error after which the retry loop gives up. -/
def Failure.Final : Failure → Prop
  | .err e => isChunkRetryable e = false
  | .panic _ => True

theorem final_fromCode {code : InnerErrorCode} {msg : String} (h1 : code ≠ .httpError)
    (h2 : code ≠ .responseStatusError) : Failure.Final (.err (.fromCode code msg)) := by
  have h := isChunkRetryable_fromCode code msg
  simp only [h1, h2, or_self, iff_false, Bool.not_eq_true] at h
  exact h

/-- `next_offset` of a chunk that succeeded, and `last` if it did not. -/
def offsetAfter (last : Nat) : Ret ChunkOutcome → Nat
  | .ok outcome => outcome.nextOffset
  | .error _ => last

variable {L A B : Type}

namespace Drive

def advance (r : Drive L) (input : RunIn) : Option (Drive L) :=
  (runStep r.inner.dedupeKey r.inner r.pc input).map fun (pc, out) =>
    { r with pc := pc, sent := r.sent ++ out.toList }

def step (ex : TransferTrait L A B) (r : Drive L) : DriveAct A B → Option (Drive L)
  | .prepare a =>
    let (ret, loc) := ex.prepare r.inner r.startOffset a r.loc
    { r with loc := loc }.advance (.prepared ret)
  | .chunk b =>
    match r.pc with
    | .retry offset knownTotal (.calling _) =>
      let (ret, loc) := ex.transferChunk r.inner offset r.inner.chunkSize knownTotal b r.loc
      { r with loc := loc, last := offsetAfter r.last ret }.advance (.attempt (.chunk ret))
    | _ => none
  | .worker input => if input.ofCall then none else r.advance input

end Drive

/-! ## What an executor keeps -/

structure CallInv (L : Type) where
  /-- Always; the number is `Drive.last`. -/
  always : L → Nat → Prop
  /-- Before `prepare`. -/
  ready : L → Prop
  /-- Between two chunks, at an offset and with a known total. -/
  between : Nat → Nat → L → Prop
  /-- After the last chunk. -/
  whole : L → Prop

/-- A task's calls of the executor keep the invariant, as long as the world is `fair`. A call that fails
may leave the loop's offset behind only if it is not tried again. -/
structure Keeps (ex : TransferTrait L A B) (I : CallInv L) (fair : DriveAct A B → Prop)
    (inner : InnerTask) (startOffset : Nat) : Prop where
  prepare : ∀ a l last, fair (.prepare a) → I.always l last → I.ready l →
    Triple (· = l) (ex.prepare inner startOffset a)
      (fun outcome l' => I.always l' last ∧ (I.whole l → I.whole l') ∧
        I.between outcome.nextOffset
          (if outcome.totalSize > 0 then outcome.totalSize else inner.totalSize) l')
      (fun _ l' => I.always l' last ∧ (I.whole l → I.whole l'))
  chunk : ∀ b l last offset knownTotal, fair (.chunk b) → I.always l last → I.between offset knownTotal l →
    Triple (· = l) (ex.transferChunk inner offset inner.chunkSize knownTotal b)
      (fun outcome l' => I.always l' outcome.nextOffset ∧ (I.whole l → I.whole l') ∧
        I.between outcome.nextOffset
          (if outcome.totalSize > 0 then outcome.totalSize else knownTotal) l' ∧
        (outcome.done = true → I.whole l'))
      (fun e l' => I.always l' last ∧ (I.whole l → I.whole l') ∧
        (¬ e.Final → I.between offset knownTotal l'))

/-- What holds of the executor's state where the worker stands. -/
def RunPc.Stands (I : CallInv L) (l : L) : RunPc → Prop
  | .preparing => I.ready l
  | .loopHead offset knownTotal | .retry offset knownTotal _ => I.between offset knownTotal l
  | .report offset knownTotal done => I.between offset knownTotal l ∧ (done = true → I.whole l)
  | .finish (.completed _ _) => I.whole l
  | _ => True

structure Drive.Good (I : CallInv L) (r : Drive L) : Prop where
  always : I.always r.loc r.last
  stands : r.pc.Stands I r.loc
  completed : ∀ key total, WorkerEvent.completed key total ∈ r.sent → I.whole r.loc

/-! ## One step -/

section
variable {I : CallInv L} {key : UniqueId} {inner : InnerTask} {l : L} {pc pc' : RunPc}
  {out : Option WorkerEvent}

theorem runStep_prepared {ret : Ret PrepareOutcome}
    (h : runStep key inner pc (.prepared ret) = some (pc', out)) :
    pc = .preparing ∧ pc' = afterPrepare key inner ret ∧ out = none := by
  cases pc <;> cases h
  exact ⟨rfl, rfl, rfl⟩

theorem afterPrepare_error_stands {e : Failure} : (afterPrepare key inner (.error e)).Stands I l := by
  cases e <;> exact trivial

/-- A chunk that fails ends the run, or is tried again. -/
theorem runStep_chunk_error {offset knownTotal attempt : Nat} {e : Failure}
    (hretry : ¬ e.Final → I.between offset knownTotal l)
    (h : runStep key inner (.retry offset knownTotal (.calling attempt)) (.attempt (.chunk (.error e))) =
      some (pc', out)) :
    pc'.Stands I l ∧ out = none := by
  obtain ⟨o, ho, hpc⟩ := Option.map_eq_some_iff.1 h
  cases hpc
  refine ⟨?_, rfl⟩
  cases e with
  | panic msg =>
    cases ho
    exact trivial
  | err err =>
    change (if _ then _ else _) = some o at ho
    split at ho
    · cases ho
      exact trivial
    · rename_i hnot
      cases ho
      refine hretry fun hfinal => hnot (.inl ?_)
      rw [show isChunkRetryable err = false from hfinal]
      exact Bool.false_ne_true

/-- The steps between the calls do not touch the executor. -/
theorem runStep_between {input : RunIn} (hcall : input.ofCall = false) (hs : pc.Stands I l)
    (h : runStep key inner pc input = some (pc', out)) :
    pc'.Stands I l ∧ ∀ key' total, out = some (.completed key' total) → I.whole l := by
  unfold runStep at h
  split at h
  · cases hcall
  · cases h
    exact ⟨trivial, fun _ _ ho => nomatch ho⟩
  · cases h
    exact ⟨hs, fun _ _ ho => nomatch ho⟩
  · rename_i offset knownTotal rpc input
    obtain ⟨o, ho, hpc⟩ := Option.map_eq_some_iff.1 h
    cases hpc
    refine ⟨?_, fun _ _ ho => nomatch ho⟩
    unfold retryStep at ho
    split at ho
    · cases ho; exact trivial
    · cases ho; exact hs
    · cases hcall
    · cases hcall
    · cases hcall
    · cases ho; exact trivial
    · cases ho; exact hs
    · cases ho
  · rename_i offset knownTotal done
    cases h
    refine ⟨?_, fun _ _ ho => nomatch ho⟩
    cases done with
    | false => exact hs.1
    | true => exact hs.2 rfl
  · cases h
    exact ⟨trivial, fun _ _ ho => nomatch ho⟩
  · rename_i event
    cases h
    refine ⟨trivial, fun key' total ho => ?_⟩
    cases ho
    exact hs
  · cases h

end

namespace Drive

variable {ex : TransferTrait L A B} {I : CallInv L} {fair : DriveAct A B → Prop} {r r' : Drive L}

theorem advance_eq {input : RunIn} (h : r.advance input = some r') :
    ∃ pc out, runStep r.inner.dedupeKey r.inner r.pc input = some (pc, out) ∧
      r' = { r with pc := pc, sent := r.sent ++ out.toList } := by
  obtain ⟨⟨pc, out⟩, hstep, heq⟩ := Option.map_eq_some_iff.1 h
  exact ⟨pc, out, hstep, heq.symm⟩

/-! What a step is, for each kind of action. -/

theorem step_prepare_eq {a : A} (h : r.step ex (.prepare a) = some r') :
    ∃ ret loc pc out, ex.prepare r.inner r.startOffset a r.loc = (ret, loc) ∧
      runStep r.inner.dedupeKey r.inner r.pc (.prepared ret) = some (pc, out) ∧
      r' = { r with pc := pc, loc := loc, sent := r.sent ++ out.toList } := by
  rcases hcall : ex.prepare r.inner r.startOffset a r.loc with ⟨ret, loc⟩
  simp only [Drive.step, hcall] at h
  obtain ⟨pc, out, hstep, rfl⟩ := advance_eq h
  exact ⟨ret, loc, pc, out, rfl, hstep, rfl⟩

theorem step_chunk_eq {b : B} (h : r.step ex (.chunk b) = some r') :
    ∃ offset knownTotal attempt ret loc pc out, r.pc = .retry offset knownTotal (.calling attempt) ∧
      ex.transferChunk r.inner offset r.inner.chunkSize knownTotal b r.loc = (ret, loc) ∧
      runStep r.inner.dedupeKey r.inner r.pc (.attempt (.chunk ret)) = some (pc, out) ∧
      r' = { r with pc := pc, loc := loc, last := offsetAfter r.last ret, sent := r.sent ++ out.toList } := by
  unfold Drive.step at h
  simp only at h
  split at h
  · rename_i offset knownTotal attempt hpc
    rcases hcall : ex.transferChunk r.inner offset r.inner.chunkSize knownTotal b r.loc with ⟨ret, loc⟩
    simp only [hcall] at h
    obtain ⟨pc, out, hstep, rfl⟩ := advance_eq h
    exact ⟨offset, knownTotal, attempt, ret, loc, pc, out, hpc, hcall, hstep, rfl⟩
  · cases h

theorem step_worker_eq {input : RunIn} (h : r.step ex (.worker input) = some r') :
    input.ofCall = false ∧ ∃ pc out, runStep r.inner.dedupeKey r.inner r.pc input = some (pc, out) ∧
      r' = { r with pc := pc, sent := r.sent ++ out.toList } := by
  unfold Drive.step at h
  simp only at h
  split at h
  · cases h
  · rename_i hcall
    exact ⟨Bool.eq_false_iff.2 hcall, advance_eq h⟩

/-- Every step is one of the worker's machine, which takes what the executor returned as its input: a
driven worker is one of those that the scheduler's channel knows. -/
theorem step_runStep {a : DriveAct A B} (h : r.step ex a = some r') :
    ∃ input out, runStep r.inner.dedupeKey r.inner r.pc input = some (r'.pc, out) ∧
      r'.sent = r.sent ++ out.toList := by
  cases a with
  | prepare a =>
    obtain ⟨ret, loc, pc, out, -, hstep, rfl⟩ := step_prepare_eq h
    exact ⟨_, out, hstep, rfl⟩
  | chunk b =>
    obtain ⟨offset, knownTotal, attempt, ret, loc, pc, out, -, -, hstep, rfl⟩ := step_chunk_eq h
    exact ⟨_, out, hstep, rfl⟩
  | worker input =>
    obtain ⟨-, pc, out, hstep, rfl⟩ := step_worker_eq h
    exact ⟨input, out, hstep, rfl⟩

theorem step_prepared {a : A} {ret : Ret PrepareOutcome} {loc : L} (hpc : r.pc = .preparing)
    (hcall : ex.prepare r.inner r.startOffset a r.loc = (ret, loc)) :
    r.step ex (.prepare a) = some { r with pc := afterPrepare r.inner.dedupeKey r.inner ret, loc := loc } := by
  obtain ⟨inner, startOffset, pc, loc0, last, sent⟩ := r
  obtain rfl : pc = _ := hpc
  simp [Drive.step, advance, runStep, hcall]

theorem step_prepare {a : A} {outcome : PrepareOutcome} {loc : L} (hpc : r.pc = .preparing)
    (hcall : ex.prepare r.inner r.startOffset a r.loc = (.ok outcome, loc)) :
    r.step ex (.prepare a) =
      some { r with
        pc := .loopHead outcome.nextOffset
          (if outcome.totalSize > 0 then outcome.totalSize else r.inner.totalSize)
        loc := loc } :=
  step_prepared hpc hcall

theorem step_inner {a : DriveAct A B} (h : r.step ex a = some r') : r'.inner = r.inner := by
  cases a with
  | prepare a =>
    obtain ⟨ret, loc, pc, out, -, -, rfl⟩ := step_prepare_eq h
    rfl
  | chunk b =>
    obtain ⟨offset, knownTotal, attempt, ret, loc, pc, out, -, -, -, rfl⟩ := step_chunk_eq h
    rfl
  | worker input =>
    obtain ⟨-, pc, out, -, rfl⟩ := step_worker_eq h
    rfl

theorem step_chunk_pc {b : B} (h : r.step ex (.chunk b) = some r') :
    ∃ offset knownTotal attempt, r.pc = .retry offset knownTotal (.calling attempt) := by
  obtain ⟨offset, knownTotal, attempt, ret, loc, pc, out, hpc, -⟩ := step_chunk_eq h
  exact ⟨offset, knownTotal, attempt, hpc⟩

theorem step_chunk {offset knownTotal attempt : Nat} {b : B} {outcome : ChunkOutcome} {loc : L}
    (hpc : r.pc = .retry offset knownTotal (.calling attempt))
    (hcall : ex.transferChunk r.inner offset r.inner.chunkSize knownTotal b r.loc = (.ok outcome, loc)) :
    r.step ex (.chunk b) =
      some { r with
        pc := .report outcome.nextOffset
          (if outcome.totalSize > 0 then outcome.totalSize else knownTotal) outcome.done
        loc := loc
        last := outcome.nextOffset } := by
  obtain ⟨inner, startOffset, pc, loc0, last, sent⟩ := r
  obtain rfl : pc = _ := hpc
  simp [Drive.step, advance, runStep, retryStep, afterRetry, offsetAfter, hcall]

/-- A turn of the loop up to its report, when nobody cancels and the chunk succeeds. -/
theorem run_chunk {offset knownTotal : Nat} {b : B} {outcome : ChunkOutcome} {loc : L}
    (hpc : r.pc = .loopHead offset knownTotal)
    (hcall : ex.transferChunk r.inner offset r.inner.chunkSize knownTotal b r.loc = (.ok outcome, loc)) :
    Lts.run (Drive.step ex) r
        [.worker (.token false), .worker (.attempt (.token false)), .chunk b] =
      some { r with
        pc := .report outcome.nextOffset
          (if outcome.totalSize > 0 then outcome.totalSize else knownTotal) outcome.done
        loc := loc
        last := outcome.nextOffset } := by
  obtain ⟨inner, startOffset, pc, loc0, last, sent⟩ := r
  obtain rfl : pc = _ := hpc
  simp [Lts.run, Drive.step, advance, RunIn.ofCall, runStep, retryStep, afterRetry, offsetAfter, hcall]

/-- The rest of the turn, if there is more to transfer. -/
theorem step_report {offset knownTotal : Nat} (hpc : r.pc = .report offset knownTotal false) :
    r.step ex (.worker .sent) =
      some { r with
        pc := .loopHead offset knownTotal
        sent := r.sent ++ [.progress r.inner.dedupeKey offset knownTotal] } := by
  obtain ⟨inner, startOffset, pc, loc0, last, sent⟩ := r
  obtain rfl : pc = _ := hpc
  rfl

/-- **One step of the loop.** -/
theorem Good.step (hg : r.Good I) (hk : Keeps ex I fair r.inner r.startOffset) {a : DriveAct A B}
    (ha : fair a) (h : r.step ex a = some r') :
    r'.Good I ∧ r'.inner = r.inner ∧ r'.startOffset = r.startOffset := by
  cases a with
  | prepare a =>
    obtain ⟨ret, loc, pc, out, hcall, hstep, rfl⟩ := step_prepare_eq h
    obtain ⟨hpc, rfl, rfl⟩ := runStep_prepared hstep
    have hready := hg.stands
    rw [hpc] at hready
    have hspec := hk.prepare a r.loc r.last ha hg.always hready r.loc rfl
    rw [hcall] at hspec
    cases ret with
    | ok outcome =>
      obtain ⟨halways, hwhole, hbetween⟩ := hspec
      exact ⟨⟨halways, hbetween, fun key total hmem =>
        hwhole (hg.completed key total (by simpa using hmem))⟩, rfl, rfl⟩
    | error e =>
      obtain ⟨halways, hwhole⟩ := hspec
      exact ⟨⟨halways, afterPrepare_error_stands, fun key total hmem =>
        hwhole (hg.completed key total (by simpa using hmem))⟩, rfl, rfl⟩
  | chunk b =>
    obtain ⟨offset, knownTotal, attempt, ret, loc, pc, out, hpc, hcall, hstep, rfl⟩ := step_chunk_eq h
    have hbetween := hg.stands
    rw [hpc] at hbetween hstep
    have hspec := hk.chunk b r.loc r.last offset knownTotal ha hg.always hbetween r.loc rfl
    rw [hcall] at hspec
    cases ret with
    | ok outcome =>
      obtain ⟨halways, hwhole, hnext, hdone⟩ := hspec
      cases hstep
      exact ⟨⟨halways, ⟨hnext, hdone⟩, fun key total hmem =>
        hwhole (hg.completed key total (by simpa using hmem))⟩, rfl, rfl⟩
    | error e =>
      obtain ⟨halways, hwhole, hretry⟩ := hspec
      obtain ⟨hstands, rfl⟩ := runStep_chunk_error hretry hstep
      exact ⟨⟨halways, hstands, fun key total hmem =>
        hwhole (hg.completed key total (by simpa using hmem))⟩, rfl, rfl⟩
  | worker input =>
    obtain ⟨hcall, pc, out, hstep, rfl⟩ := step_worker_eq h
    obtain ⟨hstands, hout⟩ := runStep_between hcall hg.stands hstep
    refine ⟨⟨hg.always, hstands, fun key total hmem => ?_⟩, rfl, rfl⟩
    rcases List.mem_append.1 hmem with hold | hnew
    · exact hg.completed key total hold
    · exact hout key total (Option.mem_toList.1 hnew)

/-- **A run of the loop.** -/
theorem Good.run (hg : r.Good I) (hk : Keeps ex I fair r.inner r.startOffset) {acts : List (DriveAct A B)}
    (hfair : ∀ a ∈ acts, fair a) (h : Lts.run (Drive.step ex) r acts = some r') : r'.Good I := by
  have hinv := Lts.run_invariant_of_meets (C := fun _ a => fair a)
    (I := fun s => s.Good I ∧ s.inner = r.inner ∧ s.startOffset = r.startOffset)
    (fun s a s' hi ha hs => by
      obtain ⟨hs1, hinner, hoffset⟩ := hi
      have hk' : Keeps ex I fair s.inner s.startOffset := by rwa [hinner, hoffset]
      obtain ⟨hs2, hinner', hoffset'⟩ := hs1.step hk' ha hs
      exact ⟨hs2, hinner'.trans hinner, hoffset'.trans hoffset⟩)
    ⟨hg, rfl, rfl⟩ (Lts.Meets.of_forall fun a ha _ => hfair a ha) h
  exact hinv.1

end Drive

end SpottedCat
