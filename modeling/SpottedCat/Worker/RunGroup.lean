import SpottedCat.Data.Task

/-!
# The worker (`exec_impl/exec.rs:143-264`, `exec_impl/retry.rs`)

One `run_group` task with its panic wrapper (exec.rs:93-111) as a machine that stops at every `.await`
and at every look at its cancellation token.

| here | there |
| --- | --- |
| `RetryPc`, `retryStep` | `transfer_chunk_with_retry` (retry.rs:44); for the length of the backoff sleep see `Worker/Backoff.lean` |
| `RunPc`, `runStep`     | `run_group` (exec.rs:143) |
| `RunIn`                | what the worker gets back: from `prepare`, from `transfer_chunk`, from its token, from the channel |
| `Failure.panic`        | the executor panics: the wrapper reports it, with whatever text the `JoinError` has (`RunIn.joined`) |

`runStep` also returns the event that the channel accepts in that step.
-/

namespace SpottedCat

/-- prepare_outcome.rs -/
structure PrepareOutcome where
  nextOffset : Nat
  totalSize : Nat
deriving DecidableEq, Repr

/-- chunk_outcome.rs -/
structure ChunkOutcome where
  nextOffset : Nat
  totalSize : Nat
  done : Bool
deriving DecidableEq, Repr

/-- retry.rs:23 -/
def retryableChunkErrorCodes : List ℤ :=
  [InnerErrorCode.httpError.toI32, InnerErrorCode.responseStatusError.toI32]

/-- retry.rs:145 -/
def isChunkRetryable (err : MeowError) : Bool := retryableChunkErrorCodes.any fun code => code = err.code

/-- The policy tells variants apart, not numbers. -/
theorem isChunkRetryable_fromCode (code : InnerErrorCode) (msg : String) :
    isChunkRetryable (.fromCode code msg) = true ↔ code = .httpError ∨ code = .responseStatusError := by
  simp only [isChunkRetryable, retryableChunkErrorCodes, MeowError.fromCode, List.any_cons, List.any_nil,
    Bool.or_false, Bool.or_eq_true, decide_eq_true_eq, InnerErrorCode.toI32_injective.eq_iff]
  exact or_congr eq_comm eq_comm

/-- retry.rs:32 -/
inductive ChunkRetryResult where
  | done (outcome : ChunkOutcome)
  | cancelled
  | failed (err : MeowError)
deriving DecidableEq, Repr

/-- Where the retry loop stands in attempt number `attempt`. -/
inductive RetryPc where
  /-- about to look at the token (retry.rs:60) -/
  | head (attempt : Nat)
  /-- inside `executor.transfer_chunk` (retry.rs:72) -/
  | calling (attempt : Nat)
  /-- inside the `select!` of the backoff (retry.rs:122) -/
  | waiting (attempt : Nat)
deriving DecidableEq, Repr

inductive RetryIn where
  /-- `cancel.is_cancelled()` -/
  | token (cancelled : Bool)
  | chunk (ret : Ret ChunkOutcome)
  /-- The branch of the `select!` that was taken: the token's, or the sleep's. -/
  | woken (cancelled : Bool)
deriving DecidableEq, Repr

inductive RetryOut where
  | more (pc : RetryPc)
  | finished (result : ChunkRetryResult)
  | panicked (msg : String)
deriving DecidableEq, Repr

def retryStep (maxChunkRetries : Nat) : RetryPc → RetryIn → Option RetryOut
  | .head _, .token true => some (.finished .cancelled)
  | .head attempt, .token false => some (.more (.calling attempt))
  | .calling _, .chunk (.ok outcome) => some (.finished (.done outcome))
  | .calling attempt, .chunk (.error (.err err)) =>
    if ¬ isChunkRetryable err ∨ maxChunkRetries ≤ attempt then some (.finished (.failed err))
    else some (.more (.waiting attempt))
  | .calling _, .chunk (.error (.panic msg)) => some (.panicked msg)
  | .waiting _, .woken true => some (.finished .cancelled)
  | .waiting attempt, .woken false => some (.more (.head (attempt + 1)))
  | _, _ => none

inductive RunPc where
  /-- inside `executor.prepare` (exec.rs:159) -/
  | preparing
  /-- at the top of the loop (exec.rs:184) -/
  | loopHead (offset knownTotal : Nat)
  /-- inside `transfer_chunk_with_retry` (exec.rs:198) -/
  | retry (offset knownTotal : Nat) (pc : RetryPc)
  /-- about to send `Progress` (exec.rs:238) -/
  | report (offset knownTotal : Nat) (done : Bool)
  /-- `run_group` has panicked, and its wrapper awaits the `JoinError` (exec.rs:98) -/
  | joining
  /-- about to send its last event -/
  | finish (event : WorkerEvent)
  | ended
deriving DecidableEq, Repr

inductive RunIn where
  | prepared (ret : Ret PrepareOutcome)
  /-- `cancel.is_cancelled()` at the top of the loop -/
  | token (cancelled : Bool)
  | attempt (input : RetryIn)
  /-- The `JoinError`, as the runtime prints it. -/
  | joined (joinErr : String)
  /-- The channel takes the event. -/
  | sent
deriving DecidableEq, Repr

/-- exec.rs:99-102 -/
def runGroupPanicked (joinErr : String) : MeowError :=
  .fromCode .unknown s!"run_group task panicked: {joinErr}"

/-- exec.rs:160-182 -/
def afterPrepare (key : UniqueId) (inner : InnerTask) : Ret PrepareOutcome → RunPc
  | .ok outcome =>
    .loopHead outcome.nextOffset
      (if outcome.totalSize > 0 then outcome.totalSize else inner.totalSize)
  | .error (.err e) => .finish (.failed key e)
  | .error (.panic _) => .joining

/-- exec.rs:198-237 -/
def afterRetry (key : UniqueId) (offset knownTotal : Nat) : RetryOut → RunPc
  | .more pc => .retry offset knownTotal pc
  | .finished (.done outcome) =>
    .report outcome.nextOffset (if outcome.totalSize > 0 then outcome.totalSize else knownTotal)
      outcome.done
  | .finished .cancelled => .finish (.canceled key)
  | .finished (.failed e) => .finish (.failed key e)
  | .panicked _ => .joining

def runStep (key : UniqueId) (inner : InnerTask) : RunPc → RunIn → Option (RunPc × Option WorkerEvent)
  | .preparing, .prepared ret => some (afterPrepare key inner ret, none)
  | .loopHead _ _, .token true => some (.finish (.canceled key), none)
  | .loopHead offset knownTotal, .token false => some (.retry offset knownTotal (.head 0), none)
  | .retry offset knownTotal pc, .attempt input =>
    (retryStep inner.maxChunkRetries pc input).map fun out => (afterRetry key offset knownTotal out, none)
  | .report offset knownTotal done, .sent =>
    some (if done then .finish (.completed key knownTotal) else .loopHead offset knownTotal,
      some (.progress key offset knownTotal))
  | .joining, .joined joinErr => some (.finish (.failed key (runGroupPanicked joinErr)), none)
  | .finish event, .sent => some (.ended, some event)
  | _, _ => none

/-- Whether the step is possible while the token is, or is not, cancelled. Waking up by the token
needs a cancelled one; the sleep may run out first either way. -/
def RunIn.Sees (cancelled : Bool) : RunIn → Prop
  | .token c | .attempt (.token c) => c = cancelled
  | .attempt (.woken true) => cancelled = true
  | _ => True

instance (cancelled : Bool) (input : RunIn) : Decidable (input.Sees cancelled) := by
  unfold RunIn.Sees
  split <;> infer_instance

/-! ## What a worker sends -/

/-- The event a worker is about to end with is terminal and under its own key. -/
def RunPc.Ok (key : UniqueId) : RunPc → Prop
  | .finish event => event.key = key ∧ event.terminal = true
  | _ => True

theorem afterPrepare_ok (key : UniqueId) (inner : InnerTask) (ret : Ret PrepareOutcome) :
    (afterPrepare key inner ret).Ok key ∧ afterPrepare key inner ret ≠ .ended := by
  cases ret with
  | ok => simp [afterPrepare, RunPc.Ok]
  | error failure => cases failure <;> simp [afterPrepare, RunPc.Ok, WorkerEvent.key, WorkerEvent.terminal]

theorem afterRetry_ok (key : UniqueId) (offset knownTotal : Nat) (out : RetryOut) :
    (afterRetry key offset knownTotal out).Ok key ∧ afterRetry key offset knownTotal out ≠ .ended := by
  cases out with
  | more | panicked => simp [afterRetry, RunPc.Ok]
  | finished result =>
    cases result <;> simp [afterRetry, RunPc.Ok, WorkerEvent.key, WorkerEvent.terminal]

/-- **What one step of a worker sends**: nothing; a `Progress` under its key; or, with its last step,
a terminal event under its key. -/
theorem runStep_cases {key : UniqueId} {inner : InnerTask} {pc pc' : RunPc} {input : RunIn}
    {out : Option WorkerEvent} (hok : pc.Ok key) (h : runStep key inner pc input = some (pc', out)) :
    pc ≠ .ended ∧ pc'.Ok key ∧
      ((out = none ∧ pc' ≠ .ended) ∨
        (∃ event, out = some event ∧ event.key = key ∧ event.terminal = false ∧ pc' ≠ .ended) ∨
        ∃ event, out = some event ∧ event.key = key ∧ event.terminal = true ∧ pc' = .ended) := by
  unfold runStep at h
  split at h
  · rename_i ret
    cases h
    obtain ⟨h1, h2⟩ := afterPrepare_ok key inner ret
    exact ⟨by simp, h1, .inl ⟨rfl, h2⟩⟩
  · cases h
    exact ⟨by simp, ⟨rfl, rfl⟩, .inl ⟨rfl, by simp⟩⟩
  · cases h
    exact ⟨by simp, trivial, .inl ⟨rfl, by simp⟩⟩
  · rename_i offset knownTotal pc input
    obtain ⟨o, _, ho⟩ := Option.map_eq_some_iff.1 h
    cases ho
    obtain ⟨h1, h2⟩ := afterRetry_ok key offset knownTotal o
    exact ⟨by simp, h1, .inl ⟨rfl, h2⟩⟩
  · rename_i done
    cases h
    cases done
    · exact ⟨by simp, trivial, .inr (.inl ⟨_, rfl, rfl, rfl, by simp⟩)⟩
    · exact ⟨by simp, ⟨rfl, rfl⟩, .inr (.inl ⟨_, rfl, rfl, rfl, by simp⟩)⟩
  · cases h
    exact ⟨by simp, ⟨rfl, rfl⟩, .inl ⟨rfl, by simp⟩⟩
  · cases h
    exact ⟨by simp, trivial, .inr (.inr ⟨_, rfl, hok.1, hok.2, rfl⟩)⟩
  · cases h

end SpottedCat
