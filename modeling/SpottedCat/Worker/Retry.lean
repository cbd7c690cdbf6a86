import Mathlib.Order.Bounds.Basic
import SpottedCat.Worker.Drive

/-!
# The retry loop (`exec_impl/retry.rs:44-140`)

`transfer_chunk_with_retry` for one chunk, with its executor and its token: the token may be cancelled
between any two steps, and when it is, the `select!` of the backoff may still take the branch of the
sleep.

| here | there |
| --- | --- |
| `Retry.step` with `.look`    | `cancel.is_cancelled()` (:60); if it is not, `transfer_chunk` is called (:72) |
| `Retry.step` with `.chunk b` | the call returns (:75-103) |
| `Retry.step` with `.wake c`  | the branch of the `select!` (:122-134), and `attempt += 1` |

`retry_loop_spec` is about an executor that answers call number `k` with `r k`, for any stream `r`.
-/

namespace SpottedCat

/-- The arguments of one `transfer_chunk`. -/
structure ChunkCall where
  offset : Nat
  chunkSize : Nat
  remoteTotalSize : Nat
deriving DecidableEq, Repr

structure Retry (L : Type) where
  inner : InnerTask
  offset : Nat
  knownTotal : Nat
  /-- Where the loop stands, or what it has returned. -/
  out : RetryOut
  /-- State of the executor. -/
  loc : L
  /-- The token. -/
  cancelled : Bool
  /-- Every call that was started. -/
  calls : List ChunkCall

inductive RetryAct (B : Type) where
  | cancel
  | look
  | chunk (b : B)
  | wake (byToken : Bool)
deriving DecidableEq

/-- A step of the loop itself. -/
def RetryAct.own {B : Type} : RetryAct B → Bool
  | .cancel => false
  | _ => true

variable {L A B : Type}

namespace Retry

def init (inner : InnerTask) (offset knownTotal : Nat) (loc : L) : Retry L where
  inner := inner
  offset := offset
  knownTotal := knownTotal
  out := .more (.head 0)
  loc := loc
  cancelled := false
  calls := []

def call (s : Retry L) : ChunkCall := ⟨s.offset, s.inner.chunkSize, s.knownTotal⟩

/-- The call that begins when the loop gets there. -/
def begun (s : Retry L) : RetryOut → List ChunkCall
  | .more (.calling _) => [s.call]
  | _ => []

def advance (s : Retry L) (input : RetryIn) : Option (Retry L) :=
  match s.out with
  | .more pc => (retryStep s.inner.maxChunkRetries pc input).map fun out =>
      { s with out := out, calls := s.calls ++ s.begun out }
  | _ => none

def step (ex : TransferTrait L A B) (s : Retry L) : RetryAct B → Option (Retry L)
  | .cancel => some { s with cancelled := true }
  | .look => s.advance (.token s.cancelled)
  | .chunk b =>
    match s.out with
    | .more (.calling _) =>
      let (ret, loc) := ex.transferChunk s.inner s.offset s.inner.chunkSize s.knownTotal b s.loc
      { s with loc := loc }.advance (.chunk ret)
    | _ => none
  | .wake byToken => if byToken && !s.cancelled then none else s.advance (.woken byToken)

end Retry

/-! ## The steps one by one -/

section
variable {ex : TransferTrait L A B} {s s' : Retry L} {attempt : Nat}

namespace Retry

/-- What a call that has returned makes of the loop. -/
def afterCall (maxChunkRetries attempt : Nat) : Ret ChunkOutcome → RetryOut
  | .ok outcome => .finished (.done outcome)
  | .error (.err err) =>
    if ¬ isChunkRetryable err ∨ maxChunkRetries ≤ attempt then .finished (.failed err)
    else .more (.waiting attempt)
  | .error (.panic msg) => .panicked msg

theorem retryStep_chunk (maxChunkRetries attempt : Nat) (ret : Ret ChunkOutcome) :
    retryStep maxChunkRetries (.calling attempt) (.chunk ret) =
      some (afterCall maxChunkRetries attempt ret) := by
  rcases ret with (err | msg) | outcome
  · unfold retryStep afterCall
    simp only
    split <;> rfl
  · rfl
  · rfl

/-- An error that may be retried, with a retry left. -/
theorem afterCall_retry {maxChunkRetries attempt : Nat} {err : MeowError} (hretry : isChunkRetryable err = true)
    (hattempt : attempt < maxChunkRetries) :
    afterCall maxChunkRetries attempt (.error (.err err)) = .more (.waiting attempt) := by
  apply if_neg
  rw [not_or, not_not]
  exact ⟨hretry, Nat.not_le.2 hattempt⟩

/-- An error that may not. -/
theorem afterCall_final {maxChunkRetries attempt : Nat} {err : MeowError} (hfinal : isChunkRetryable err = false) :
    afterCall maxChunkRetries attempt (.error (.err err)) = .finished (.failed err) := by
  apply if_pos
  rw [hfinal]
  exact .inl Bool.false_ne_true

theorem begun_afterCall (s : Retry L) (maxChunkRetries attempt : Nat) (ret : Ret ChunkOutcome) :
    s.begun (afterCall maxChunkRetries attempt ret) = [] := by
  rcases ret with (err | msg) | outcome
  · unfold afterCall
    simp only
    split <;> rfl
  · rfl
  · rfl

theorem step_look (hout : s.out = .more (.head attempt)) :
    s.step ex .look =
      if s.cancelled then some { s with out := .finished .cancelled }
      else some { s with out := .more (.calling attempt), calls := s.calls ++ [s.call] } := by
  obtain ⟨inner, offset, knownTotal, out, loc, cancelled, calls⟩ := s
  obtain rfl : out = _ := hout
  cases cancelled <;> simp [step, advance, retryStep, begun]

theorem step_chunk {b : B} {ret : Ret ChunkOutcome} {loc : L} (hout : s.out = .more (.calling attempt))
    (hcall : ex.transferChunk s.inner s.offset s.inner.chunkSize s.knownTotal b s.loc = (ret, loc)) :
    s.step ex (.chunk b) =
      some { s with out := afterCall s.inner.maxChunkRetries attempt ret, loc := loc } := by
  obtain ⟨inner, offset, knownTotal, out, loc0, cancelled, calls⟩ := s
  obtain rfl : out = _ := hout
  simp [step, advance, retryStep_chunk, begun_afterCall, hcall]

theorem step_wake (hout : s.out = .more (.waiting attempt)) :
    s.step ex (.wake false) = some { s with out := .more (.head (attempt + 1)) } := by
  obtain ⟨inner, offset, knownTotal, out, loc, cancelled, calls⟩ := s
  obtain rfl : out = _ := hout
  simp [step, advance, retryStep, begun]

/-- **What a step is.** -/
theorem step_cases {a : RetryAct B} (h : s.step ex a = some s') :
    (a = .cancel ∧ s' = { s with cancelled := true }) ∨
    (∃ attempt, s.out = .more (.head attempt) ∧ s.cancelled = true ∧ a.own = true ∧
      s' = { s with out := .finished .cancelled }) ∨
    (∃ attempt, s.out = .more (.head attempt) ∧ s.cancelled = false ∧ a.own = true ∧
      s' = { s with out := .more (.calling attempt), calls := s.calls ++ [s.call] }) ∨
    (∃ attempt b ret loc, s.out = .more (.calling attempt) ∧ a = .chunk b ∧
      ex.transferChunk s.inner s.offset s.inner.chunkSize s.knownTotal b s.loc = (ret, loc) ∧
      s' = { s with out := afterCall s.inner.maxChunkRetries attempt ret, loc := loc }) ∨
    (∃ attempt, s.out = .more (.waiting attempt) ∧ s.cancelled = true ∧ a.own = true ∧
      s' = { s with out := .finished .cancelled }) ∨
    ∃ attempt, s.out = .more (.waiting attempt) ∧ a.own = true ∧
      s' = { s with out := .more (.head (attempt + 1)) } := by
  cases a with
  | cancel =>
    cases h
    exact .inl ⟨rfl, rfl⟩
  | look =>
    cases hout : s.out with
    | more pc =>
      cases pc with
      | head attempt =>
        rw [step_look hout] at h
        cases hc : s.cancelled with
        | true =>
          rw [hc] at h
          cases h
          exact .inr (.inl ⟨attempt, rfl, rfl, rfl, rfl⟩)
        | false =>
          rw [hc] at h
          cases h
          exact .inr (.inr (.inl ⟨attempt, rfl, rfl, rfl, rfl⟩))
      | calling | waiting => simp [step, advance, hout, retryStep] at h
    | finished | panicked => simp [step, advance, hout] at h
  | chunk b =>
    cases hout : s.out with
    | more pc =>
      cases pc with
      | calling attempt =>
        rcases hcall : ex.transferChunk s.inner s.offset s.inner.chunkSize s.knownTotal b s.loc with ⟨ret, loc⟩
        rw [step_chunk hout hcall] at h
        cases h
        exact .inr (.inr (.inr (.inl ⟨attempt, b, ret, loc, rfl, rfl, hcall, rfl⟩)))
      | head | waiting => simp [step, hout] at h
    | finished | panicked => simp [step, hout] at h
  | wake byToken =>
    cases hout : s.out with
    | more pc =>
      cases pc with
      | waiting attempt =>
        cases byToken with
        | true =>
          cases hc : s.cancelled with
          | true =>
            simp [step, advance, hout, hc, retryStep, begun] at h
            exact .inr (.inr (.inr (.inr (.inl ⟨attempt, rfl, rfl, rfl, h.symm⟩))))
          | false => simp [step, hc] at h
        | false =>
          rw [step_wake hout] at h
          cases h
          exact .inr (.inr (.inr (.inr (.inr ⟨attempt, rfl, rfl, rfl⟩))))
      | head | calling => simp [step, advance, hout, retryStep] at h
    | finished | panicked => simp [step, advance, hout] at h

end Retry

end

/-! ## A loop that nobody cancels -/

/-- It has not returned. -/
def RetryOut.Open (out : RetryOut) : Prop := ∃ pc, out = .more pc

/-- What happens in the call that this step ends. -/
def RetryAct.call? : RetryAct B → Option B
  | .chunk b => some b
  | _ => none

namespace Retry

/-- The loop from attempt number `attempt` on: what it returns, and what it leaves of the executor's state.
In its calls happens `bs`; `none` if it makes more of them. -/
def undisturbed (ex : TransferTrait L A B) (inner : InnerTask) (offset knownTotal : Nat) :
    Nat → List B → L → Option (RetryOut × L)
  | _, [], _ => none
  | attempt, b :: bs, l =>
    let (ret, l') := ex.transferChunk inner offset inner.chunkSize knownTotal b l
    match afterCall inner.maxChunkRetries attempt ret with
    | .more _ => undisturbed ex inner offset knownTotal (attempt + 1) bs l'
    | out => some (out, l')

/-- Steps of a loop that nobody cancels, with `bs` in its calls. -/
def Quiet (bs : List B) (acts : List (RetryAct B)) : Prop :=
  (∀ a ∈ acts, a.own = true) ∧ acts.filterMap RetryAct.call? <+: bs

variable {ex : TransferTrait L A B} {s s' : Retry L} {attempt : Nat} {bs : List B} {a : RetryAct B}

theorem afterCall_more {maxChunkRetries : Nat} {ret : Ret ChunkOutcome} {pc : RetryPc}
    (h : afterCall maxChunkRetries attempt ret = .more pc) : pc = .waiting attempt := by
  unfold afterCall at h
  split at h
  · cases h
  · split at h <;> cases h
    rfl
  · cases h

/-- While the token is open, each stage has one kind of step. -/
theorem step_open (hc : s.cancelled = false) (ha : a.own = true) (h : s.step ex a = some s') :
    (∃ k, s.out = .more (.head k) ∧ a = .look) ∨ (∃ k b, s.out = .more (.calling k) ∧ a = .chunk b) ∨
      ∃ k, s.out = .more (.waiting k) ∧ a = .wake false := by
  cases a with
  | cancel => cases ha
  | look =>
    cases hout : s.out with
    | more pc =>
      cases pc with
      | head k => exact .inl ⟨k, rfl, rfl⟩
      | calling | waiting => simp [step, advance, hout, retryStep] at h
    | finished | panicked => simp [step, advance, hout] at h
  | chunk b =>
    cases hout : s.out with
    | more pc =>
      cases pc with
      | calling k => exact .inr (.inl ⟨k, b, rfl, rfl⟩)
      | head | waiting => simp [step, hout] at h
    | finished | panicked => simp [step, hout] at h
  | wake byToken =>
    cases byToken with
    | true => simp [step, hc] at h
    | false =>
      cases hout : s.out with
      | more pc =>
        cases pc with
        | waiting k => exact .inr (.inr ⟨k, rfl, rfl⟩)
        | head | calling => simp [step, advance, hout, retryStep] at h
      | finished | panicked => simp [step, advance, hout] at h

theorem undisturbed_runs {out : RetryOut} {loc : L} (hout : s.out = .more (.head attempt))
    (hc : s.cancelled = false)
    (h : undisturbed ex s.inner s.offset s.knownTotal attempt bs s.loc = some (out, loc)) :
    ∃ acts s', Quiet bs acts ∧ Lts.run (step ex) s acts = some s' ∧ ¬ s'.out.Open ∧
      s'.out = out ∧ s'.loc = loc := by
  induction bs generalizing s attempt with
  | nil => cases h
  | cons b bs ih =>
    rcases hcall : ex.transferChunk s.inner s.offset s.inner.chunkSize s.knownTotal b s.loc with ⟨ret, l'⟩
    simp only [undisturbed, hcall] at h
    have hlook : s.step ex .look =
        some { s with out := .more (.calling attempt), calls := s.calls ++ [s.call] } := by
      rw [step_look hout, hc]
      rfl
    have hchunk : Retry.step ex { s with out := .more (.calling attempt), calls := s.calls ++ [s.call] }
        (.chunk b) = some _ := step_chunk rfl hcall
    cases hnext : afterCall s.inner.maxChunkRetries attempt ret with
    | more pc =>
      rw [hnext] at h hchunk
      obtain rfl := afterCall_more hnext
      have hrest : undisturbed ex s.inner s.offset s.knownTotal (attempt + 1) bs l' = some (out, loc) := h
      obtain ⟨acts, s', ⟨hown, hbs⟩, hrun, hclosed⟩ :=
        @ih { s with out := .more (.head (attempt + 1)), calls := s.calls ++ [s.call], loc := l' } _ rfl hc hrest
      refine ⟨.look :: .chunk b :: .wake false :: acts, s', ⟨?_, ?_⟩, ?_, hclosed⟩
      · simpa [RetryAct.own] using hown
      · simpa [List.filterMap_cons, RetryAct.call?] using hbs
      · exact Lts.run_cons.2 ⟨_, hlook, Lts.run_cons.2 ⟨_, hchunk, Lts.run_cons.2 ⟨_, step_wake rfl, hrun⟩⟩⟩
    | finished | panicked =>
      rw [hnext] at h hchunk
      cases h
      refine ⟨[.look, .chunk b], _, ⟨by simp [RetryAct.own], ⟨bs, rfl⟩⟩,
        Lts.run_cons.2 ⟨_, hlook, Lts.run_cons.2 ⟨_, hchunk, rfl⟩⟩, ?_, rfl, rfl⟩
      rintro ⟨pc, hpc⟩
      cases hpc

/-- The same from any stage: a call that is about to begin, or has begun, is the first of `bs`. -/
def rest (ex : TransferTrait L A B) (inner : InnerTask) (offset knownTotal : Nat) (bs : List B) :
    RetryOut → L → Option (RetryOut × L)
  | .more (.head attempt), l => undisturbed ex inner offset knownTotal attempt bs l
  | .more (.calling attempt), l => undisturbed ex inner offset knownTotal attempt bs l
  | .more (.waiting attempt), l => undisturbed ex inner offset knownTotal (attempt + 1) bs l
  | out, l => some (out, l)

theorem rest_step (bs : List B) (hc : s.cancelled = false) (ha : a.own = true) (h : s.step ex a = some s') :
    rest ex s.inner s.offset s.knownTotal (a.call?.toList ++ bs) s.out s.loc =
      rest ex s'.inner s'.offset s'.knownTotal bs s'.out s'.loc ∧ s'.cancelled = false := by
  obtain ⟨k, hout, rfl⟩ | ⟨k, b, hout, rfl⟩ | ⟨k, hout, rfl⟩ := step_open hc ha h
  · rw [step_look hout, hc] at h
    cases h
    rw [hout]
    exact ⟨rfl, rfl⟩
  · rcases hcall : ex.transferChunk s.inner s.offset s.inner.chunkSize s.knownTotal b s.loc with ⟨ret, l'⟩
    rw [step_chunk hout hcall] at h
    cases h
    refine ⟨?_, hc⟩
    rw [hout]
    show undisturbed ex s.inner s.offset s.knownTotal k (b :: bs) s.loc = _
    simp only [undisturbed, hcall]
    cases hnext : afterCall s.inner.maxChunkRetries k ret with
    | more pc =>
      rw [afterCall_more hnext]
      rfl
    | finished | panicked => rfl
  · rw [step_wake hout] at h
    cases h
    rw [hout]
    exact ⟨rfl, hc⟩

theorem rest_run {acts : List (RetryAct B)} (hc : s.cancelled = false) (hquiet : Quiet bs acts)
    (h : Lts.run (step ex) s acts = some s') (hclosed : ¬ s'.out.Open) :
    rest ex s.inner s.offset s.knownTotal bs s.out s.loc = some (s'.out, s'.loc) := by
  induction acts generalizing s bs with
  | nil =>
    cases h
    cases hout : s'.out with
    | more pc => exact absurd ⟨pc, hout⟩ hclosed
    | finished | panicked => rfl
  | cons a acts ih =>
    obtain ⟨hown, more, hbs⟩ := hquiet
    rw [List.forall_mem_cons] at hown
    obtain ⟨s1, h1, h2⟩ := Lts.run_cons.1 h
    have hcut : bs = a.call?.toList ++ (acts.filterMap RetryAct.call? ++ more) := by
      rw [← hbs, List.filterMap_cons]
      cases a.call? <;> simp
    obtain ⟨hrest, hc1⟩ := rest_step (acts.filterMap RetryAct.call? ++ more) hc hown.1 h1
    rw [hcut, hrest]
    exact ih hc1 ⟨hown.2, List.prefix_append _ _⟩ h2

/-- **The loop as a function** is what its steps come to while nobody cancels. -/
theorem undisturbed_iff {out : RetryOut} {loc : L} (hout : s.out = .more (.head attempt))
    (hc : s.cancelled = false) :
    undisturbed ex s.inner s.offset s.knownTotal attempt bs s.loc = some (out, loc) ↔
      ∃ acts s', Quiet bs acts ∧ Lts.run (step ex) s acts = some s' ∧ ¬ s'.out.Open ∧
        s'.out = out ∧ s'.loc = loc := by
  constructor
  · exact undisturbed_runs hout hc
  · rintro ⟨acts, s', hquiet, hrun, hclosed, rfl, rfl⟩
    have hrest := rest_run hc hquiet hrun hclosed
    rw [hout] at hrest
    exact hrest

/-- Failures that are tried again, while they keep `P`. -/
theorem undisturbed_skip (ex : TransferTrait L A B) (inner : InnerTask) (offset knownTotal attempt : Nat)
    {P : L → Prop} {fails : List B}
    (hfail : ∀ b ∈ fails, ∀ l, P l → ∃ err l', isChunkRetryable err = true ∧ P l' ∧
      ex.transferChunk inner offset inner.chunkSize knownTotal b l = (.error (.err err), l'))
    (hlimit : attempt + fails.length ≤ inner.maxChunkRetries) {l : L} (hl : P l) (bs : List B) :
    ∃ l', P l' ∧ undisturbed ex inner offset knownTotal attempt (fails ++ bs) l =
      undisturbed ex inner offset knownTotal (attempt + fails.length) bs l' := by
  induction fails generalizing attempt l with
  | nil => exact ⟨l, hl, rfl⟩
  | cons b fails ih =>
    rw [List.forall_mem_cons] at hfail
    rw [List.length_cons] at hlimit
    obtain ⟨err, l1, hretry, hl1, hcall⟩ := hfail.1 l hl
    obtain ⟨l', hl', hrest⟩ := ih (attempt + 1) hfail.2 (by omega) hl1
    refine ⟨l', hl', ?_⟩
    have hattempt : attempt < inner.maxChunkRetries := by omega
    rw [List.cons_append, undisturbed, hcall]
    simp only [afterCall_retry hretry hattempt]
    rw [hrest, List.length_cons, Nat.add_assoc, Nat.add_comm 1]

/-- The call that ends the loop. -/
theorem undisturbed_last {inner : InnerTask} {offset knownTotal : Nat} {b : B} {l l' : L}
    {ret : Ret ChunkOutcome} (hcall : ex.transferChunk inner offset inner.chunkSize knownTotal b l = (ret, l'))
    (hclosed : ¬ (afterCall inner.maxChunkRetries attempt ret).Open) (bs : List B) :
    undisturbed ex inner offset knownTotal attempt (b :: bs) l =
      some (afterCall inner.maxChunkRetries attempt ret, l') := by
  simp only [undisturbed, hcall]
  cases hnext : afterCall inner.maxChunkRetries attempt ret with
  | more pc => exact absurd ⟨pc, hnext⟩ hclosed
  | finished | panicked => rfl

/-- A call that succeeds is the last. -/
theorem undisturbed_done {inner : InnerTask} {offset knownTotal : Nat} {b : B} {l l' : L} {outcome : ChunkOutcome}
    (hcall : ex.transferChunk inner offset inner.chunkSize knownTotal b l = (.ok outcome, l')) (bs : List B) :
    undisturbed ex inner offset knownTotal attempt (b :: bs) l = some (.finished (.done outcome), l') :=
  undisturbed_last hcall (fun ⟨_, h⟩ => nomatch h) bs

end Retry

/-! ## The loop inside `run_group` -/

/-- `run_group` stands where the loop does, or where it goes on once the loop has returned
(exec.rs:198-237). -/
structure Inside (s : Retry L) (r : Drive L) : Prop where
  inner : r.inner = s.inner
  loc : r.loc = s.loc
  pc : r.pc = afterRetry r.inner.dedupeKey s.offset s.knownTotal s.out

namespace Drive

variable {ex : TransferTrait L A B} {r : Drive L} {offset knownTotal attempt : Nat}

theorem step_attempt {pc : RetryPc} (input : RetryIn) {out : RetryOut}
    (hpc : r.pc = .retry offset knownTotal pc)
    (hcall : (RunIn.attempt input).ofCall = false) (h : retryStep r.inner.maxChunkRetries pc input = some out) :
    r.step ex (.worker (.attempt input)) =
      some { r with pc := afterRetry r.inner.dedupeKey offset knownTotal out } := by
  obtain ⟨inner, startOffset, pc, loc, last, sent⟩ := r
  obtain rfl : pc = _ := hpc
  simp only at h
  simp [Drive.step, advance, hcall, runStep, h]

theorem step_call {b : B} {ret : Ret ChunkOutcome} {loc : L}
    (hpc : r.pc = .retry offset knownTotal (.calling attempt))
    (hcall : ex.transferChunk r.inner offset r.inner.chunkSize knownTotal b r.loc = (ret, loc)) :
    r.step ex (.chunk b) =
      some { r with
        pc := afterRetry r.inner.dedupeKey offset knownTotal
          (Retry.afterCall r.inner.maxChunkRetries attempt ret)
        loc := loc
        last := offsetAfter r.last ret } := by
  obtain ⟨inner, startOffset, pc, loc0, last, sent⟩ := r
  obtain rfl : pc = _ := hpc
  simp [Drive.step, advance, runStep, Retry.retryStep_chunk, hcall]

end Drive

/-- **The worker runs this loop**: each of its steps is a step of the worker's machine. -/
theorem Inside.step {ex : TransferTrait L A B} {s s' : Retry L} {r : Drive L} {a : RetryAct B}
    (hin : Inside s r) (h : s.step ex a = some s') :
    ∃ acts r', Lts.run (Drive.step ex) r acts = some r' ∧ Inside s' r' := by
  obtain ⟨hinner, hloc, hpc⟩ := hin
  have hone {act : DriveAct A B} {r' : Drive L} (hstep : r.step ex act = some r') :
      Lts.run (Drive.step ex) r [act] = some r' := Lts.run_cons.2 ⟨r', hstep, rfl⟩
  obtain ⟨rfl, rfl⟩ | ⟨k, hout, hc, -, rfl⟩ | ⟨k, hout, hc, -, rfl⟩ |
    ⟨k, b, ret, loc, hout, rfl, hcall, rfl⟩ | ⟨k, hout, hc, -, rfl⟩ | ⟨k, hout, -, rfl⟩ :=
    Retry.step_cases h
  -- cancelling is not a step of the worker
  · exact ⟨[], r, rfl, hinner, hloc, hpc⟩
  all_goals rw [hout] at hpc
  · exact ⟨_, _, hone (Drive.step_attempt (.token true) hpc rfl rfl), hinner, hloc, rfl⟩
  · exact ⟨_, _, hone (Drive.step_attempt (.token false) hpc rfl rfl), hinner, hloc, rfl⟩
  · rw [← hinner, ← hloc] at hcall
    exact ⟨_, _, hone (Drive.step_call hpc hcall), hinner, rfl, by rw [hinner]⟩
  · exact ⟨_, _, hone (Drive.step_attempt (.woken true) hpc rfl rfl), hinner, hloc, rfl⟩
  · exact ⟨_, _, hone (Drive.step_attempt (.woken false) hpc rfl rfl), hinner, hloc, rfl⟩

/-- A whole run of the loop. -/
theorem Inside.run {ex : TransferTrait L A B} {s s' : Retry L} {r : Drive L} {acts : List (RetryAct B)}
    (hin : Inside s r) (h : Lts.run (Retry.step ex) s acts = some s') :
    ∃ acts' r', Lts.run (Drive.step ex) r acts' = some r' ∧ Inside s' r' :=
  Lts.run_simulation (fun _ _ _ _ hR hstep => hR.step hstep) hin h

/-! ## A stream of results -/

/-- Call number `k` returns `r k`; the state counts the calls that have returned. -/
def scripted (r : ℕ → Except MeowError ChunkOutcome) : TransferTrait ℕ Unit Unit where
  prepare _ localOffset _ := pure ⟨localOffset, 0⟩
  transferChunk _ _ _ _ _ := fun k => ((r k).mapError .err, k + 1)

/-- The loop stops at call number `k` with this result. -/
def Settles (maxChunkRetries k : Nat) : Except MeowError ChunkOutcome → Prop
  | .ok _ => True
  | .error err => isChunkRetryable err = false ∨ k = maxChunkRetries

/-- What the loop then returns. -/
def returned : Except MeowError ChunkOutcome → ChunkRetryResult
  | .ok outcome => .done outcome
  | .error err => .failed err

def RetryPc.attempt : RetryPc → Nat
  | .head attempt | .calling attempt | .waiting attempt => attempt

/-- The loop, started with an open token, after some steps. -/
def Reached (r : ℕ → Except MeowError ChunkOutcome) (inner : InnerTask) (offset knownTotal : Nat)
    (acts : List (RetryAct Unit)) (s : Retry ℕ) : Prop :=
  Lts.run (Retry.step (scripted r)) (.init inner offset knownTotal 0) acts = some s

/-- Where the loop stands against `r`, if `i` is the first call that settles it. -/
def Retry.Stage (r : ℕ → Except MeowError ChunkOutcome) (i : Nat) (s : Retry ℕ) : Prop :=
  match s.out with
  | .more (.head k) => k ≤ i ∧ s.loc = k ∧ s.calls = List.replicate k s.call
  | .more (.calling k) => k ≤ i ∧ s.loc = k ∧ s.calls = List.replicate (k + 1) s.call
  | .more (.waiting k) => k < i ∧ s.loc = k + 1 ∧ s.calls = List.replicate (k + 1) s.call
  | .finished result =>
    (s.calls = List.replicate (i + 1) s.call ∧ result = returned (r i)) ∨
      s.cancelled = true ∧ result = .cancelled ∧ ∃ k, s.calls = List.replicate k s.call
  | .panicked _ => False

/-- How many steps are left. -/
def Retry.left (i : Nat) (s : Retry L) : Nat :=
  match s.out with
  | .more (.head k) => 3 * (i - k) + 2
  | .more (.calling k) => 3 * (i - k) + 1
  | .more (.waiting k) => 3 * (i - k)
  | _ => 0

section
variable {r : ℕ → Except MeowError ChunkOutcome} {inner : InnerTask} {offset knownTotal i k : Nat}
  {s s' : Retry ℕ} {a : RetryAct Unit}

/-- The limit settles every call. -/
theorem settles_limit (maxChunkRetries : Nat) (result : Except MeowError ChunkOutcome) :
    Settles maxChunkRetries maxChunkRetries result := by
  cases result with
  | ok outcome => trivial
  | error err => exact .inr rfl

/-- **One call.** It returns what `r` says, and the loop goes on exactly before `i`. -/
theorem afterCall_scripted (hi : IsLeast {k | Settles inner.maxChunkRetries k (r k)} i) (hk : k ≤ i) :
    Retry.afterCall inner.maxChunkRetries k ((r k).mapError .err) =
      if k = i then .finished (returned (r i)) else .more (.waiting k) := by
  have hsettles : Settles inner.maxChunkRetries k (r k) ↔ k = i := by
    constructor
    · intro h
      exact Nat.le_antisymm hk (hi.2 h)
    · rintro rfl
      exact hi.1
  have hlimit : i ≤ inner.maxChunkRetries := hi.2 (settles_limit _ _)
  cases hr : r k with
  | ok outcome =>
    have hend : k = i := by
      rw [← hsettles, hr]
      trivial
    subst hend
    rw [if_pos rfl, hr]
    rfl
  | error err =>
    rw [hr] at hsettles
    show (if ¬ isChunkRetryable err ∨ inner.maxChunkRetries ≤ k then _ else _) = _
    by_cases hend : k = i
    · have hstop : isChunkRetryable err = false ∨ k = inner.maxChunkRetries := hsettles.2 hend
      rw [if_pos hend, ← hend, hr]
      apply if_pos
      rcases hstop with hfinal | hlast
      · exact .inl (by rw [hfinal]; exact Bool.false_ne_true)
      · exact .inr hlast.ge
    · have hgo : ¬ (isChunkRetryable err = false ∨ k = inner.maxChunkRetries) := fun h => hend (hsettles.1 h)
      rw [if_neg hend]
      apply if_neg
      rintro (hfinal | hlast)
      · exact hgo (.inl (Bool.eq_false_iff.2 hfinal))
      · exact hgo (.inr (by omega))

namespace Retry

theorem Stage.cancel (hs : s.Stage r i) : { s with cancelled := true }.Stage r i := by
  unfold Stage at hs ⊢
  obtain ⟨inner, offset, knownTotal, out, loc, cancelled, calls⟩ := s
  cases out with
  | more pc =>
    cases pc with
    | head | calling | waiting => exact hs
  | finished result =>
    rcases hs with hend | ⟨-, hresult, hcalls⟩
    · exact .inl hend
    · exact .inr ⟨rfl, hresult, hcalls⟩
  | panicked => exact hs

/-- **One step.** -/
theorem Stage.step (hi : IsLeast {k | Settles s.inner.maxChunkRetries k (r k)} i) (hs : s.Stage r i)
    (h : s.step (scripted r) a = some s') :
    s'.Stage r i ∧ s'.inner = s.inner ∧ s'.call = s.call ∧
      s'.left i + (if a.own = true then 1 else 0) ≤ s.left i := by
  obtain ⟨rfl, rfl⟩ | ⟨k, hout, hc, hown, rfl⟩ | ⟨k, hout, hc, hown, rfl⟩ |
    ⟨k, b, ret, loc, hout, rfl, hcall, rfl⟩ | ⟨k, hout, hc, hown, rfl⟩ | ⟨k, hout, hown, rfl⟩ :=
    step_cases h
  · exact ⟨hs.cancel, rfl, rfl, le_rfl⟩
  all_goals
    unfold Stage at hs
    rw [hout] at hs
    obtain ⟨hk, hloc, hcalls⟩ := hs
  -- the token is seen before a call
  · refine ⟨.inr ⟨hc, rfl, k, hcalls⟩, rfl, rfl, ?_⟩
    simp only [left, hout, hown, if_true]
    omega
  -- a call begins
  · refine ⟨⟨hk, hloc, ?_⟩, rfl, rfl, ?_⟩
    · show s.calls ++ [s.call] = List.replicate (k + 1) s.call
      rw [hcalls, List.replicate_succ']
    · simp only [left, hout, hown, if_true]
      omega
  -- a call returns
  · obtain ⟨rfl, rfl⟩ : (r k).mapError Failure.err = ret ∧ k + 1 = loc := by
      rw [← hloc]
      exact Prod.mk.injEq _ _ _ _ ▸ hcall
    rw [afterCall_scripted hi hk]
    by_cases hend : k = i
    · subst hend
      rw [if_pos rfl]
      refine ⟨.inl ⟨hcalls, rfl⟩, rfl, rfl, ?_⟩
      simp [left, hout, RetryAct.own]
    · rw [if_neg hend]
      refine ⟨⟨by omega, rfl, hcalls⟩, rfl, rfl, ?_⟩
      simp [left, hout, RetryAct.own]
  -- the backoff is cut short
  · refine ⟨.inr ⟨hc, rfl, k + 1, hcalls⟩, rfl, rfl, ?_⟩
    simp only [left, hout, hown, if_true]
    omega
  · refine ⟨⟨hk, hloc, hcalls⟩, rfl, rfl, ?_⟩
    simp only [left, hout, hown, if_true]
    omega

theorem Stage.run {acts : List (RetryAct Unit)} (hi : IsLeast {k | Settles s.inner.maxChunkRetries k (r k)} i)
    (hs : s.Stage r i) (h : Lts.run (Retry.step (scripted r)) s acts = some s') :
    (s'.Stage r i ∧ s'.inner = s.inner ∧ s'.call = s.call) ∧
      s'.left i + acts.countP RetryAct.own ≤ s.left i := by
  apply Lts.run_potential (I := fun t => t.Stage r i ∧ t.inner = s.inner ∧ t.call = s.call) _ ⟨hs, rfl, rfl⟩ h
  rintro t a t' ⟨ht, hinner, hcall⟩ hstep
  obtain ⟨ht', hinner', hcall', hleft⟩ := ht.step (hinner ▸ hi) hstep
  exact ⟨⟨ht', hinner'.trans hinner, hcall'.trans hcall⟩, hleft⟩

/-- Every stage but the last has a step. -/
theorem Stage.next (hs : s.Stage r i) :
    (∃ result, s.out = .finished result) ∨ ∃ a s', a.own = true ∧ s.step (scripted r) a = some s' := by
  unfold Stage at hs
  cases hout : s.out with
  | more pc =>
    cases pc with
    | head k =>
      refine .inr ⟨.look, ?_⟩
      rw [step_look hout]
      split <;> exact ⟨_, rfl, rfl⟩
    | calling k => exact .inr ⟨.chunk (), _, rfl, step_chunk hout rfl⟩
    | waiting k => exact .inr ⟨.wake false, _, rfl, step_wake hout⟩
  | finished result => exact .inl ⟨result, rfl⟩
  | panicked msg =>
    rw [hout] at hs
    exact hs.elim

theorem Stage.calls (hs : s.Stage r i) : ∃ k, s.calls = List.replicate k s.call := by
  unfold Stage at hs
  cases hout : s.out with
  | more pc =>
    rw [hout] at hs
    cases pc with
    | head | calling | waiting => exact ⟨_, hs.2.2⟩
  | finished result =>
    rw [hout] at hs
    rcases hs with ⟨hcalls, -⟩ | ⟨-, -, hcalls⟩
    · exact ⟨_, hcalls⟩
    · exact hcalls
  | panicked msg =>
    rw [hout] at hs
    exact hs.elim

theorem Stage.attempt {pc : RetryPc} (hs : s.Stage r i) (hout : s.out = .more pc) : pc.attempt ≤ i := by
  unfold Stage at hs
  rw [hout] at hs
  cases pc with
  | head | calling => exact hs.1
  | waiting => exact hs.1.le

/-- What is left of the loop once its token is cancelled where `s0` stands: the call in flight may still
return, and no other begins. -/
structure Winding (r : ℕ → Except MeowError ChunkOutcome) (i : Nat) (s0 s : Retry ℕ) : Prop where
  cancelled : s.cancelled = true
  calls : s.calls = s0.calls
  flight : ∀ k, s.out = .more (.calling k) → s0.out = .more (.calling k)
  settled : s0.out = .more (.calling i) →
    s.out = .more (.calling i) ∨ s.out = .finished (returned (r i))
  stopped : s0.out ≠ .more (.calling i) → ∀ result, s.out = .finished result → result = .cancelled

theorem Winding.step {s0 : Retry ℕ} (hi : IsLeast {k | Settles s.inner.maxChunkRetries k (r k)} i)
    (hs : s.Stage r i) (hw : Winding r i s0 s) (h : s.step (scripted r) a = some s') : Winding r i s0 s' := by
  obtain ⟨hcancelled, hcalls, hflight, hsettled, hstopped⟩ := hw
  have hnot {pc : RetryPc} (hout : s.out = .more pc) (hpc : pc ≠ .calling i) : s0.out ≠ .more (.calling i) := by
    intro h0
    rcases hsettled h0 with h1 | h1
    · rw [hout] at h1
      cases h1
      exact hpc rfl
    · rw [hout] at h1
      cases h1
  obtain ⟨rfl, rfl⟩ | ⟨k, hout, hc, hown, rfl⟩ | ⟨k, hout, hc, hown, rfl⟩ |
    ⟨k, b, ret, loc, hout, rfl, hcall, rfl⟩ | ⟨k, hout, hc, hown, rfl⟩ | ⟨k, hout, hown, rfl⟩ :=
    step_cases h
  · exact ⟨rfl, hcalls, hflight, hsettled, hstopped⟩
  · have h0 := hnot hout (by simp)
    exact ⟨hcancelled, hcalls, nofun, fun h => absurd h h0, by rintro - result ⟨⟩; rfl⟩
  · rw [hcancelled] at hc
    cases hc
  · unfold Stage at hs
    rw [hout] at hs
    obtain ⟨hk, hloc, -⟩ := hs
    obtain rfl : (r k).mapError Failure.err = ret := by
      rw [← hloc]
      exact congrArg Prod.fst hcall
    have h0 := hflight k hout
    have hnext := afterCall_scripted hi hk
    by_cases hend : k = i
    · subst hend
      rw [if_pos rfl] at hnext
      refine ⟨hcancelled, hcalls, fun k' hk' => ?_, fun _ => .inr hnext, fun hne => absurd h0 hne⟩
      rw [hnext] at hk'
      cases hk'
    · rw [if_neg hend] at hnext
      have hne : s0.out ≠ .more (.calling i) := hnot hout (by simpa using hend)
      refine ⟨hcancelled, hcalls, fun k' hk' => ?_, fun h => absurd h hne, fun _ result hresult => ?_⟩
      · rw [hnext] at hk'
        cases hk'
      · rw [hnext] at hresult
        cases hresult
  · have h0 := hnot hout (by simp)
    exact ⟨hcancelled, hcalls, nofun, fun h => absurd h h0, by rintro - result ⟨⟩; rfl⟩
  · have h0 := hnot hout (by simp)
    exact ⟨hcancelled, hcalls, nofun, fun h => absurd h h0, by rintro - result ⟨⟩⟩

theorem Stage.winding {s0 : Retry ℕ} {acts : List (RetryAct Unit)}
    (hi : IsLeast {k | Settles s0.inner.maxChunkRetries k (r k)} i) (hs : s0.Stage r i) (hopen : s0.out.Open)
    (h : Lts.run (Retry.step (scripted r)) s0 (.cancel :: acts) = some s') : Winding r i s0 s' := by
  obtain ⟨s1, hcancel, hrun⟩ := Lts.run_cons.1 h
  cases hcancel
  have hstart : Winding r i s0 { s0 with cancelled := true } := by
    obtain ⟨pc, hpc⟩ := hopen
    exact ⟨rfl, rfl, fun _ hk => hk, .inl, fun _ result hresult => nomatch hpc.symm.trans hresult⟩
  have hinv := Lts.run_invariant
    (I := fun t : Retry ℕ => t.Stage r i ∧ t.inner = s0.inner ∧ Winding r i s0 t)
    (fun t a t' ⟨ht, hinner, hw⟩ hstep => by
      obtain ⟨ht', hinner', -, -⟩ := ht.step (hinner ▸ hi) hstep
      exact ⟨ht', hinner'.trans hinner, hw.step (hinner ▸ hi) ht hstep⟩)
    ⟨hs.cancel, rfl, hstart⟩ hrun
  exact hinv.2.2

/-- While nobody cancels, the token stays open. -/
theorem run_quiet {ex : TransferTrait L A B} {acts : List (RetryAct B)} {s s' : Retry L}
    (hacts : ∀ a ∈ acts, a.own = true) (h : Lts.run (Retry.step ex) s acts = some s') :
    s'.cancelled = s.cancelled := by
  apply Lts.run_invariant_of_meets (I := fun t : Retry L => t.cancelled = s.cancelled)
    (C := fun _ a => a.own = true) _ rfl (Lts.Meets.of_forall fun a ha _ => hacts a ha) h
  intro t a t' ht hown hstep
  obtain ⟨rfl, -⟩ | ⟨_, -, -, -, rfl⟩ | ⟨_, -, -, -, rfl⟩ | ⟨_, _, _, _, -, -, -, rfl⟩ | ⟨_, -, -, -, rfl⟩ |
    ⟨_, -, -, rfl⟩ := step_cases hstep
  · cases hown
  all_goals exact ht

end Retry

/-- What the loop does against `r`, where `i` is the first call that settles it. -/
structure LoopSpec (r : ℕ → Except MeowError ChunkOutcome) (inner : InnerTask) (offset knownTotal i : Nat) :
    Prop where
  least : IsLeast {k | Settles inner.maxChunkRetries k (r k)} i
  /-- All calls have the same arguments. -/
  args : ∀ acts s, Reached r inner offset knownTotal acts s →
    ∀ call ∈ s.calls, call = ⟨offset, inner.chunkSize, knownTotal⟩
  /-- The counter stays within `max_chunk_retries`, which is a `u32`. -/
  counter : ∀ acts s, Reached r inner offset knownTotal acts s →
    ∀ pc, s.out = .more pc → pc.attempt ≤ inner.maxChunkRetries
  /-- The loop can go on until it returns. -/
  next : ∀ acts s, Reached r inner offset knownTotal acts s →
    (∃ result, s.out = .finished result) ∨ ∃ a s', a.own = true ∧ s.step (scripted r) a = some s'
  bounded : ∀ acts s, Reached r inner offset knownTotal acts s → acts.countP RetryAct.own ≤ 3 * i + 2
  /-- Nobody cancels. -/
  quiet : ∀ acts s, Reached r inner offset knownTotal acts s → (∀ a ∈ acts, a.own = true) →
    ∀ result, s.out = .finished result → s.calls.length = i + 1 ∧ result = returned (r i)
  /-- The token is cancelled before the loop has returned. -/
  cancelled : ∀ before s0 after s, Reached r inner offset knownTotal before s0 → s0.out.Open →
    Reached r inner offset knownTotal (before ++ .cancel :: after) s →
      s.calls = s0.calls ∧ ∀ result, s.out = .finished result →
        result = if s0.out = .more (.calling i) then returned (r i) else .cancelled

theorem exists_settles (r : ℕ → Except MeowError ChunkOutcome) (maxChunkRetries : Nat) :
    ∃ i, IsLeast {k | Settles maxChunkRetries k (r k)} i := by
  classical
  have hlimit : ∃ k, Settles maxChunkRetries k (r k) := ⟨maxChunkRetries, settles_limit _ _⟩
  exact ⟨Nat.find hlimit, Nat.find_spec hlimit, fun k hk => Nat.find_min' hlimit hk⟩

/-- **The retry loop.** It makes the calls up to the first that succeeds, fails for good, or is the last one
allowed, and returns what that call returned; a cancelled token stops it before the next call. -/
theorem retry_loop_spec (r : ℕ → Except MeowError ChunkOutcome) (inner : InnerTask) (offset knownTotal : Nat) :
    ∃ i, LoopSpec r inner offset knownTotal i := by
  obtain ⟨i, hi⟩ := exists_settles r inner.maxChunkRetries
  have hstart : (Retry.init inner offset knownTotal 0).Stage r i := ⟨Nat.zero_le i, rfl, rfl⟩
  have hlimit : i ≤ inner.maxChunkRetries := hi.2 (settles_limit _ _)
  refine ⟨i, hi, fun acts s h => ?_, fun acts s h pc hpc => ?_, fun acts s h => ?_, fun acts s h => ?_,
    fun acts s h hquiet result hresult => ?_, fun before s0 after s h0 hopen h => ?_⟩
  · obtain ⟨⟨hs, -, hcall⟩, -⟩ := hstart.run hi h
    obtain ⟨k, hcalls⟩ := hs.calls
    rw [hcalls, hcall]
    intro call hmem
    exact List.eq_of_mem_replicate hmem
  · obtain ⟨⟨hs, -⟩, -⟩ := hstart.run hi h
    exact (hs.attempt hpc).trans hlimit
  · obtain ⟨⟨hs, -⟩, -⟩ := hstart.run hi h
    exact hs.next
  · obtain ⟨-, hleft⟩ := hstart.run hi h
    have hfirst : (Retry.init inner offset knownTotal 0).left i = 3 * i + 2 := rfl
    omega
  · obtain ⟨⟨hs, -⟩, -⟩ := hstart.run hi h
    unfold Retry.Stage at hs
    rw [hresult] at hs
    rcases hs with ⟨hcalls, hreturned⟩ | ⟨hcancelled, -⟩
    · exact ⟨by rw [hcalls, List.length_replicate], hreturned⟩
    · rw [Retry.run_quiet hquiet h] at hcancelled
      cases hcancelled
  · obtain ⟨⟨hs0, hinner, -⟩, -⟩ := hstart.run hi h0
    obtain ⟨s1, hrun0, hrun⟩ := Lts.run_append.1 h
    obtain rfl : s0 = s1 := Option.some.inj (h0.symm.trans hrun0)
    have hw := hs0.winding (hinner ▸ hi) hopen hrun
    refine ⟨hw.calls, fun result hresult => ?_⟩
    split
    · rename_i hflight
      rcases hw.settled hflight with hcalling | hreturned
      · exact nomatch hcalling.symm.trans hresult
      · rw [hresult] at hreturned
        cases hreturned
        rfl
    · rename_i hflight
      exact hw.stopped hflight result hresult

end

end SpottedCat
