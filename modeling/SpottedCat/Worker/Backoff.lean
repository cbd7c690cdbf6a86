import Mathlib.Tactic.IntervalCases
import SpottedCat.Sched.Loop
import SpottedCat.Worker.Retry

/-!
# How long the retry loop waits (`exec_impl/retry.rs:14-18`, `:108-134`, `:155-170`)

| here | there |
| --- | --- |
| `calcBackoffWithJitterMs` | `calc_backoff_with_jitter_ms` (:155); `nanos` is the clock's (:161-164), 0 if it stands before the epoch |
| `Timed.step`              | the loop of `Retry.step` with a clock: `delay_ms` is taken when a call has failed (:109), and the `select!` sleeps it (:121-133) |

The delays double up to a cap, each with 20 % more or less of jitter. `backoffs_spaced` says what a whole chunk gets of
that: the doubling outweighs the jitter, so the first six delays grow whatever the clock says, and the jitter goes on
top of the cap.
-/

namespace SpottedCat

/-- retry.rs:14 -/
def chunkRetryBaseDelayMs : Nat := 200

/-- retry.rs:16 -/
def chunkRetryMaxDelayMs : Nat := 5000

/-- retry.rs:18 -/
def chunkRetryJitterPercent : Nat := 20

/-- `u64::saturating_mul` -/
def saturatingMul (a b : Nat) : Nat := min (a * b) (UInt64.size - 1)

/-- retry.rs:155 -/
def calcBackoffWithJitterMs (attempt nanos : Nat) : Nat :=
  let exp := saturatingMul chunkRetryBaseDelayMs (1 <<< min attempt 20)
  let capped := min exp chunkRetryMaxDelayMs
  let jitterSpan := chunkRetryJitterPercent * 2
  let ratioPercent := 100 - chunkRetryJitterPercent + nanos % (jitterSpan + 1)
  saturatingMul capped ratioPercent / 100

/-- The delay without jitter. -/
def nominalDelayMs (attempt : Nat) : Nat := min (200 * 2 ^ attempt) 5000

theorem nominalDelayMs_of_le {attempt : Nat} (h : 5 ≤ attempt) : nominalDelayMs attempt = 5000 := by
  have hpow : 2 ^ 5 ≤ 2 ^ attempt := Nat.pow_le_pow_right (by decide) h
  rw [nominalDelayMs]
  omega

/-- **Neither the limit of the shift nor the saturation shows.** -/
theorem capped_eq_nominal (attempt : Nat) :
    min (saturatingMul chunkRetryBaseDelayMs (1 <<< min attempt 20)) chunkRetryMaxDelayMs = nominalDelayMs attempt := by
  rw [Nat.one_shiftLeft, saturatingMul, chunkRetryBaseDelayMs, chunkRetryMaxDelayMs]
  have hsize : UInt64.size = 18446744073709551616 := rfl
  by_cases hattempt : attempt ≤ 20
  · have hpow : 2 ^ attempt ≤ 2 ^ 20 := Nat.pow_le_pow_right (by decide) hattempt
    rw [Nat.min_eq_left hattempt, nominalDelayMs]
    omega
  · rw [Nat.min_eq_right (Nat.le_of_not_le hattempt), nominalDelayMs_of_le (by omega)]
    omega

theorem calcBackoffWithJitterMs_eq (attempt nanos : Nat) :
    calcBackoffWithJitterMs attempt nanos = nominalDelayMs attempt * (80 + nanos % 41) / 100 := by
  have hnominal : nominalDelayMs attempt ≤ 5000 := Nat.min_le_right _ _
  have hratio : 80 + nanos % 41 ≤ 120 := by omega
  have hsize : UInt64.size = 18446744073709551616 := rfl
  have hfits : nominalDelayMs attempt * (80 + nanos % 41) ≤ 5000 * 120 := Nat.mul_le_mul hnominal hratio
  have hpercent : 100 - chunkRetryJitterPercent + nanos % (chunkRetryJitterPercent * 2 + 1) = 80 + nanos % 41 := rfl
  simp only [calcBackoffWithJitterMs, capped_eq_nominal, hpercent]
  rw [saturatingMul, Nat.min_eq_left (by omega)]

theorem calcBackoffWithJitterMs_bounds (attempt nanos : Nat) :
    nominalDelayMs attempt * 80 / 100 ≤ calcBackoffWithJitterMs attempt nanos ∧
      calcBackoffWithJitterMs attempt nanos ≤ nominalDelayMs attempt * 120 / 100 := by
  rw [calcBackoffWithJitterMs_eq]
  constructor
  · exact Nat.div_le_div_right (Nat.mul_le_mul_left _ (by omega))
  · exact Nat.div_le_div_right (Nat.mul_le_mul_left _ (by omega))

/-- **The doubling outweighs the jitter.** -/
theorem calcBackoffWithJitterMs_lt {attempt : Nat} (h : attempt < 5) (nanos nanos' : Nat) :
    calcBackoffWithJitterMs attempt nanos < calcBackoffWithJitterMs (attempt + 1) nanos' := by
  have hless : nominalDelayMs attempt * 120 / 100 < nominalDelayMs (attempt + 1) * 80 / 100 := by
    interval_cases attempt <;> decide
  have hlast := (calcBackoffWithJitterMs_bounds attempt nanos).2
  have hnext := (calcBackoffWithJitterMs_bounds (attempt + 1) nanos').1
  omega

/-! ## The loop with a clock -/

structure Timed (L : Type) where
  loop : Retry L
  /-- What each backoff was asked to sleep, oldest first. -/
  delays : List Nat
  /-- The backoffs that were slept to their end. -/
  slept : List Nat

variable {L A B : Type}

namespace Timed

def init (inner : InnerTask) (offset knownTotal : Nat) (loc : L) : Timed L :=
  ⟨.init inner offset knownTotal loc, [], []⟩

/-- The backoff that begins with this step. -/
def begun (nanos : Nat) : RetryAct B → RetryOut → List Nat
  | .chunk _, .more (.waiting attempt) => [calcBackoffWithJitterMs attempt nanos]
  | _, _ => []

def ended (delays : List Nat) : RetryAct B → List Nat
  | .wake false => delays.getLast?.toList
  | _ => []

/-- A step, and what the clock says then. -/
def step (ex : TransferTrait L A B) (s : Timed L) (act : RetryAct B × Nat) : Option (Timed L) :=
  (s.loop.step ex act.1).map fun loop =>
    ⟨loop, s.delays ++ begun act.2 act.1 loop.out, s.slept ++ ended s.delays act.1⟩

/-- Without its clock it is the loop. -/
theorem run_loop {ex : TransferTrait L A B} {acts : List (RetryAct B × Nat)} {s s' : Timed L}
    (hrun : Lts.run (step ex) s acts = some s') :
    Lts.run (Retry.step ex) s.loop (acts.map Prod.fst) = some s'.loop := by
  induction acts generalizing s with
  | nil =>
    cases hrun
    rfl
  | cons act acts ih =>
    obtain ⟨s1, hs, hrun⟩ := Lts.run_cons.1 hrun
    obtain ⟨loop, hstep, rfl⟩ := Option.map_eq_some_iff.1 hs
    exact Lts.run_cons.2 ⟨loop, hstep, ih hrun⟩

/-- Attempt number `k` has `k` backoffs behind it. -/
def Stage (s : Timed L) : Prop :=
  match s.loop.out with
  | .more (.head k) => s.delays = s.slept ∧ s.slept.length = k ∧ s.loop.calls.length = k ∧
      k ≤ s.loop.inner.maxChunkRetries
  | .more (.calling k) => s.delays = s.slept ∧ s.slept.length = k ∧ s.loop.calls.length = k + 1 ∧
      k ≤ s.loop.inner.maxChunkRetries
  | .more (.waiting k) => (∃ d, s.delays = s.slept ++ [d]) ∧ s.slept.length = k ∧ s.loop.calls.length = k + 1 ∧
      k < s.loop.inner.maxChunkRetries
  | _ => s.slept <+: s.delays ∧ s.delays.length ≤ s.slept.length + 1 ∧ s.loop.calls.length ≤ s.slept.length + 1 ∧
      s.delays.length ≤ s.loop.inner.maxChunkRetries

structure Spaced (inner : InnerTask) (s : Timed L) : Prop where
  inner : s.loop.inner = inner
  stage : s.Stage
  drawn : ∀ (k : Nat) d, s.delays[k]? = some d → ∃ nanos, d = calcBackoffWithJitterMs k nanos

theorem Spaced.init (inner : InnerTask) (offset knownTotal : Nat) (loc : L) :
    Spaced inner (init inner offset knownTotal loc) :=
  ⟨rfl, ⟨rfl, rfl, rfl, Nat.zero_le _⟩, fun k d h => (by cases h)⟩

variable {inner : InnerTask} {ex : TransferTrait L A B} {s s' : Timed L} {nanos : Nat}

theorem afterCall_more_lt {maxChunkRetries attempt : Nat} {ret : Ret ChunkOutcome} {pc : RetryPc}
    (h : Retry.afterCall maxChunkRetries attempt ret = .more pc) : attempt < maxChunkRetries := by
  unfold Retry.afterCall at h
  split at h
  · cases h
  · split at h
    · cases h
    · rename_i hretry
      rw [not_or] at hretry
      exact Nat.lt_of_not_le hretry.2
  · cases h

/-- A look at the token begins a call or ends the loop. -/
theorem Spaced.look (h : Spaced inner s) (hs : s.step ex (.look, nanos) = some s') : Spaced inner s' := by
  obtain ⟨loop', hstep, rfl⟩ := Option.map_eq_some_iff.1 hs
  have hstage := h.stage
  simp only [begun, ended, List.append_nil]
  cases hout : s.loop.out with
  | more pc =>
    cases pc with
    | head k =>
      simp only [Stage, hout] at hstage
      obtain ⟨hall, hslept, hcalls, hk⟩ := hstage
      rw [Retry.step_look hout] at hstep
      split at hstep
      · cases hstep
        refine ⟨h.inner, ?_, h.drawn⟩
        simp only [Stage, hall, hslept, hcalls]
        exact ⟨List.prefix_refl _, Nat.le_succ k, Nat.le_succ k, hk⟩
      · cases hstep
        refine ⟨h.inner, ?_, h.drawn⟩
        simp only [Stage, List.length_append, List.length_singleton, hcalls]
        exact ⟨hall, hslept, trivial, hk⟩
    | calling | waiting => simp [Retry.step, Retry.advance, hout, retryStep] at hstep
  | finished | panicked => simp [Retry.step, Retry.advance, hout] at hstep

/-- A call that has failed draws the next delay. -/
theorem Spaced.chunk {b : B} (h : Spaced inner s) (hs : s.step ex (.chunk b, nanos) = some s') : Spaced inner s' := by
  obtain ⟨loop', hstep, rfl⟩ := Option.map_eq_some_iff.1 hs
  have hstage := h.stage
  simp only [ended, List.append_nil]
  cases hout : s.loop.out with
  | more pc =>
    cases pc with
    | calling k =>
      simp only [Stage, hout] at hstage
      obtain ⟨hall, hslept, hcalls, hk⟩ := hstage
      rcases hcall : ex.transferChunk s.loop.inner s.loop.offset s.loop.inner.chunkSize s.loop.knownTotal b s.loop.loc
        with ⟨ret, loc⟩
      rw [Retry.step_chunk hout hcall] at hstep
      cases hstep
      cases hafter : Retry.afterCall s.loop.inner.maxChunkRetries k ret with
      | more pc =>
        have hmore := afterCall_more_lt hafter
        obtain rfl := Retry.afterCall_more hafter
        refine ⟨h.inner, ?_, fun j d hj => ?_⟩
        · simp only [Stage, begun, hall]
          exact ⟨⟨_, rfl⟩, hslept, hcalls, hmore⟩
        · rcases Places.lookup_push.1 hj with hj | ⟨rfl, rfl⟩
          · exact h.drawn j d hj
          · rw [hall, hslept]
            exact ⟨nanos, rfl⟩
      | finished | panicked =>
        refine ⟨h.inner, ?_, ?_⟩
        · simp only [Stage, begun, List.append_nil, hall, hslept, hcalls]
          exact ⟨List.prefix_refl _, Nat.le_succ k, Nat.le_refl _, hk⟩
        · simp only [begun, List.append_nil]
          exact h.drawn
    | head | waiting => simp [Retry.step, hout] at hstep
  | finished | panicked => simp [Retry.step, hout] at hstep

/-- The `select!` of a backoff is left by the sleep or by the token. -/
theorem Spaced.wake {byToken : Bool} (h : Spaced inner s) (hs : s.step ex (.wake byToken, nanos) = some s') :
    Spaced inner s' := by
  obtain ⟨loop', hstep, rfl⟩ := Option.map_eq_some_iff.1 hs
  have hstage := h.stage
  simp only [begun, List.append_nil]
  cases hout : s.loop.out with
  | more pc =>
    cases pc with
    | waiting k =>
      simp only [Stage, hout] at hstage
      obtain ⟨⟨d, hall⟩, hslept, hcalls, hk⟩ := hstage
      cases byToken with
      | true =>
        cases hc : s.loop.cancelled with
        | false => simp [Retry.step, hc] at hstep
        | true =>
          simp only [Retry.step, Retry.advance, hout, hc, retryStep, Retry.begun, Bool.not_true, Bool.and_false,
            Bool.false_eq_true, ↓reduceIte, Option.map_some, Option.some.injEq] at hstep
          subst hstep
          refine ⟨h.inner, ?_, h.drawn⟩
          simp only [Stage, ended, List.append_nil, hall, List.length_append, List.length_singleton, hslept, hcalls]
          exact ⟨List.prefix_append _ _, Nat.le_refl _, Nat.le_refl _, hk⟩
      | false =>
        rw [Retry.step_wake hout] at hstep
        cases hstep
        refine ⟨h.inner, ?_, h.drawn⟩
        simp only [Stage, ended, hall, List.getLast?_concat, Option.toList_some, List.length_append,
          List.length_singleton, hslept, hcalls]
        exact ⟨trivial, trivial, trivial, hk⟩
    | head | calling => cases byToken <;> simp [Retry.step, Retry.advance, hout, retryStep] at hstep
  | finished | panicked => cases byToken <;> simp [Retry.step, Retry.advance, hout] at hstep

theorem Spaced.step {act : RetryAct B × Nat} (h : Spaced inner s) (hs : s.step ex act = some s') : Spaced inner s' := by
  obtain ⟨a, nanos⟩ := act
  cases a with
  | look => exact h.look hs
  | chunk b => exact h.chunk hs
  | wake byToken => exact h.wake hs
  | cancel =>
    cases hs
    simp only [begun, ended, List.append_nil]
    exact ⟨h.inner, h.stage, h.drawn⟩

/-- What the stages have in common. -/
theorem Spaced.counts (h : Spaced inner s) : s.slept <+: s.delays ∧ s.delays.length ≤ s.slept.length + 1 ∧
    s.loop.calls.length ≤ s.slept.length + 1 ∧ s.delays.length ≤ inner.maxChunkRetries := by
  have hstage := h.stage
  rw [← h.inner]
  unfold Stage at hstage
  split at hstage
  · obtain ⟨hall, hslept, hcalls, hk⟩ := hstage
    rw [hall]
    exact ⟨List.prefix_refl _, by omega, by omega, by omega⟩
  · obtain ⟨hall, hslept, hcalls, hk⟩ := hstage
    rw [hall]
    exact ⟨List.prefix_refl _, by omega, by omega, by omega⟩
  · obtain ⟨⟨d, hall⟩, hslept, hcalls, hk⟩ := hstage
    rw [hall, List.length_append, List.length_singleton]
    exact ⟨List.prefix_append _ _, by omega, by omega, by omega⟩
  · exact hstage

end Timed

/-- **The backoffs of a chunk.** In every run of the retry loop, whatever the calls return, the clock says and the
token does (the clock decides nothing else): there are at most `max_chunk_retries` backoffs, and every call but the
first follows one that was slept to its end; backoff number `k` is asked to sleep `min(200 · 2^k, 5000)` ms with a
fifth more or less, so never less than 160 ms and never more than 6 s; and up to the sixth each is longer than the one
before. -/
theorem backoffs_spaced {ex : TransferTrait L A B} {inner : InnerTask} {offset knownTotal : Nat} {loc : L}
    {acts : List (RetryAct B × Nat)} {s : Timed L}
    (hrun : Lts.run (Timed.step ex) (.init inner offset knownTotal loc) acts = some s) :
    Lts.run (Retry.step ex) (.init inner offset knownTotal loc) (acts.map Prod.fst) = some s.loop ∧
    (s.delays.length ≤ inner.maxChunkRetries ∧ s.slept <+: s.delays ∧ s.delays.length ≤ s.slept.length + 1 ∧
      s.loop.calls.length ≤ s.slept.length + 1) ∧
    (∀ (k : Nat) d, s.delays[k]? = some d →
      (nominalDelayMs k * 80 / 100 ≤ d ∧ d ≤ nominalDelayMs k * 120 / 100) ∧ 160 ≤ d ∧ d ≤ 6000) ∧
    (∀ (k : Nat) d d', k < 5 → s.delays[k]? = some d → s.delays[k + 1]? = some d' → d < d') ∧
    s.delays.sum ≤ 6000 * inner.maxChunkRetries := by
  have hspaced : s.Spaced inner := Lts.run_invariant (I := Timed.Spaced inner) (fun _ _ _ h hs => h.step hs)
    (.init inner offset knownTotal loc) hrun
  obtain ⟨hsub, hlength, hcalls, hmost⟩ := hspaced.counts
  have hbounds : ∀ (k : Nat) d, s.delays[k]? = some d →
      (nominalDelayMs k * 80 / 100 ≤ d ∧ d ≤ nominalDelayMs k * 120 / 100) ∧ 160 ≤ d ∧ d ≤ 6000 := by
    intro k d hd
    obtain ⟨nanos, rfl⟩ := hspaced.drawn k d hd
    have hdelay := calcBackoffWithJitterMs_bounds k nanos
    have hpow : 1 ≤ 2 ^ k := Nat.one_le_two_pow
    have hmin : 200 ≤ nominalDelayMs k := by
      rw [nominalDelayMs]
      omega
    have hmax : nominalDelayMs k ≤ 5000 := Nat.min_le_right _ _
    refine ⟨hdelay, ?_, ?_⟩
    · omega
    · omega
  refine ⟨Timed.run_loop hrun, ⟨hmost, hsub, hlength, hcalls⟩, hbounds, fun k d d' hk hd hd' => ?_, ?_⟩
  · obtain ⟨nanos, rfl⟩ := hspaced.drawn k d hd
    obtain ⟨nanos', rfl⟩ := hspaced.drawn (k + 1) d' hd'
    exact calcBackoffWithJitterMs_lt hk nanos nanos'
  · have hsum : s.delays.sum ≤ s.delays.length * 6000 := by
      refine List.sum_le_card_nsmul _ _ fun d hd => ?_
      obtain ⟨k, hk⟩ := List.mem_iff_getElem?.1 hd
      exact (hbounds k d hk).2.2
    calc s.delays.sum ≤ s.delays.length * 6000 := hsum
      _ ≤ inner.maxChunkRetries * 6000 := Nat.mul_le_mul_right _ hmost
      _ = 6000 * inner.maxChunkRetries := Nat.mul_comm _ _

/-- Both retries are used up: the clock shortens the first backoff by a fifth and lengthens the second by a tenth. -/
theorem backoffs_spaced_twice :
    ∃ s, Lts.run (Timed.step (scripted fun _ => .error (.fromCode .httpError "reset")))
      (.init { sampleTask 0 with maxChunkRetries := 2 } 0 8 0)
      [(.look, 0), (.chunk (), 0), (.wake false, 0), (.look, 0), (.chunk (), 30), (.wake false, 0), (.look, 0),
        (.chunk (), 0)] = some s ∧
      s.delays = [160, 440] ∧ s.slept = [160, 440] ∧ 160 < 440 ∧ s.delays.sum ≤ 6000 * 2 := by
  have hrun : Lts.run (Timed.step (scripted fun _ => .error (.fromCode .httpError "reset")))
      (.init { sampleTask 0 with maxChunkRetries := 2 } 0 8 0)
      [(.look, 0), (.chunk (), 0), (.wake false, 0), (.look, 0), (.chunk (), 30), (.wake false, 0), (.look, 0),
        (.chunk (), 0)] = some _ := Lts.run_final (by decide)
  obtain ⟨-, -, -, hgrow, hsum⟩ := backoffs_spaced hrun
  exact ⟨_, hrun, by decide, by decide, hgrow 0 160 440 (by decide) (by decide) (by decide), hsum⟩

end SpottedCat
