import SpottedCat.Worker.Moves

/-!
# What a worker sends, and that it ends (`exec.rs:93-264`, `retry.rs:44-140`)

The loop of `run_group` has no counter: it ends because each chunk that succeeds moves the offset, and because
its executor says `done` exactly at the total. `Paces` is what the executor has to do; `Paced` says where a run
then stands, and `WellFormed` is the result for all runs.
-/

namespace SpottedCat

variable {L A B : Type}

/-- The `known_total` of a run (exec.rs:170-174). -/
def runTotal (inner : InnerTask) (outcome : PrepareOutcome) : Nat :=
  if outcome.totalSize > 0 then outcome.totalSize else inner.totalSize

/-- **An executor that gets ahead**, as long as the world is `fair`: it prepares at an offset up to the total,
keeps to this total, moves the offset with each chunk until it has reached it, and says so. -/
structure Paces (ex : TransferTrait L A B) (fair : DriveAct A B → Prop) (total : Nat → Prop)
    (inner : InnerTask) (startOffset : Nat) : Prop where
  prepare : ∀ a l outcome l', ex.prepare inner startOffset a l = (.ok outcome, l') →
    total (runTotal inner outcome) ∧ outcome.nextOffset ≤ runTotal inner outcome
  chunk : ∀ b l offset T outcome l', fair (.chunk b) → total T → offset ≤ T →
    ex.transferChunk inner offset inner.chunkSize T b l = (.ok outcome, l') →
      outcome.totalSize = T ∧ outcome.done = decide (T ≤ outcome.nextOffset) ∧
        (offset < T → offset < outcome.nextOffset) ∧ (offset = T → outcome.nextOffset = T)

/-- Offsets that increase from above `P`; or the single one of a run that begins at its end. -/
def Climbs (P T : Nat) (offs : List Nat) : Prop := (P :: offs).Pairwise (· < ·) ∨ P = T ∧ offs = [T]

/-- The reports of these offsets. -/
def reports (key : UniqueId) (T : Nat) (offs : List Nat) : List WorkerEvent :=
  offs.map fun offset => .progress key offset T

theorem reports_snoc (key : UniqueId) (T : Nat) (offs : List Nat) (offset : Nat) :
    reports key T offs ++ [.progress key offset T] = reports key T (offs ++ [offset]) := by
  simp [reports]

/-- At `offset`, with more to transfer, or at the end from the beginning. -/
structure AtHead (P T offset : Nat) (offs : List Nat) : Prop where
  climbs : (P :: offs).Pairwise (· < ·)
  below : ∀ o ∈ P :: offs, o ≤ offset
  count : P + offs.length ≤ offset
  more : offset < T ∨ offset = T ∧ P = T

/-- About to report `next`. -/
structure AtReport (P T next : Nat) (offs : List Nat) : Prop where
  before : Climbs P T offs
  climbs : Climbs P T (offs ++ [next])
  count : offs.length + 1 ≤ max 1 (T - P)
  more : next < T → AtHead P T next (offs ++ [next])

/-- With `event` as its last one. -/
structure AtEnd (P T : Nat) (offs : List Nat) (event : WorkerEvent) : Prop where
  terminal : event.terminal = true
  completed : ∀ key total, event = .completed key total → total = T ∧ ∃ o ∈ offs, T ≤ o

section
variable {P T offset next : Nat} {offs : List Nat}

theorem AtHead.count_le (h : AtHead P T offset offs) : offs.length ≤ max 1 (T - P) := by
  have hcount := h.count
  rcases h.more with hlt | ⟨rfl, rfl⟩
  · omega
  · omega

/-- The run ends here, without having reached `T`. -/
theorem AtHead.ends {event : WorkerEvent} (h : AtHead P T offset offs) (hterminal : event.terminal = true)
    (hshort : ∀ key total, event ≠ .completed key total) :
    Climbs P T offs ∧ offs.length ≤ max 1 (T - P) ∧ AtEnd P T offs event :=
  ⟨.inl h.climbs, h.count_le, hterminal, fun key total heq => absurd heq (hshort key total)⟩

/-- **One chunk.** -/
theorem AtHead.advance (h : AtHead P T offset offs) (hlt : offset < T → offset < next)
    (heq : offset = T → next = T) : AtReport P T next offs := by
  have hcount := h.count
  rcases h.more with hmore | ⟨rfl, rfl⟩
  · have hstep := hlt hmore
    have hclimbs : (P :: (offs ++ [next])).Pairwise (· < ·) := by
      rw [← List.cons_append, List.pairwise_append]
      refine ⟨h.climbs, List.pairwise_singleton _ _, fun o ho x hx => ?_⟩
      rw [List.mem_singleton.1 hx]
      exact (h.below o ho).trans_lt hstep
    refine ⟨.inl h.climbs, .inl hclimbs, by omega, fun hnext => ⟨hclimbs, fun o ho => ?_, ?_, .inl hnext⟩⟩
    · rw [← List.cons_append, List.mem_append] at ho
      rcases ho with ho | ho
      · exact (h.below o ho).trans hstep.le
      · rw [List.mem_singleton.1 ho]
    · rw [List.length_append, List.length_singleton]
      omega
  · obtain rfl : next = P := heq rfl
    obtain rfl : offs = [] := List.eq_nil_of_length_eq_zero (by omega)
    exact ⟨.inl h.climbs, .inr ⟨rfl, rfl⟩, by simp, fun hnext => absurd hnext (Nat.lt_irrefl _)⟩

end

/-- Attempts that are allowed. -/
def RetryPc.Within (maxChunkRetries : Nat) : RetryPc → Prop
  | .head attempt | .calling attempt => attempt ≤ maxChunkRetries
  | .waiting attempt => attempt < maxChunkRetries

namespace Drive

/-- Where a run stands that was prepared at `P` of `T`, after `n` chunks that succeeded. -/
def Paced (P T : Nat) (r : Drive L) (n : Nat) : Prop :=
  ∃ offs, match r.pc with
    | .preparing => False
    | .loopHead offset knownTotal =>
      r.sent = reports r.inner.dedupeKey T offs ∧ n = offs.length ∧ AtHead P T offset offs ∧ knownTotal = T
    | .retry offset knownTotal pc =>
      r.sent = reports r.inner.dedupeKey T offs ∧ n = offs.length ∧ AtHead P T offset offs ∧ knownTotal = T ∧
        pc.Within r.inner.maxChunkRetries
    | .report offset knownTotal done =>
      r.sent = reports r.inner.dedupeKey T offs ∧ n = offs.length + 1 ∧ AtReport P T offset offs ∧
        knownTotal = T ∧ done = decide (T ≤ offset)
    | .joining =>
      r.sent = reports r.inner.dedupeKey T offs ∧ n = offs.length ∧ Climbs P T offs ∧ n ≤ max 1 (T - P)
    | .finish event =>
      r.sent = reports r.inner.dedupeKey T offs ∧ n = offs.length ∧ Climbs P T offs ∧ n ≤ max 1 (T - P) ∧
        AtEnd P T offs event
    | .ended => ∃ event,
      r.sent = reports r.inner.dedupeKey T offs ++ [event] ∧ n = offs.length ∧ Climbs P T offs ∧
        n ≤ max 1 (T - P) ∧ AtEnd P T offs event

/-- How many steps are left, at most: so many for each chunk, with its attempts. -/
def left (T : Nat) (r : Drive L) : Nat :=
  let turn := 3 * r.inner.maxChunkRetries + 4
  match r.pc with
  | .preparing => 0
  | .loopHead offset _ => turn * (T - offset - 1) + turn + 1
  | .retry offset _ (.head attempt) => turn * (T - offset - 1) + 3 * (r.inner.maxChunkRetries - attempt) + 4
  | .retry offset _ (.calling attempt) => turn * (T - offset - 1) + 3 * (r.inner.maxChunkRetries - attempt) + 3
  | .retry offset _ (.waiting attempt) => turn * (T - offset - 1) + 3 * (r.inner.maxChunkRetries - attempt) + 2
  | .report offset _ _ => turn * (T - offset) + 2
  | .joining => 2
  | .finish _ => 1
  | .ended => 0

/-- A call of `transfer_chunk` that succeeds. -/
def succeeds (ex : TransferTrait L A B) (r : Drive L) : DriveAct A B → Bool
  | .chunk b =>
    match r.pc with
    | .retry offset knownTotal (.calling _) =>
      (ex.transferChunk r.inner offset r.inner.chunkSize knownTotal b r.loc).1.isOk
    | _ => false
  | _ => false

variable {ex : TransferTrait L A B} {fair : DriveAct A B → Prop} {total : Nat → Prop} {P T n : Nat}
  {r r' : Drive L} {a : DriveAct A B}

/-- A call that fails is tried again, or ends the run. -/
theorem Paced.failed {offset attempt : Nat} {offs : List Nat} {e : Failure} {loc : L} (hhead : AtHead P T offset offs)
    (hsent : r.sent = reports r.inner.dedupeKey T offs)
    (hpc : r.pc = .retry offset T (.calling attempt)) :
    let r' : Drive L := { r with
      pc := afterRetry r.inner.dedupeKey offset T (Retry.afterCall r.inner.maxChunkRetries attempt (.error e))
      loc := loc }
    r'.Paced P T offs.length ∧ r'.left T + 1 ≤ r.left T := by
  have hend (err : MeowError) :
      Drive.Paced P T ({ r with pc := .finish (.failed r.inner.dedupeKey err), loc := loc } : Drive L) offs.length ∧
        Drive.left T ({ r with pc := .finish (.failed r.inner.dedupeKey err), loc := loc } : Drive L) + 1 ≤
          r.left T := by
    refine ⟨⟨offs, hsent, rfl, hhead.ends rfl nofun⟩, ?_⟩
    simp only [left, hpc]
    omega
  cases e with
  | panic msg =>
    refine ⟨⟨offs, hsent, rfl, .inl hhead.climbs, hhead.count_le⟩, ?_⟩
    simp only [left, Retry.afterCall, afterRetry, hpc]
    omega
  | err err =>
    unfold Retry.afterCall
    simp only
    split
    · exact hend err
    · rename_i hgo
      rw [not_or] at hgo
      refine ⟨⟨offs, hsent, rfl, hhead, rfl, Nat.not_le.1 hgo.2⟩, ?_⟩
      simp only [left, afterRetry, hpc]
      omega

/-- A chunk that succeeds. -/
theorem Paced.succeeded {offset attempt : Nat} {offs : List Nat} {outcome : ChunkOutcome} {loc : L}
    (hhead : AtHead P T offset offs) (hsent : r.sent = reports r.inner.dedupeKey T offs)
    (hpc : r.pc = .retry offset T (.calling attempt)) (htotal : outcome.totalSize = T)
    (hdone : outcome.done = decide (T ≤ outcome.nextOffset)) (hlt : offset < T → offset < outcome.nextOffset)
    (heq : offset = T → outcome.nextOffset = T) :
    let r' : Drive L := { r with
      pc := afterRetry r.inner.dedupeKey offset T (Retry.afterCall r.inner.maxChunkRetries attempt (.ok outcome))
      loc := loc
      last := outcome.nextOffset }
    r'.Paced P T (offs.length + 1) ∧ r'.left T + 1 ≤ r.left T := by
  have hreport := hhead.advance hlt heq
  have hknown : (if outcome.totalSize > 0 then outcome.totalSize else T) = T := by
    rw [htotal, ite_self]
  refine ⟨⟨offs, hsent, rfl, hreport, hknown, hdone⟩, ?_⟩
  simp only [left, Retry.afterCall, afterRetry, hpc]
  rcases hhead.more with hmore | ⟨hmore, -⟩
  · have hnext := hlt hmore
    have hturn : (3 * r.inner.maxChunkRetries + 4) * (T - outcome.nextOffset) ≤
        (3 * r.inner.maxChunkRetries + 4) * (T - offset - 1) :=
      Nat.mul_le_mul_left _ (by omega)
    omega
  · rw [heq hmore, Nat.sub_self, Nat.mul_zero]
    omega

/-- A report: the run goes on, or is about to complete. -/
theorem Paced.reported {offset : Nat} {offs : List Nat} (hreport : AtReport P T offset offs)
    (hsent : r.sent = reports r.inner.dedupeKey T offs) (hpc : r.pc = .report offset T (decide (T ≤ offset))) :
    let r' : Drive L := { r with
      pc := if decide (T ≤ offset) = true then .finish (.completed r.inner.dedupeKey T) else .loopHead offset T
      sent := r.sent ++ [.progress r.inner.dedupeKey offset T] }
    r'.Paced P T (offs.length + 1) ∧ r'.left T + 1 ≤ r.left T := by
  have hsent' : r.sent ++ [.progress r.inner.dedupeKey offset T] =
      reports r.inner.dedupeKey T (offs ++ [offset]) := by
    rw [hsent, reports_snoc]
  have hlength : (offs ++ [offset]).length = offs.length + 1 := by simp
  by_cases hend : T ≤ offset
  · simp only [decide_eq_true hend, if_true]
    refine ⟨⟨offs ++ [offset], hsent', hlength.symm, hreport.climbs, hreport.count, rfl, ?_⟩, ?_⟩
    · intro key total heq
      cases heq
      exact ⟨rfl, offset, by simp, hend⟩
    · simp only [left, hpc]
      omega
  · simp only [decide_eq_false hend, Bool.false_eq_true, if_false]
    refine ⟨⟨offs ++ [offset], hsent', hlength.symm, hreport.more (Nat.not_le.1 hend), rfl⟩, ?_⟩
    have hturn : (3 * r.inner.maxChunkRetries + 4) * (T - offset) =
        (3 * r.inner.maxChunkRetries + 4) * (T - offset - 1) + (3 * r.inner.maxChunkRetries + 4) := by
      rw [← Nat.mul_succ]
      congr 1
      omega
    simp only [left, hpc]
    rw [hturn]

/-- **One step.** -/
theorem Paced.step (hk : Paces ex fair total r.inner r.startOffset) (hT : total T) (hp : r.Paced P T n)
    (ha : fair a) (h : r.step ex a = some r') :
    r'.Paced P T (n + if r.succeeds ex a = true then 1 else 0) ∧ r'.left T + 1 ≤ r.left T := by
  obtain ⟨offs, hp⟩ := hp
  cases step_moves h with
  | prepared hpc hcall =>
    rw [hpc] at hp
    exact hp.elim
  | entered hpc =>
    rw [hpc] at hp
    obtain ⟨hsent, hn, hhead, hknown⟩ := hp
    refine ⟨⟨offs, hsent, hn, hhead, hknown, Nat.zero_le _⟩, ?_⟩
    simp only [left, hpc]
    omega
  | halted hpc =>
    rw [hpc] at hp
    obtain ⟨hsent, rfl, hhead, hknown⟩ := hp
    refine ⟨⟨offs, hsent, rfl, hhead.ends rfl nofun⟩, ?_⟩
    simp only [left, hpc]
    omega
  | attempted hpc =>
    rw [hpc] at hp
    obtain ⟨hsent, hn, hhead, hknown, hattempt⟩ := hp
    refine ⟨⟨offs, hsent, hn, hhead, hknown, hattempt⟩, ?_⟩
    simp only [left, hpc]
    omega
  | quit hpc =>
    rw [hpc] at hp
    obtain ⟨hsent, rfl, hhead, hknown, hattempt⟩ := hp
    refine ⟨⟨offs, hsent, rfl, hhead.ends rfl nofun⟩, ?_⟩
    simp only [left, hpc]
    omega
  | @called offset knownTotal attempt b ret loc hpc hcall =>
    rw [hpc] at hp
    obtain ⟨hsent, rfl, hhead, rfl, hattempt⟩ := hp
    have hsucceeds : r.succeeds ex (.chunk b) = ret.isOk := by
      simp only [succeeds, hpc, hcall]
    cases ret with
    | error e =>
      rw [hsucceeds]
      exact Paced.failed hhead hsent hpc
    | ok outcome =>
      obtain ⟨htotal, hdone, hlt, heq⟩ := hk.chunk b r.loc offset knownTotal outcome loc ha hT (by
        rcases hhead.more with hmore | ⟨hmore, -⟩
        · exact hmore.le
        · exact hmore.le) hcall
      rw [hsucceeds]
      exact Paced.succeeded hhead hsent hpc htotal hdone hlt heq
  | slept hpc =>
    rw [hpc] at hp
    obtain ⟨hsent, hn, hhead, hknown, hattempt⟩ := hp
    have hlt : _ < r.inner.maxChunkRetries := hattempt
    refine ⟨⟨offs, hsent, hn, hhead, hknown, hattempt⟩, ?_⟩
    simp only [left, hpc]
    omega
  | interrupted hpc =>
    rw [hpc] at hp
    obtain ⟨hsent, rfl, hhead, hknown, hattempt⟩ := hp
    refine ⟨⟨offs, hsent, rfl, hhead.ends rfl nofun⟩, ?_⟩
    simp only [left, hpc]
    omega
  | @reported offset knownTotal done hpc =>
    rw [hpc] at hp
    obtain ⟨hsent, rfl, hreport, rfl, rfl⟩ := hp
    exact Paced.reported hreport hsent hpc
  | joined hpc =>
    rw [hpc] at hp
    obtain ⟨hsent, hn, hclimbs, hcount⟩ := hp
    refine ⟨⟨offs, hsent, hn, hclimbs, hcount, rfl, nofun⟩, ?_⟩
    simp only [left, hpc]
    omega
  | concluded hpc =>
    rw [hpc] at hp
    obtain ⟨hsent, hn, hend⟩ := hp
    refine ⟨⟨offs, _, by rw [hsent], hn, hend⟩, ?_⟩
    simp only [left, hpc]
    omega

/-- **A run** from where it was prepared: its shape, and its length. -/
theorem Paced.run {acts : List (DriveAct A B)} (hk : Paces ex fair total r.inner r.startOffset) (hT : total T)
    (hp : r.Paced P T 0) (hacts : ∀ a ∈ acts, fair a) (h : Lts.run (Drive.step ex) r acts = some r') :
    r'.Paced P T (Lts.tally (Drive.step ex) (succeeds ex) r acts) ∧ r'.inner = r.inner ∧
      r'.left T + acts.length ≤ r.left T := by
  have hmeets : Lts.Meets (Drive.step ex) (fun _ a => fair a) r acts := Lts.Meets.of_forall fun a ha _ => hacts a ha
  -- the calls of every state are those of the same task
  have hstep (s : Drive L) (a : DriveAct A B) (s' : Drive L) (n : Nat)
      (hs : s.Paced P T n ∧ s.inner = r.inner ∧ s.startOffset = r.startOffset) (ha : fair a)
      (hstep : s.step ex a = some s') :
      (s'.Paced P T (n + if s.succeeds ex a = true then 1 else 0) ∧ s'.inner = r.inner ∧
        s'.startOffset = r.startOffset) ∧ s'.left T + 1 ≤ s.left T := by
    obtain ⟨hs, hinner, hstart⟩ := hs
    obtain ⟨hs', hleft⟩ := hs.step (by rwa [hinner, hstart]) hT ha hstep
    obtain ⟨hinner', hstart'⟩ := step_task hstep
    exact ⟨⟨hs', hinner'.trans hinner, hstart'.trans hstart⟩, hleft⟩
  have hshape := Lts.run_tally
    (I := fun s n => s.Paced P T n ∧ s.inner = r.inner ∧ s.startOffset = r.startOffset)
    (fun s a s' n hs ha h => (hstep s a s' n hs ha h).1) ⟨hp, rfl, rfl⟩ hmeets h
  have hlength := Lts.run_potential_of_meets (p := fun _ => true) (f := left T)
    (I := fun s => ∃ n, s.Paced P T n ∧ s.inner = r.inner ∧ s.startOffset = r.startOffset)
    (fun s a s' ⟨n, hs⟩ ha h => ⟨⟨_, (hstep s a s' n hs ha h).1⟩, (hstep s a s' n hs ha h).2⟩)
    ⟨0, hp, rfl, rfl⟩ hmeets h
  rw [Nat.zero_add] at hshape
  refine ⟨hshape.1, hshape.2.1, ?_⟩
  simpa using hlength.2

end Drive

/-! ## Every run -/

/-- What a run has sent that was prepared at `P` of `T`: reports whose offsets climb, and at its end one
terminal event; `Completed` only after a report of `T` or more. -/
def Announced (P T : Nat) (r : Drive L) : Prop :=
  ∃ (offs : List Nat) (last : Option WorkerEvent), r.sent = reports r.inner.dedupeKey T offs ++ last.toList ∧
    Climbs P T offs ∧ (last.isSome ↔ r.pc = .ended) ∧ ∀ event ∈ last, AtEnd P T offs event

/-- What is left of a run after a call that has failed for good. -/
def Failure.left : Failure → Nat
  | .err _ => 1
  | .panic _ => 2

/-- **A worker's runs are well formed and end.** -/
structure WellFormed (ex : TransferTrait L A B) (fair : DriveAct A B → Prop) (r : Drive L) : Prop where
  /-- It is never stuck before it has ended, whatever its executor returns. -/
  next : ∀ acts s, Lts.run (Drive.step ex) r acts = some s → s.pc ≠ .ended → ∀ a b, ∃ act s',
    (act = .prepare a ∨ act = .chunk b ∨ ∃ input, act = .worker input) ∧ s.step ex act = some s'
  /-- It begins with `prepare`. -/
  begins : ∀ act acts s, Lts.run (Drive.step ex) r (act :: acts) = some s → ∃ a, act = .prepare a
  /-- Where that fails, it sends `Failed` and ends; the wrapper awaits a panic first. -/
  unprepared : ∀ a acts s e loc, ex.prepare r.inner r.startOffset a r.loc = (.error e, loc) →
    Lts.run (Drive.step ex) r (.prepare a :: acts) = some s →
      acts.length ≤ e.left ∧
        ((s.pc = .joining ∨ ∃ err, s.pc = .finish (.failed r.inner.dedupeKey err)) ∧ s.sent = [] ∨
          s.pc = .ended ∧ ∃ err, s.sent = [.failed r.inner.dedupeKey err])
  /-- Otherwise it has made so many steps, and so many calls that succeeded. -/
  prepared : ∀ a acts s outcome loc, ex.prepare r.inner r.startOffset a r.loc = (.ok outcome, loc) →
    (∀ act ∈ acts, fair act) → Lts.run (Drive.step ex) r (.prepare a :: acts) = some s →
      Announced outcome.nextOffset (runTotal r.inner outcome) s ∧
        Lts.tally (Drive.step ex) (Drive.succeeds ex) r (.prepare a :: acts) ≤
          max 1 (runTotal r.inner outcome - outcome.nextOffset) ∧
        acts.length ≤ (3 * r.inner.maxChunkRetries + 4) *
          max 1 (runTotal r.inner outcome - outcome.nextOffset) + 1
  /-- `Canceled` is sent only if a step has seen the token cancelled. -/
  canceled : ∀ acts s key, Lts.run (Drive.step ex) r acts = some s → .canceled key ∈ s.sent →
    ∃ input, .worker input ∈ acts ∧ ¬ input.Sees false

section
variable {ex : TransferTrait L A B} {fair : DriveAct A B → Prop} {total : Nat → Prop} {P T n : Nat}
  {r r' : Drive L}

/-- Has not been cancelled, and is not about to report that. -/
def Drive.Uncanceled (r : Drive L) : Prop :=
  ∀ key, .canceled key ∉ r.sent ∧ r.pc ≠ .finish (.canceled key)

/-- A step that sees an open token. -/
theorem Drive.Uncanceled.step {a : DriveAct A B} (hr : r.Uncanceled)
    (ha : ∀ input, a = .worker input → input.Sees false) (h : r.step ex a = some r') : r'.Uncanceled := by
  intro key
  obtain ⟨hsent, hpc⟩ := hr key
  cases step_moves h with
  | prepared hp hcall =>
    refine ⟨hsent, ?_⟩
    rename_i ret loc
    rcases ret with (err | msg) | outcome <;> simp [afterPrepare]
  | entered | attempted | slept => exact ⟨hsent, by simp⟩
  | halted | quit | interrupted => exact absurd (ha _ rfl) (by simp [RunIn.Sees])
  | called hp hcall =>
    refine ⟨hsent, ?_⟩
    rename_i ret loc
    rcases ret with (err | msg) | outcome
    · simp only [Retry.afterCall]
      split <;> simp [afterRetry]
    · simp [Retry.afterCall, afterRetry]
    · simp [Retry.afterCall, afterRetry]
  | reported hp =>
    refine ⟨by simpa using hsent, ?_⟩
    split <;> simp
  | joined => exact ⟨hsent, by simp⟩
  | concluded hp =>
    refine ⟨?_, by simp⟩
    rw [List.mem_append, List.mem_singleton, not_or]
    refine ⟨hsent, fun heq => hpc ?_⟩
    rw [hp, heq]

theorem canceled_sees {acts : List (DriveAct A B)} {key : UniqueId} (hr : r.Uncanceled)
    (h : Lts.run (Drive.step ex) r acts = some r') (hmem : .canceled key ∈ r'.sent) :
    ∃ input, .worker input ∈ acts ∧ ¬ input.Sees false := by
  by_contra hopen
  have hr' := Lts.run_invariant_of_meets (I := Drive.Uncanceled)
    (C := fun _ (a : DriveAct A B) => ∀ input, a = .worker input → input.Sees false)
    (fun s a s' hs ha hstep => hs.step ha hstep) hr
    (Lts.Meets.of_forall fun a ha _ input heq => by
      by_contra hsees
      exact hopen ⟨input, heq ▸ ha, hsees⟩) h
  exact (hr' key).1 hmem

theorem Drive.finish_run {event : WorkerEvent} {acts : List (DriveAct A B)} (hpc : r.pc = .finish event)
    (h : Lts.run (Drive.step ex) r acts = some r') :
    acts = [] ∧ r' = r ∨ acts.length = 1 ∧ r' = { r with pc := .ended, sent := r.sent ++ [event] } := by
  cases acts with
  | nil =>
    cases h
    exact .inl ⟨rfl, rfl⟩
  | cons a acts =>
    obtain ⟨r1, h1, hrest⟩ := Lts.run_cons.1 h
    cases step_moves h1 with
    | concluded hp =>
      rw [hpc] at hp
      cases hp
      cases acts with
      | nil =>
        cases hrest
        exact .inr ⟨rfl, rfl⟩
      | cons a' acts =>
        -- nothing follows the end
        obtain ⟨r2, h2, -⟩ := Lts.run_cons.1 hrest
        cases step_moves h2 with
        | prepared hp | entered hp | halted hp | attempted hp | quit hp | called hp | slept hp | interrupted hp
          | reported hp | joined hp | concluded hp => cases hp
    | prepared hp | entered hp | halted hp | attempted hp | quit hp | called hp | slept hp | interrupted hp
      | reported hp | joined hp =>
      rw [hpc] at hp
      cases hp

/-- A panic is awaited before it is reported. -/
theorem Drive.joining_run {acts : List (DriveAct A B)} (hpc : r.pc = .joining)
    (h : Lts.run (Drive.step ex) r acts = some r') :
    acts.length ≤ 2 ∧
      ((r'.pc = .joining ∨ ∃ err, r'.pc = .finish (.failed r.inner.dedupeKey err)) ∧ r'.sent = r.sent ∨
        r'.pc = .ended ∧ ∃ err, r'.sent = r.sent ++ [.failed r.inner.dedupeKey err]) := by
  cases acts with
  | nil =>
    cases h
    exact ⟨Nat.zero_le _, .inl ⟨.inl hpc, rfl⟩⟩
  | cons a acts =>
    obtain ⟨r1, h1, hrest⟩ := Lts.run_cons.1 h
    cases step_moves h1 with
    | joined =>
      obtain ⟨rfl, rfl⟩ | ⟨hlength, rfl⟩ := Drive.finish_run rfl hrest
      · exact ⟨by simp, .inl ⟨.inr ⟨_, rfl⟩, rfl⟩⟩
      · exact ⟨by simp [hlength], .inr ⟨rfl, _, rfl⟩⟩
    | prepared hp | entered hp | halted hp | attempted hp | quit hp | called hp | slept hp | interrupted hp
      | reported hp | concluded hp =>
      rw [hpc] at hp
      cases hp

/-- What a paced run has sent. -/
theorem Drive.Paced.told (hp : r.Paced P T n) : Announced P T r ∧ n ≤ max 1 (T - P) := by
  obtain ⟨offs, hp⟩ := hp
  cases hpc : r.pc with
  | preparing =>
    rw [hpc] at hp
    exact hp.elim
  | loopHead offset knownTotal =>
    rw [hpc] at hp
    obtain ⟨hsent, rfl, hhead, -⟩ := hp
    exact ⟨⟨offs, none, by simp [hsent], .inl hhead.climbs, by simp [hpc], nofun⟩, hhead.count_le⟩
  | retry offset knownTotal rpc =>
    rw [hpc] at hp
    obtain ⟨hsent, rfl, hhead, -⟩ := hp
    exact ⟨⟨offs, none, by simp [hsent], .inl hhead.climbs, by simp [hpc], nofun⟩, hhead.count_le⟩
  | report offset knownTotal done =>
    rw [hpc] at hp
    obtain ⟨hsent, rfl, hreport, -⟩ := hp
    exact ⟨⟨offs, none, by simp [hsent], hreport.before, by simp [hpc], nofun⟩, hreport.count⟩
  | joining =>
    rw [hpc] at hp
    obtain ⟨hsent, rfl, hclimbs, hcount⟩ := hp
    exact ⟨⟨offs, none, by simp [hsent], hclimbs, by simp [hpc], nofun⟩, hcount⟩
  | finish event =>
    rw [hpc] at hp
    obtain ⟨hsent, rfl, hclimbs, hcount, -⟩ := hp
    exact ⟨⟨offs, none, by simp [hsent], hclimbs, by simp [hpc], nofun⟩, hcount⟩
  | ended =>
    rw [hpc] at hp
    obtain ⟨event, hsent, rfl, hclimbs, hcount, hend⟩ := hp
    refine ⟨⟨offs, some event, by simp [hsent], hclimbs, by simp [hpc], fun e he => ?_⟩, hcount⟩
    cases he
    exact hend

/-- **Every executor that gets ahead** makes for well-formed runs that end. -/
theorem Paces.wellFormed (hk : Paces ex fair total r.inner r.startOffset) (hpc : r.pc = .preparing)
    (hsent : r.sent = []) : WellFormed ex fair r := by
  have hfirst {a : A} {acts : List (DriveAct A B)} {s : Drive L} {ret : Ret PrepareOutcome} {loc : L}
      (hcall : ex.prepare r.inner r.startOffset a r.loc = (ret, loc))
      (h : Lts.run (Drive.step ex) r (.prepare a :: acts) = some s) :
      ∃ r1 : Drive L, r1 = { r with pc := afterPrepare r.inner.dedupeKey r.inner ret, loc := loc } ∧
        r.step ex (.prepare a) = some r1 ∧ Lts.run (Drive.step ex) r1 acts = some s := by
    obtain ⟨r1, h1, hrest⟩ := Lts.run_cons.1 h
    cases Drive.step_moves h1 with
    | prepared hp hcall' =>
      rw [hcall] at hcall'
      cases hcall'
      exact ⟨_, rfl, h1, hrest⟩
  refine ⟨fun acts s h hne a b => ?_, fun act acts s h => ?_, fun a acts s e loc hcall h => ?_,
    fun a acts s outcome loc hcall hacts h => ?_, fun acts s key h hmem => ?_⟩
  · obtain ⟨act, s', hstep, hact⟩ := Drive.exists_step ex hne a b
    refine ⟨act, s', ?_, hstep⟩
    rcases hact with ⟨rfl, -⟩ | rfl | ⟨input, rfl, -⟩
    · exact .inl rfl
    · exact .inr (.inl rfl)
    · exact .inr (.inr ⟨input, rfl⟩)
  · obtain ⟨r1, h1, -⟩ := Lts.run_cons.1 h
    cases Drive.step_moves h1 with
    | prepared => exact ⟨_, rfl⟩
    | entered hp | halted hp | attempted hp | quit hp | called hp | slept hp | interrupted hp | reported hp
      | joined hp | concluded hp =>
      rw [hpc] at hp
      cases hp
  · obtain ⟨r1, rfl, -, hrest⟩ := hfirst hcall h
    cases e with
    | err err =>
      obtain ⟨rfl, rfl⟩ | ⟨hlength, rfl⟩ := Drive.finish_run rfl hrest
      · exact ⟨by simp, .inl ⟨.inr ⟨err, rfl⟩, hsent⟩⟩
      · exact ⟨hlength.le, .inr ⟨rfl, err, by simp [hsent]⟩⟩
    | panic msg =>
      obtain ⟨hlength, hend⟩ := Drive.joining_run rfl hrest
      rw [hsent] at hend
      exact ⟨hlength, hend⟩
  · obtain ⟨r1, hr1, h1, hrest⟩ := hfirst hcall h
    obtain ⟨htotal, hle⟩ := hk.prepare a r.loc outcome loc hcall
    generalize hT : runTotal r.inner outcome = T at *
    have hk1 : Paces ex fair total r1.inner r1.startOffset := by
      rw [hr1]
      exact hk
    have hstart : r1.Paced outcome.nextOffset T 0 := by
      rw [hr1]
      refine ⟨[], hsent, rfl, ⟨List.pairwise_singleton _ _, by simp, by simp, ?_⟩, hT⟩
      omega
    have hfull : r1.left T =
        (3 * r.inner.maxChunkRetries + 4) * max 1 (T - outcome.nextOffset) + 1 := by
      have hmax : max 1 (T - outcome.nextOffset) = T - outcome.nextOffset - 1 + 1 := by omega
      rw [hr1, hmax, Nat.mul_succ]
      rfl
    obtain ⟨hpaced, -, hleft⟩ := hstart.run hk1 htotal hacts hrest
    obtain ⟨htold, hcount⟩ := hpaced.told
    refine ⟨htold, ?_, ?_⟩
    · rw [Lts.tally_cons h1]
      simpa [Drive.succeeds] using hcount
    · rw [← hfull]
      exact Nat.le_of_add_left_le hleft
  · exact canceled_sees (fun key => ⟨by simp [hsent], by simp [hpc]⟩) h hmem

end

end SpottedCat
