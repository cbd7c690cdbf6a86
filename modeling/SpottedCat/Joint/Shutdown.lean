import SpottedCat.Joint.Stops

/-!
# The workers after `Close`

`Close` cancels the tokens that are in `active` and leaves the loop (executor.rs:274-305). It does not wait for the
workers; each of them ends by itself when it next looks at its token. `close_stops_all` says that none is forgotten:
a worker that still runs at `Close` either holds the slot of a task, or has lost it to a `Cancel`, which has cancelled
its token (`Reined.told`). A worker that has lost its slot to another worker's late event would be neither; runs in
which an accepted `Enqueue` finds its key quiet have none (`Ownership.lean`).

`RunPc.rest` bounds what a cancelled worker still does: it returns from at most one call, and tells of it.
-/

namespace SpottedCat

/-- A worker that is not settled belongs to a task that is still there, or has been told to stop. -/
structure Reined (sys : Sys) : Prop where
  loop : LoopInv sys.loop
  owned : Owned Worker.Settled sys.loop.state sys.pool
  told : ∀ (i : Nat) (w : Worker), sys.pool.workers[i]? = some w → ¬ w.Settled →
    w.key ∈ sys.loop.state.groups ∨ w.cancel ∈ sys.pool.cancelled
  closed : sys.loop.closed = true → sys.loop.state.groups = ∅

/-! ## What an iteration takes from a task it also tells the worker -/

theorem react_cancel {s : SchedulerState} {taskId : TaskId} {key : UniqueId} {a : ActiveState}
    (hk : s.taskIdToDedupe.lookup taskId = some key) (ha : s.active.lookup key = some a) :
    .cancel a.cancel ∈ (react s (.cmd (.cancel taskId))).2 := by
  have hmem : .cancel a.cancel ∈ cancelActive s key := by
    simp only [cancelActive, ha, List.mem_singleton]
  simp only [react, handleCmd, hk, thenStart, cancelGroup, List.mem_append]
  exact .inl (.inl (.inl hmem))

theorem react_close {s : SchedulerState} {activeOrder groupOrder : List UniqueId} {key : UniqueId} {a : ActiveState}
    (hkey : key ∈ activeOrder) (ha : s.active.lookup key = some a) :
    .cancel a.cancel ∈ (react s (.cmd (.close activeOrder groupOrder))).2 := by
  have hmem : .cancel a.cancel ∈ cancelActive s key := by
    simp only [cancelActive, ha, List.mem_singleton]
  simp only [react, handleCmd, closeAll, List.mem_append, List.mem_flatMap]
  exact .inl (.inl ⟨key, hkey, hmem⟩)

/-- What is started has a group. -/
theorem tryStartNext_spawned {s : SchedulerState} : ∀ w ∈ (tryStartNext s).effects.filterMap Effect.spawned,
    w.key ∈ s.groups := by
  refine (tryStartNext_induct (P := fun st es => st.groups = s.groups ∧ ∀ w ∈ es.filterMap Effect.spawned,
    w.key ∈ s.groups) ⟨rfl, fun w hw => absurd hw List.not_mem_nil⟩ ?_ ?_ ?_).2
  · intro _ _ _ _ hes _ _
    exact hes
  · intro _ _ _ _ hes _ _
    exact hes
  · rintro st es key rest group ⟨hgroups, hes⟩ _ _ hg _
    refine ⟨hgroups, fun w hw => ?_⟩
    rw [List.filterMap_append] at hw
    rcases List.mem_append.1 hw with hw | hw
    · exact hes w hw
    obtain ⟨e, he, hspawned⟩ := List.mem_filterMap.1 hw
    rcases List.mem_append.1 he with he | he
    · rw [(emitStatus_silent he).1] at hspawned
      cases hspawned
    · rw [List.mem_singleton.1 he] at hspawned
      cases hspawned
      exact hgroups ▸ Finmap.mem_of_lookup_eq_some hg

theorem react_spawned {s : SchedulerState} {input : LoopInput} :
    ∀ w ∈ (react s input).2.filterMap Effect.spawned, w.key ∈ (react s input).1.groups := by
  intro w hw
  obtain ⟨x, hbefore, hreact⟩ := react_before s input
  have hnone : x.2.filterMap Effect.spawned = [] :=
    List.filterMap_eq_nil_iff.2 fun _ he => hbefore.noSpawn.spawned he
  rcases hreact with hr | hr
  · rw [hr, hnone] at hw
    cases hw
  · rw [hr, thenStart, List.filterMap_append, hnone, List.nil_append] at hw
    rw [hr, thenStart, (tryStartNext_same x.1).groups]
    exact tryStartNext_spawned w hw

/-! ## One step -/

/-- A worker of a task that is there before an input is told to stop when the input ends the task. -/
theorem Reined.kept {sys : Sys} {act : Act} {input : LoopInput} {pool : Pool} (h : Reined sys)
    (hin : sys.intake act = some (input, pool)) (harrives : input.Arrives sys.loop) {i : Nat} {w w' : Worker}
    (hw : sys.pool.workers[i]? = some w) (hs : ¬ w.Settled) (hw' : pool.workers[i]? = some w') (hs' : ¬ w'.Settled)
    (hg : w.key ∈ sys.loop.state.groups) :
    w.key ∈ (react sys.loop.state input).1.groups ∨ .cancel w.cancel ∈ (react sys.loop.state input).2 := by
  obtain ⟨g, hlookup⟩ := Finmap.mem_iff.1 hg
  have hslot := (h.owned.own i w g hw hs hlookup).1
  obtain ⟨x, hbefore, hreact⟩ := react_before sys.loop.state input
  have hgroups : (react sys.loop.state input).1.groups = x.1.groups := by
    rcases hreact with hr | hr
    · rw [hr]
    · rw [hr, thenStart]
      exact (tryStartNext_same x.1).groups
  rw [hgroups]
  have hfoot := hbefore.footprint
  generalize hx : x.1 = s' at hfoot
  cases hfoot with
  | keep _ groups _ _ | progress _ _ _ groups _ _ | stop _ _ groups _ _ => exact .inl (groups ▸ hg)
  | accept inner callbacks vacant groups _ _ =>
    left
    rw [groups]
    exact Finmap.mem_insert.2 (.inr hg)
  | cancel taskId key found groups _ _ =>
    by_cases hk : w.key = key
    · exact .inr (react_cancel found (hk ▸ hslot))
    · left
      rw [groups]
      exact Finmap.mem_erase.2 ⟨hk, hg⟩
  | close activeOrder groupOrder _ _ _ =>
    right
    have horder : activeOrder.toFinset = sys.loop.state.active.keys := harrives.1.2
    have hkey : w.key ∈ activeOrder := by
      rw [← List.mem_toFinset, horder]
      exact Finmap.mem_keys.2 (Finmap.mem_of_lookup_eq_some hslot)
    exact react_close hkey hslot
  | finish event terminal groups _ _ =>
    left
    rw [groups]
    refine Finmap.mem_erase.2 ⟨fun hk => ?_, hg⟩
    -- the event ends its sender, which is the only worker of the key
    cases act with
    | cmd | listen | work => cases hin
    | deliver j =>
      obtain ⟨⟨event', pool'⟩, htake, he⟩ := Option.map_eq_some_iff.1 hin
      cases he
      obtain ⟨sender, rest, hsender, hout, _⟩ := Pool.take_eq_some.1 htake
      have hbusy : ¬ sender.Settled := Worker.not_settled hout
      obtain ⟨w0, hw0, _, hkey, _⟩ := Pool.take_follows Passes.of_settled.take htake i w' hw' hs'
      cases hw.symm.trans hw0
      exact hs' (h.owned.past_of_last .of_settled htake hsender hbusy terminal hw' (hkey.trans hk))

theorem Sys.intake_follows {sys : Sys} {act : Act} {input : LoopInput} {pool : Pool}
    (hin : sys.intake act = some (input, pool)) : sys.pool.Follows Worker.Settled pool ∧
      pool.cancelled = sys.pool.cancelled := by
  cases act with
  | work => cases hin
  | cmd | listen =>
    cases hin
    exact ⟨.of_workers rfl, rfl⟩
  | deliver i =>
    obtain ⟨⟨event, pool'⟩, htake, he⟩ := Option.map_eq_some_iff.1 hin
    cases he
    refine ⟨Pool.take_follows Passes.of_settled.take htake, ?_⟩
    obtain ⟨_, _, _, _, rfl⟩ := Pool.take_eq_some.1 htake
    rfl

theorem Reined.step {sys sys' : Sys} {act : Act} (h : Reined sys) (hc : CleanEnqueue sys act)
    (hs : sys.step act = some sys') : Reined sys' := by
  obtain ⟨hloop, howned⟩ := (Owned.lockstep .of_settled).step ⟨h.loop, h.owned⟩ hc.finds hs
  rcases Sys.step_cases hs with ⟨input, pool, hin, hfeed⟩ | ⟨i, input, pool, rfl, hwork, rfl⟩
  · obtain ⟨hstep, hpool⟩ := Sys.feed_eq_some.1 hfeed
    obtain ⟨_, harrives, hnext⟩ := Loop.step_eq_some.1 hstep
    obtain ⟨hfollows, hcancelled⟩ := Sys.intake_follows hin
    refine ⟨hloop, howned, fun i w' hw' hs' => ?_, fun hclosed => ?_⟩
    · rw [hpool] at hw' ⊢
      rw [Pool.mem_absorb_cancelled, hnext]
      by_cases hi : i < pool.workers.length
      · simp only [Pool.absorb, List.getElem?_append_left hi] at hw'
        obtain ⟨w, hw, hsw, hkey, hcancel, _⟩ := hfollows i w' hw' hs'
        rw [hkey, hcancel, hcancelled]
        rcases h.told i w hw hsw with hg | hold
        · rcases h.kept hin harrives hw hsw hw' hs' hg with hstays | htold
          · exact .inl hstays
          · exact .inr (.inr htold)
        · exact .inr (.inl hold)
      · simp only [Pool.absorb, List.getElem?_append_right (Nat.le_of_not_lt hi)] at hw'
        exact .inl (react_spawned w' (List.mem_of_getElem? hw'))
    · rw [hnext] at hclosed ⊢
      cases input with
      | cmd cmd =>
        cases cmd with
        | close => rfl
        | _ => cases hclosed
      | _ => cases hclosed
  · refine ⟨hloop, howned, fun j w' hw' hs' => ?_, h.closed⟩
    obtain ⟨w, hw, hsw, hkey, hcancel, _⟩ := h.owned.toWired.work_follows Passes.of_settled.ended hwork j w' hw' hs'
    rw [hkey, hcancel]
    obtain ⟨_, _, _, _, _, _, rfl⟩ := Pool.work_eq_some.1 hwork
    exact h.told j w hw hsw

/-- **A whole run.** -/
theorem Reined.run {maxUpload maxDownload : Nat} {acts : List Act} {sys : Sys}
    (hrun : Lts.run Sys.step (.init maxUpload maxDownload) acts = some sys)
    (hclean : Lts.Meets Sys.step CleanEnqueue (.init maxUpload maxDownload) acts) : Reined sys := by
  refine Lts.run_invariant_of_meets (I := Reined) (fun _ _ _ h hc hs => h.step hc hs) ?_ hclean hrun
  exact ⟨.init maxUpload maxDownload, .init Worker.Settled maxUpload maxDownload, fun i w hw => (by cases hw),
    fun hclosed => (by cases hclosed)⟩

/-! ## What a cancelled worker still does -/

/-- The steps that are left to a worker whose token is cancelled. -/
def RunPc.rest : RunPc → Nat
  | .preparing => 3
  | .loopHead _ _ => 2
  | .retry _ _ (.head _) => 2
  | .retry _ _ (.calling _) => 4
  | .retry _ _ (.waiting _) => 3
  | .report _ _ _ => 3
  | .joining => 2
  | .finish _ => 1
  | .ended => 0

theorem RunPc.rest_le (pc : RunPc) : pc.rest ≤ 4 := by
  cases pc with
  | retry offset knownTotal pc => cases pc <;> simp [RunPc.rest]
  | _ => simp [RunPc.rest]

theorem afterRetry_rest {key : UniqueId} {offset knownTotal maxChunkRetries : Nat} {pc : RetryPc} {input : RetryIn}
    {out : RetryOut} (hstep : retryStep maxChunkRetries pc input = some out)
    (hsees : (RunIn.attempt input).Sees true) :
    (afterRetry key offset knownTotal out).rest < (RunPc.retry offset knownTotal pc).rest := by
  unfold retryStep at hstep
  split at hstep
  · cases hstep
    exact Nat.lt_succ_self 1
  · cases hsees
  · cases hstep
    exact Nat.lt_succ_self 3
  · split at hstep
    · cases hstep
      exact Nat.lt_of_sub_eq_succ rfl
    · cases hstep
      exact Nat.lt_succ_self 3
  · cases hstep
    exact Nat.lt_of_sub_eq_succ rfl
  · cases hstep
    exact Nat.lt_of_sub_eq_succ rfl
  · cases hstep
    exact Nat.lt_succ_self 2
  · cases hstep

/-- **Each step brings a cancelled worker closer to its end.** -/
theorem runStep_rest {key : UniqueId} {inner : InnerTask} {pc pc' : RunPc} {input : RunIn} {out : Option WorkerEvent}
    (hstep : runStep key inner pc input = some (pc', out)) (hsees : input.Sees true) : pc'.rest < pc.rest := by
  unfold runStep at hstep
  split at hstep
  · rename_i ret
    cases hstep
    cases ret with
    | ok outcome => exact Nat.lt_succ_self 2
    | error failure => cases failure <;> exact Nat.lt_of_sub_eq_succ rfl
  · cases hstep
    exact Nat.lt_succ_self 1
  · cases hsees
  · obtain ⟨retried, hretry, hout⟩ := Option.map_eq_some_iff.1 hstep
    cases hout
    exact afterRetry_rest hretry hsees
  · rename_i done
    cases hstep
    cases done <;> exact Nat.lt_of_sub_eq_succ rfl
  · cases hstep
    exact Nat.lt_succ_self 1
  · cases hstep
    exact Nat.lt_succ_self 0
  · cases hstep

/-- It can always take one. -/
theorem exists_runStep {pc : RunPc} (key : UniqueId) (inner : InnerTask) (hne : pc ≠ .ended) :
    ∃ input next, input.Sees true ∧ runStep key inner pc input = some next := by
  cases pc with
  | preparing => exact ⟨.prepared (.ok ⟨0, 0⟩), _, trivial, rfl⟩
  | loopHead => exact ⟨.token true, _, rfl, rfl⟩
  | retry offset knownTotal pc =>
    cases pc with
    | head => exact ⟨.attempt (.token true), _, rfl, rfl⟩
    | calling => exact ⟨.attempt (.chunk (.ok ⟨0, 0, true⟩)), _, trivial, rfl⟩
    | waiting => exact ⟨.attempt (.woken true), _, rfl, rfl⟩
  | report => exact ⟨.sent, _, trivial, rfl⟩
  | joining => exact ⟨.joined "", _, trivial, rfl⟩
  | finish => exact ⟨.sent, _, trivial, rfl⟩
  | ended => exact absurd rfl hne

/-! ## After `Close` -/

/-- The workers that have not ended. -/
def Pool.live (pool : Pool) : List Worker := pool.workers.filter fun w => w.pc ≠ .ended

theorem Pool.mem_live {pool : Pool} {w : Worker} : w ∈ pool.live ↔ w ∈ pool.workers ∧ w.pc ≠ .ended := by
  rw [Pool.live, List.mem_filter, decide_eq_true_eq]

def Pool.rest (pool : Pool) : Nat := (pool.workers.map fun w => w.pc.rest).sum

theorem Pool.rest_le (pool : Pool) : pool.rest ≤ 4 * pool.live.length := by
  obtain ⟨workers, sent, cancelled⟩ := pool
  simp only [Pool.rest, Pool.live]
  induction workers with
  | nil => exact Nat.le_refl 0
  | cons w ws ih =>
    rw [List.map_cons, List.sum_cons]
    by_cases hend : w.pc = .ended
    · rw [List.filter_cons_of_neg (by simp [hend])]
      have hzero : w.pc.rest = 0 := by
        rw [hend]
        rfl
      omega
    · rw [List.filter_cons_of_pos (by simp [hend]), List.length_cons]
      have := w.pc.rest_le
      omega

/-- The steps that are left to worker `i`. -/
def Pool.restOf (pool : Pool) (i : Nat) : Nat := (pool.workers[i]?.map fun w => w.pc.rest).getD 0

theorem Pool.restOf_le (pool : Pool) (i : Nat) : pool.restOf i ≤ 4 := by
  unfold Pool.restOf
  cases pool.workers[i]? with
  | none => exact Nat.zero_le 4
  | some w => exact w.pc.rest_le

/-- A step of worker `i`. -/
def Act.isWorkOf (i : Nat) : Act → Bool
  | .work j _ => j = i
  | _ => false

/-- The loop has ended, and whoever still works has been told to stop. -/
structure Ending (loop : Loop) (started : Nat) (sys : Sys) : Prop where
  same : sys.loop = loop
  closed : loop.closed = true
  started : sys.pool.workers.length = started
  told : ∀ w ∈ sys.pool.workers, w.pc ≠ .ended → w.cancel ∈ sys.pool.cancelled

theorem Reined.ending {sys : Sys} (h : Reined sys) (hclosed : sys.loop.closed = true) :
    Ending sys.loop sys.pool.workers.length sys := by
  refine ⟨rfl, hclosed, rfl, fun w hw hne => ?_⟩
  obtain ⟨i, hi⟩ := List.mem_iff_getElem?.1 hw
  rcases h.told i w hi fun hset => hne hset.1 with hg | hcancelled
  · rw [h.closed hclosed] at hg
    exact absurd hg Finmap.notMem_empty
  · exact hcancelled

/-- A step is one of a worker that has been told to stop, and brings it closer to its end. -/
theorem Ending.worker {loop : Loop} {started : Nat} {sys : Sys} {i : Nat} {input : RunIn} {pool : Pool}
    (h : Ending loop started sys) (hwork : sys.pool.work i input = some pool) :
    ∃ w w', sys.pool.workers[i]? = some w ∧ w.cancel ∈ sys.pool.cancelled ∧ w'.cancel = w.cancel ∧
      w'.pc.rest < w.pc.rest ∧ pool.workers = sys.pool.workers.set i w' ∧ pool.cancelled = sys.pool.cancelled := by
  obtain ⟨w, pc, out, hw, hsees, hrun, rfl⟩ := Pool.work_eq_some.1 hwork
  have hne : w.pc ≠ .ended := by
    intro hend
    rw [hend] at hrun
    cases hrun
  have hcancelled := h.told w (List.mem_of_getElem? hw) hne
  rw [decide_eq_true hcancelled] at hsees
  exact ⟨w, { w with pc := pc, outbox := w.outbox ++ out.toList }, hw, hcancelled, rfl, runStep_rest hrun hsees, rfl,
    rfl⟩

theorem Ending.work {loop : Loop} {started : Nat} {sys : Sys} {i : Nat} {input : RunIn} {pool : Pool}
    (h : Ending loop started sys) (hwork : sys.pool.work i input = some pool) :
    Ending loop started ⟨sys.loop, pool⟩ ∧ pool.rest + 1 ≤ sys.pool.rest ∧
      ∀ w, pool.workers[i]? = some w → w.pc.inChunk = false := by
  obtain ⟨w, w', hw, hcancelled, hcancel, hless, hset, htokens⟩ := h.worker hwork
  refine ⟨⟨h.same, h.closed, ?_, fun x hx hne => ?_⟩, ?_, Pool.work_inChunk hw hcancelled hwork⟩
  · rw [← h.started, hset]
    exact List.length_set
  · rw [hset] at hx
    rw [htokens]
    rcases List.mem_or_eq_of_mem_set hx with hx | rfl
    · exact h.told x hx hne
    · exact hcancel ▸ hcancelled
  · have hsum := Places.sum_set (b := w') (fun w => w.pc.rest) hw
    simp only [Pool.rest, hset]
    omega

/-- Its own steps come out of what is left to a worker, and no other step adds to that. -/
theorem Ending.work_restOf {loop : Loop} {started : Nat} {sys : Sys} {i : Nat} {input : RunIn} {pool : Pool}
    (h : Ending loop started sys) (hwork : sys.pool.work i input = some pool) (j : Nat) :
    pool.restOf j + (if (Act.work i input).isWorkOf j = true then 1 else 0) ≤ sys.pool.restOf j := by
  obtain ⟨w, w', hw, -, -, hless, hset, -⟩ := h.worker hwork
  unfold Pool.restOf
  by_cases hij : i = j
  · subst hij
    have hnew : (sys.pool.workers.set i w')[i]? = some w' :=
      List.getElem?_set_self (List.getElem?_eq_some_iff.1 hw).1
    simp only [hset, hnew, hw, Act.isWorkOf, decide_true, if_true, Option.map_some, Option.getD_some]
    exact hless
  · rw [hset, List.getElem?_set_ne hij]
    simp [Act.isWorkOf, hij]

/-- **Only workers move.** -/
theorem Ending.step {loop : Loop} {started : Nat} {sys sys' : Sys} {act : Act} (h : Ending loop started sys)
    (hs : sys.step act = some sys') : Ending loop started sys' ∧ sys'.pool.rest + 1 ≤ sys.pool.rest := by
  obtain ⟨input, pool, _, hfeed⟩ | ⟨i, input, pool, _, hwork, rfl⟩ := Sys.step_cases hs
  · have hopen := (Loop.step_eq_some.1 (Sys.feed_eq_some.1 hfeed).1).1
    rw [h.same, h.closed] at hopen
    cases hopen
  · obtain ⟨hending, hless, _⟩ := h.work hwork
    exact ⟨hending, hless⟩

theorem Ending.step_restOf {loop : Loop} {started : Nat} {sys sys' : Sys} {act : Act} (h : Ending loop started sys)
    (hs : sys.step act = some sys') (i : Nat) :
    sys'.pool.restOf i + (if act.isWorkOf i = true then 1 else 0) ≤ sys.pool.restOf i := by
  obtain ⟨input, pool, _, hfeed⟩ | ⟨j, input, pool, rfl, hwork, rfl⟩ := Sys.step_cases hs
  · have hopen := (Loop.step_eq_some.1 (Sys.feed_eq_some.1 hfeed).1).1
    rw [h.same, h.closed] at hopen
    cases hopen
  · exact h.work_restOf hwork i

theorem Ending.run {loop : Loop} {started : Nat} {sys sys' : Sys} {acts : List Act} (h : Ending loop started sys)
    (hrun : Lts.run Sys.step sys acts = some sys') :
    Ending loop started sys' ∧ sys'.pool.rest + acts.length ≤ sys.pool.rest := by
  have hpotential := Lts.run_potential (I := Ending loop started) (f := fun sys => sys.pool.rest) (p := fun _ => true)
    (fun _ _ _ h hs => h.step hs) h hrun
  rwa [List.countP_true] at hpotential

theorem Ending.length_le {loop : Loop} {started : Nat} {sys sys' : Sys} {acts : List Act} (h : Ending loop started sys)
    (hrun : Lts.run Sys.step sys acts = some sys') : acts.length ≤ 4 * sys.pool.live.length := by
  obtain ⟨_, hless⟩ := h.run hrun
  have := sys.pool.rest_le
  omega

theorem Ending.countP_le {loop : Loop} {started : Nat} {sys sys' : Sys} {acts : List Act}
    (h : Ending loop started sys) (hrun : Lts.run Sys.step sys acts = some sys') (i : Nat) :
    acts.countP (·.isWorkOf i) ≤ 4 := by
  obtain ⟨_, hless⟩ := Lts.run_potential (I := Ending loop started) (f := fun sys => sys.pool.restOf i)
    (p := (·.isWorkOf i)) (fun sys act sys' h hs => ⟨(h.step hs).1, h.step_restOf hs i⟩) h hrun
  have := sys.pool.restOf_le i
  omega

/-- Somebody who has not ended can go on. -/
theorem Ending.next {loop : Loop} {started : Nat} {sys : Sys} (h : Ending loop started sys)
    (hlive : sys.pool.live ≠ []) : ∃ act sys', sys.step act = some sys' := by
  obtain ⟨w, hw⟩ := List.exists_mem_of_ne_nil _ hlive
  obtain ⟨hw, hne⟩ := Pool.mem_live.1 hw
  obtain ⟨i, hi⟩ := List.mem_iff_getElem?.1 hw
  obtain ⟨input, ⟨pc, out⟩, hsees, hrun⟩ := exists_runStep w.key w.inner hne
  have hwork := Pool.work_eq_some.2 ⟨w, pc, out, hi, by rw [decide_eq_true (h.told w hw hne)]; exact hsees, hrun, rfl⟩
  exact ⟨.work i input, _, Option.map_eq_some_iff.2 ⟨_, hwork, rfl⟩⟩

/-- **Close stops all workers.** In a run whose accepted `Enqueue`s find their keys quiet, once `Close` has been handled
every worker that still runs has its token cancelled. Whatever happens from there on, the loop does and tells nothing
more, no worker is started, no step leads into `transfer_chunk`, and each worker takes four steps at most until it
has ended (`more` has no others, so four for each live worker); nothing keeps it from them. -/
theorem close_stops_all {maxUpload maxDownload : Nat} {acts : List Act} {sys : Sys}
    (hrun : Lts.run Sys.step (.init maxUpload maxDownload) acts = some sys)
    (hclean : Lts.Meets Sys.step CleanEnqueue (.init maxUpload maxDownload) acts) (hclosed : sys.loop.closed = true) :
    (∀ w ∈ sys.pool.live, w.cancel ∈ sys.pool.cancelled) ∧
      (∀ more sys', Lts.run Sys.step sys more = some sys' →
        sys'.loop = sys.loop ∧ sys'.pool.workers.length = sys.pool.workers.length ∧
        (∀ i, more.countP (·.isWorkOf i) ≤ 4) ∧ more.length ≤ 4 * sys.pool.live.length ∧
        (∀ i input pool, sys'.pool.work i input = some pool →
          ∀ w, pool.workers[i]? = some w → w.pc.inChunk = false) ∧
        ((∀ act, sys'.step act = none) → sys'.pool.live = [])) ∧
      ∃ more sys', Lts.run Sys.step sys more = some sys' ∧ sys'.pool.live = [] := by
  have hending := (Reined.run hrun hclean).ending hclosed
  refine ⟨fun w hw => ?_, fun more sys' hmore => ?_, ?_⟩
  · obtain ⟨hmem, hne⟩ := Pool.mem_live.1 hw
    exact hending.told w hmem hne
  · obtain ⟨hending', _⟩ := hending.run hmore
    refine ⟨hending'.same, hending'.started, hending.countP_le hmore, hending.length_le hmore,
      fun i input pool hwork => ?_, fun hstuck => ?_⟩
    · exact (hending'.work hwork).2.2
    · by_contra hlive
      obtain ⟨act, sys'', hs⟩ := hending'.next hlive
      rw [hstuck act] at hs
      cases hs
  · obtain ⟨more, sys', _, hmore, hdone⟩ := Lts.exists_run (P := fun _ => True)
      (D := fun sys' : Sys => sys'.pool.live = []) (fun more sys' _ hmore => hending.length_le hmore) fun more sys' _ hmore hlive => by
        obtain ⟨act, sys'', hs⟩ := (hending.run hmore).1.next hlive
        exact ⟨act, sys'', trivial, hs⟩
    exact ⟨more, sys', hmore, hdone⟩

/-- `Close` comes while the worker is inside `transfer_chunk`. -/
def closedInChunk : List Act :=
  [.cmd (sampleEnqueue 0), .work 0 (.prepared (.ok ⟨0, 8⟩)), .work 0 (.token false), .work 0 (.attempt (.token false)),
    .cmd (.close [(sampleTask 0).dedupeKey] [(sampleTask 0).dedupeKey])]

theorem close_stops_all_in_chunk : ∃ sys more sys', Lts.run Sys.step (.init 1 1) closedInChunk = some sys ∧
    sys.pool.live.length = 1 ∧ Lts.run Sys.step sys more = some sys' ∧ more.length ≤ 4 ∧ sys'.pool.live = [] := by
  have hrun : Lts.run Sys.step (.init 1 1) closedInChunk = some _ := Lts.run_final (by decide)
  obtain ⟨_, hmore, more, sys', hrun', hdone⟩ := close_stops_all hrun (by decide) (by decide)
  have hone : (Lts.final Sys.step (.init 1 1) closedInChunk).pool.live.length = 1 := by decide
  obtain ⟨_, _, _, hlength, _⟩ := hmore more sys' hrun'
  rw [hone] at hlength
  exact ⟨_, more, sys', hrun, hone, hrun', hlength, hdone⟩

end SpottedCat
