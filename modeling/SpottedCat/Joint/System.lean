import SpottedCat.Sched.Footprint
import SpottedCat.Worker.RunGroup

/-!
# Scheduler, workers and event channel together

`Sys` interleaves the loop of `worker_loop` with the `run_group` tasks it has spawned. Each worker
keeps its events that are still in the channel (`outbox`, oldest first): a delivery takes the oldest
event of some worker, so the channel is FIFO per worker and loses nothing. The one `mpsc` channel of
the source orders events of different workers too; every run of it is a run here.

A handler is one step. Workers do run during it, but they share only tokens and channel with the
loop, so a worker step taken meanwhile could as well be taken just before or just after it.

`Lockstep` is the induction rule of this system: an invariant is preserved by every step if it is by
the footprint of an iteration (`Footprint`), by the start of one worker, and by one worker step.
-/

namespace SpottedCat

/-- One spawned `run_group` with its panic wrapper. -/
structure Worker where
  key : UniqueId
  inner : InnerTask
  cancel : CancellationToken
  startOffset : Nat
  pc : RunPc
  outbox : List WorkerEvent
deriving DecidableEq, Repr

structure Pool where
  /-- In the order of their start. -/
  workers : List Worker
  /-- Every event sent so far, with the task id of its worker, oldest first. -/
  sent : List (TaskId × WorkerEvent)
  cancelled : Finset CancellationToken

structure Sys where
  loop : Loop
  pool : Pool

def Sys.init (maxUpload maxDownload : Nat) : Sys := ⟨.init maxUpload maxDownload, ⟨[], [], ∅⟩⟩

/-- exec.rs:93 -/
def Effect.spawned : Effect → Option Worker
  | .spawn key inner token offset => some ⟨key, inner, token, offset, .preparing, []⟩
  | _ => none

def Effect.cancelled : Effect → Option CancellationToken
  | .cancel token => some token
  | _ => none

namespace Pool

/-- What the scheduler's effects do to the workers. -/
def absorb (pool : Pool) (es : List Effect) : Pool :=
  { pool with
    workers := pool.workers ++ es.filterMap Effect.spawned
    cancelled := pool.cancelled ∪ (es.filterMap Effect.cancelled).toFinset }

def spawn (pool : Pool) (worker : Worker) : Pool :=
  { pool with workers := pool.workers ++ [worker] }

/-- The oldest event of worker `i` leaves the channel. -/
def take (pool : Pool) (i : Nat) : Option (WorkerEvent × Pool) :=
  match pool.workers[i]? with
  | some w =>
    match w.outbox with
    | event :: rest => some (event, { pool with workers := pool.workers.set i { w with outbox := rest } })
    | [] => none
  | none => none

/-- One step of worker `i`. -/
def work (pool : Pool) (i : Nat) (input : RunIn) : Option Pool :=
  match pool.workers[i]? with
  | some w =>
    if input.Sees (w.cancel ∈ pool.cancelled) then
      (runStep w.key w.inner w.pc input).map fun (pc, out) =>
        { pool with
          workers := pool.workers.set i { w with pc := pc, outbox := w.outbox ++ out.toList }
          sent := pool.sent ++ out.toList.map fun event => (w.inner.taskId, event) }
    else none
  | none => none

end Pool

inductive Act where
  | cmd (c : TransferCmd)
  | listen (op : ListenerOp)
  /-- The loop handles the oldest event of worker `i`. -/
  | deliver (i : Nat)
  | work (i : Nat) (input : RunIn)
deriving DecidableEq, Repr

/-- One iteration of the loop. -/
def Sys.feed (loop : Loop) (pool : Pool) (input : LoopInput) : Option Sys :=
  (loop.step input).map fun loop' => ⟨loop', pool.absorb (react loop.state input).2⟩

/-- What an action gives the loop to handle, and the pool without it. -/
def Sys.intake (sys : Sys) : Act → Option (LoopInput × Pool)
  | .cmd c => some (.cmd c, sys.pool)
  | .listen op => some (.listen op, sys.pool)
  | .deliver i => (sys.pool.take i).map fun (event, pool) => (.event event, pool)
  | .work .. => none

def Sys.step (sys : Sys) (act : Act) : Option Sys :=
  match act with
  | .work i input => (sys.pool.work i input).map fun pool => ⟨sys.loop, pool⟩
  | _ => (sys.intake act).bind fun (input, pool) => Sys.feed sys.loop pool input

def Sys.Reachable (sys : Sys) : Prop :=
  ∃ maxUpload maxDownload acts, Lts.run Sys.step (.init maxUpload maxDownload) acts = some sys

/-- Ended, and none of its events is in the channel. -/
def Worker.Settled (w : Worker) : Prop := w.pc = .ended ∧ w.outbox = []

instance (w : Worker) : Decidable w.Settled := inferInstanceAs (Decidable (_ ∧ _))

theorem Worker.not_settled {w : Worker} {event : WorkerEvent} {rest : List WorkerEvent}
    (hout : w.outbox = event :: rest) : ¬ w.Settled := by
  intro hs
  rw [hs.2] at hout
  cases hout

/-! ## The pool -/

theorem NoSpawn.spawned {es : List Effect} (h : NoSpawn es) {e : Effect} (he : e ∈ es) : e.spawned = none := by
  cases e with
  | spawn key inner cancel offset => exact absurd rfl (h _ he key inner cancel offset)
  | _ => rfl

/-- Telling a status neither starts nor cancels a worker. -/
theorem emitStatus_silent {s : SchedulerState} {entry : RecordEntry} {status : TransferStatus} {transferred total : Nat}
    {e : Effect} (he : e ∈ emitStatus s entry status transferred total) : e.spawned = none ∧ e.cancelled = none := by
  have hrecord := mem_emitStatus he
  cases e with
  | spawn | cancel => cases hrecord
  | _ => exact ⟨rfl, rfl⟩

namespace Pool

theorem absorb_append (pool : Pool) (es es' : List Effect) :
    pool.absorb (es ++ es') = (pool.absorb es).absorb es' := by
  simp [absorb, List.filterMap_append, List.append_assoc, Finset.union_assoc]

theorem absorb_noSpawn {es : List Effect} (pool : Pool) (h : NoSpawn es) :
    (pool.absorb es).workers = pool.workers := by
  have hnone : es.filterMap Effect.spawned = [] := List.filterMap_eq_nil_iff.2 fun _ he => h.spawned he
  simp [absorb, hnone]

/-- A started key spawns one worker, for the leader of its group. -/
theorem absorb_startEffects (pool : Pool) (s : SchedulerState) (key : UniqueId) (group : GroupState) :
    pool.absorb (startEffects s key group) =
      pool.spawn ⟨key, group.leaderInner, ⟨s.nextToken⟩, s.current key, .preparing, []⟩ := by
  have hsilent : ∀ e ∈ emitStatus s group.entry .transmission (s.current key)
      group.entry.inner.totalSize, e.spawned = none ∧ e.cancelled = none := fun _ he => emitStatus_silent he
  have h1 := List.filterMap_eq_nil_iff.2 fun e he => (hsilent e he).1
  have h2 := List.filterMap_eq_nil_iff.2 fun e he => (hsilent e he).2
  have h3 : [Effect.spawn key group.leaderInner ⟨s.nextToken⟩ (s.current key)].filterMap
      Effect.cancelled = [] := rfl
  simp only [absorb, startEffects, List.filterMap_append, h1, h2, h3, List.nil_append, spawn,
    List.toFinset_nil, Finset.union_empty]
  rfl

theorem take_eq_some {pool pool' : Pool} {i : Nat} {event : WorkerEvent} :
    pool.take i = some (event, pool') ↔ ∃ w rest, pool.workers[i]? = some w ∧
      w.outbox = event :: rest ∧
      pool' = { pool with workers := pool.workers.set i { w with outbox := rest } } := by
  unfold take
  cases pool.workers[i]? with
  | none => simp
  | some w => cases hw : w.outbox <;> simp [eq_comm, hw, and_assoc]

theorem work_eq_some {pool pool' : Pool} {i : Nat} {input : RunIn} :
    pool.work i input = some pool' ↔ ∃ w pc out, pool.workers[i]? = some w ∧
      input.Sees (w.cancel ∈ pool.cancelled) ∧ runStep w.key w.inner w.pc input = some (pc, out) ∧
      pool' = { pool with
        workers := pool.workers.set i { w with pc := pc, outbox := w.outbox ++ out.toList }
        sent := pool.sent ++ out.toList.map fun event => (w.inner.taskId, event) } := by
  unfold work
  cases pool.workers[i]? with
  | none => simp
  | some w =>
    simp only [Option.some.injEq]
    by_cases hs : input.Sees (w.cancel ∈ pool.cancelled)
    · simp only [hs, ↓reduceIte, Option.map_eq_some_iff, Prod.exists]
      constructor
      · rintro ⟨pc, out, hr, rfl⟩; exact ⟨w, pc, out, rfl, hs, hr, rfl⟩
      · rintro ⟨w', pc, out, rfl, _, hr, rfl⟩; exact ⟨pc, out, hr, rfl⟩
    · simp only [hs, ↓reduceIte, reduceCtorEq, false_iff]
      rintro ⟨w', pc, out, rfl, hs', _⟩; exact hs hs'

end Pool

/-- **A step** is an iteration of the loop or a step of one worker. -/
theorem Sys.step_cases {sys sys' : Sys} {act : Act} (h : sys.step act = some sys') :
    (∃ input pool, sys.intake act = some (input, pool) ∧ Sys.feed sys.loop pool input = some sys') ∨
      ∃ i input pool, act = .work i input ∧ sys.pool.work i input = some pool ∧
        sys' = ⟨sys.loop, pool⟩ := by
  cases act with
  | work i input =>
    obtain ⟨pool, hwork, rfl⟩ := Option.map_eq_some_iff.1 h
    exact .inr ⟨i, input, pool, rfl, hwork, rfl⟩
  | cmd | listen | deliver =>
    simp only [Sys.step, Option.bind_eq_some_iff] at h
    obtain ⟨⟨input, pool⟩, hin, hfeed⟩ := h
    exact .inl ⟨input, pool, hin, hfeed⟩

theorem Sys.feed_eq_some {loop : Loop} {pool : Pool} {input : LoopInput} {sys' : Sys} :
    Sys.feed loop pool input = some sys' ↔ loop.step input = some sys'.loop ∧
      sys'.pool = pool.absorb (react loop.state input).2 := by
  simp only [Sys.feed, Option.map_eq_some_iff]
  constructor
  · rintro ⟨loop', hs, rfl⟩; exact ⟨hs, rfl⟩
  · rintro ⟨hs, hp⟩; exact ⟨_, hs, by rw [← hp]⟩

/-! ## The induction rule -/

/-- The scheduler changes nothing that couples it with its workers. -/
structure SameTables (s s' : SchedulerState) : Prop where
  groups : s'.groups = s.groups
  active : s'.active = s.active
  offsets : s'.offsets = s.offsets
  nextToken : s'.nextToken = s.nextToken
  limits : ∀ d, s'.maxConcurrency d = s.maxConcurrency d

/-- What `try_start_next` needs of an invariant of issued ids, scheduler and pool. The token set of
the pool and the queue, pause marks and listeners of the scheduler are free. -/
structure Starts (I : List TaskId → SchedulerState → Pool → Prop) : Prop where
  frame : ∀ {ids ids' : List TaskId} {s s' : SchedulerState} {pool pool' : Pool}, I ids s pool →
    ids ⊆ ids' → SameTables s s' → pool'.workers = pool.workers → pool'.sent = pool.sent →
    I ids' s' pool'
  start : ∀ {ids : List TaskId} {s : SchedulerState} {pool : Pool} {key : UniqueId}
    {group : GroupState}, Loose s → I ids s pool → key ∉ s.active →
    s.groups.lookup key = some group → s.activeCount key.1 < s.maxConcurrency key.1 →
    I ids (s.activate key)
      (pool.spawn ⟨key, group.leaderInner, ⟨s.nextToken⟩, s.current key, .preparing, []⟩)

/-- The part of a footprint every input shares. -/
structure SameLimits (s s' : SchedulerState) : Prop where
  nextToken : s'.nextToken = s.nextToken
  limits : ∀ d, s'.maxConcurrency d = s.maxConcurrency d

/-- What the loop's part of a run needs of an invariant, in runs whose steps meet `C`. -/
structure Feeds (C : Sys → Act → Prop) (I : List TaskId → SchedulerState → Pool → Prop) : Prop
    extends Starts I where
  accept : ∀ {sys : Sys} {s' : SchedulerState} {inner : InnerTask} {callbacks : TaskCallbacks},
    I sys.loop.issued sys.loop.state sys.pool → C sys (.cmd (.enqueue inner callbacks)) →
    inner.taskId ∉ sys.loop.issued → sys.loop.state.groups.lookup inner.dedupeKey = none →
    s'.groups = sys.loop.state.groups.insert inner.dedupeKey ⟨inner, ⟨inner, callbacks⟩⟩ →
    s'.active = sys.loop.state.active → s'.offsets = sys.loop.state.offsets →
    SameLimits sys.loop.state s' → I (sys.loop.issued ++ [inner.taskId]) s' sys.pool
  cancel : ∀ {sys : Sys} {s' : SchedulerState} {taskId : TaskId} {key : UniqueId},
    I sys.loop.issued sys.loop.state sys.pool → C sys (.cmd (.cancel taskId)) →
    sys.loop.state.taskIdToDedupe.lookup taskId = some key →
    s'.groups = sys.loop.state.groups.erase key → s'.active = sys.loop.state.active.erase key →
    s'.offsets = sys.loop.state.offsets → SameLimits sys.loop.state s' →
    I sys.loop.issued s' sys.pool
  close : ∀ {sys : Sys} {s' : SchedulerState} {activeOrder groupOrder : List UniqueId},
    I sys.loop.issued sys.loop.state sys.pool → C sys (.cmd (.close activeOrder groupOrder)) →
    s'.groups = ∅ → s'.active = ∅ → s'.offsets = ∅ → SameLimits sys.loop.state s' →
    I sys.loop.issued s' sys.pool
  deliver : ∀ {ids : List TaskId} {s s' : SchedulerState} {pool pool' : Pool} {i : Nat}
    {event : WorkerEvent}, I ids s pool → pool.take i = some (event, pool') →
    Footprint s (.event event) s' → SameLimits s s' → I ids s' pool'

/-- **What has to be shown of an invariant**, in runs whose steps meet `C`. -/
structure Lockstep (C : Sys → Act → Prop) (I : List TaskId → SchedulerState → Pool → Prop) : Prop
    extends Feeds C I where
  work : ∀ {ids : List TaskId} {s : SchedulerState} {pool pool' : Pool} {i : Nat} {input : RunIn},
    I ids s pool → pool.work i input = some pool' → I ids s pool'

section
variable {C : Sys → Act → Prop} {I : List TaskId → SchedulerState → Pool → Prop}

theorem Starts.tryStartNext (h : Starts I) {ids : List TaskId} {s : SchedulerState} {pool : Pool}
    (hs : Loose s) (hi : I ids s pool) :
    I ids (tryStartNext s).state (pool.absorb (SpottedCat.tryStartNext s).effects) := by
  have habsorb : pool.absorb [] = pool := by simp [Pool.absorb]
  refine (tryStartNext_induct (P := fun st es => Loose st ∧ I ids st (pool.absorb es))
    ⟨hs, habsorb.symm ▸ hi⟩ ?_ ?_ ?_).2
  · rintro st es key rest ⟨hl, hi⟩ hq hd
    exact ⟨hl.dequeue hq hd,
      h.frame hi (List.Subset.refl _) ⟨rfl, rfl, rfl, rfl, fun _ => rfl⟩ rfl rfl⟩
  · rintro st es key rest ⟨hl, hi⟩ hq _
    exact ⟨hl.requeue hq, h.frame hi (List.Subset.refl _) ⟨rfl, rfl, rfl, rfl, fun _ => rfl⟩ rfl rfl⟩
  · rintro st es key rest group ⟨hl, hi⟩ hq ha hg hc
    refine ⟨hl.start hq (Finmap.mem_of_lookup_eq_some hg) hc, ?_⟩
    rw [Pool.absorb_append, Pool.absorb_startEffects]
    exact h.frame (h.start hl hi ha hg hc) (List.Subset.refl _) ⟨rfl, rfl, rfl, rfl, fun _ => rfl⟩
      rfl rfl

/-- **One iteration of the loop**, from the footprint of its input. -/
theorem Starts.feed (h : Starts I) {loop : Loop} {pool : Pool} {input : LoopInput} {sys' : Sys}
    (hl : LoopInv loop)
    (hfoot : ∀ s', Footprint loop.state input s' → SameLimits loop.state s' →
      I (loop.issued ++ input.issues) s' pool)
    (hs : Sys.feed loop pool input = some sys') :
    LoopInv sys'.loop ∧ I sys'.loop.issued sys'.loop.state sys'.pool := by
  obtain ⟨hstep, hpool⟩ := Sys.feed_eq_some.1 hs
  obtain ⟨_, harrives, hloop⟩ := Loop.step_eq_some.1 hstep
  refine ⟨hl.step hstep, ?_⟩
  rw [hpool, hloop]
  obtain ⟨x, hx, hreact⟩ := react_before loop.state input
  have hi : I (loop.issued ++ input.issues) x.1 (pool.absorb x.2) :=
    h.frame (hfoot _ hx.footprint ⟨hx.nextToken, hx.limits⟩) (List.Subset.refl _)
      ⟨rfl, rfl, rfl, rfl, fun _ => rfl⟩ (Pool.absorb_noSpawn pool hx.noSpawn) rfl
  rcases hreact with hr | hr
  · rw [hr]; exact hi
  · have hloose := hx.loose hl.inv fun inner callbacks he => hl.fresh harrives he
    rw [hr, thenStart, Pool.absorb_append]
    exact h.tryStartNext hloose hi

/-- What an action does before `try_start_next`. -/
theorem Feeds.intake (h : Feeds C I) {sys sys' : Sys} {act : Act} {input : LoopInput}
    {pool : Pool} (hi : I sys.loop.issued sys.loop.state sys.pool) (hc : C sys act)
    (hin : sys.intake act = some (input, pool)) (hs : Sys.feed sys.loop pool input = some sys')
    {s' : SchedulerState} (hf : Footprint sys.loop.state input s')
    (hlimits : SameLimits sys.loop.state s') : I (sys.loop.issued ++ input.issues) s' pool := by
  have hkeep : SameTables sys.loop.state s' → ∀ ids, I (sys.loop.issued ++ ids) s' sys.pool :=
    fun hsame ids => h.frame hi (List.subset_append_left _ _) hsame rfl rfl
  have hnil : input.issues = [] → I sys.loop.issued s' pool →
      I (sys.loop.issued ++ input.issues) s' pool := fun hn hi' => by rwa [hn, List.append_nil]
  cases act with
  | cmd c =>
    cases hin
    cases hf with
    | keep _ hg ha ho => exact hkeep ⟨hg, ha, ho, hlimits.nextToken, hlimits.limits⟩ _
    | accept inner callbacks hv hg ha ho =>
      have hfresh : inner.taskId ∉ sys.loop.issued :=
        (Loop.step_eq_some.1 (Sys.feed_eq_some.1 hs).1).2.1
      exact h.accept hi hc hfresh hv hg ha ho hlimits
    | cancel taskId key hfound hg ha ho => exact hnil rfl (h.cancel hi hc hfound hg ha ho hlimits)
    | close activeOrder groupOrder hg ha ho => exact hnil rfl (h.close hi hc hg ha ho hlimits)
  | listen op =>
    cases hin
    cases hf with
    | keep _ hg ha ho => exact hkeep ⟨hg, ha, ho, hlimits.nextToken, hlimits.limits⟩ _
  | deliver i =>
    obtain ⟨⟨event, pool⟩, htake, he⟩ := Option.map_eq_some_iff.1 hin
    cases he
    exact hnil rfl (h.deliver hi htake hf hlimits)
  | work i input => cases hin

/-- **One iteration of the loop.** -/
theorem Feeds.feed (h : Feeds C I) {sys sys' : Sys} {act : Act} {input : LoopInput} {pool : Pool}
    (hi : LoopInv sys.loop ∧ I sys.loop.issued sys.loop.state sys.pool) (hc : C sys act)
    (hin : sys.intake act = some (input, pool)) (hs : Sys.feed sys.loop pool input = some sys') :
    LoopInv sys'.loop ∧ I sys'.loop.issued sys'.loop.state sys'.pool :=
  h.toStarts.feed hi.1 (fun _ hf hlimits => h.intake hi.2 hc hin hs hf hlimits) hs

/-- **One step of the system.** -/
theorem Lockstep.step (h : Lockstep C I) {sys sys' : Sys} {act : Act}
    (hi : LoopInv sys.loop ∧ I sys.loop.issued sys.loop.state sys.pool) (hc : C sys act)
    (hs : sys.step act = some sys') :
    LoopInv sys'.loop ∧ I sys'.loop.issued sys'.loop.state sys'.pool := by
  obtain ⟨input, pool, hin, hfeed⟩ | ⟨i, input, pool, _, hwork, rfl⟩ := Sys.step_cases hs
  · exact h.toFeeds.feed hi hc hin hfeed
  · exact ⟨hi.1, h.work hi.2 hwork⟩

/-- **A whole run** whose steps meet the condition. -/
theorem Lockstep.run (h : Lockstep C I) {maxUpload maxDownload : Nat} {acts : List Act} {sys : Sys}
    (hinit : I [] (.new maxUpload maxDownload []) ⟨[], [], ∅⟩)
    (hrun : Lts.run Sys.step (.init maxUpload maxDownload) acts = some sys)
    (hmeets : Lts.Meets Sys.step C (.init maxUpload maxDownload) acts) :
    LoopInv sys.loop ∧ I sys.loop.issued sys.loop.state sys.pool :=
  Lts.run_invariant_of_meets (fun _ _ _ hi hc hs => h.step hi hc hs) ⟨.init maxUpload maxDownload, hinit⟩
    hmeets hrun

end

/-- **Refinement.** Forgetting the workers, a run of the system is a run of the loop, in which their
events are some of the arbitrary events that the loop accepts. -/
theorem Sys.run_loop {maxUpload maxDownload : Nat} {acts : List Act} {sys : Sys}
    (hrun : Lts.run Sys.step (.init maxUpload maxDownload) acts = some sys) :
    ∃ inputs, Lts.run Loop.step (.init maxUpload maxDownload) inputs = some sys.loop := by
  have hsim : ∀ (sys : Sys) (act : Act) (sys' : Sys) (loop : Loop), sys.loop = loop →
      sys.step act = some sys' →
      ∃ inputs loop', Lts.run Loop.step loop inputs = some loop' ∧ sys'.loop = loop' := by
    rintro sys act sys' _ rfl hs
    obtain ⟨input, pool, _, hfeed⟩ | ⟨i, input, pool, _, _, rfl⟩ := Sys.step_cases hs
    · exact ⟨[input], _, Lts.run_cons.2 ⟨_, (Sys.feed_eq_some.1 hfeed).1, rfl⟩, rfl⟩
    · exact ⟨[], _, rfl, rfl⟩
  obtain ⟨inputs, loop, hloop, hsame⟩ :=
    Lts.run_simulation (R := fun (sys : Sys) loop => sys.loop = loop) hsim rfl hrun
  exact ⟨inputs, hsame ▸ hloop⟩

/-- A command that the loop takes in is the action itself. -/
theorem Sys.intake_cmd {sys : Sys} {act : Act} {c : TransferCmd} {pool : Pool}
    (hin : sys.intake act = some (.cmd c, pool)) : act = .cmd c := by
  cases act with
  | work | listen => cases hin
  | cmd c' =>
    cases hin
    rfl
  | deliver i =>
    obtain ⟨m, _, he⟩ := Option.map_eq_some_iff.1 hin
    cases he

/-- The ids that an action issues. -/
def Act.issues : Act → List TaskId
  | .cmd (.enqueue inner _) => [inner.taskId]
  | _ => []

theorem Sys.step_issued {sys sys' : Sys} {act : Act} (hs : sys.step act = some sys') :
    sys'.loop.issued = sys.loop.issued ++ act.issues ∧ ∀ id ∈ act.issues, id ∉ sys.loop.issued := by
  obtain ⟨input, pool, hin, hfeed⟩ | ⟨i, input, pool, rfl, _, rfl⟩ := Sys.step_cases hs
  · have hissues : input.issues = act.issues := by
      cases act with
      | work => cases hin
      | listen => cases hin; rfl
      | cmd c => cases hin; cases c <;> rfl
      | deliver i =>
        obtain ⟨m, _, he⟩ := Option.map_eq_some_iff.1 hin
        cases he
        rfl
    obtain ⟨_, harrives, hloop⟩ := Loop.step_eq_some.1 (Sys.feed_eq_some.1 hfeed).1
    rw [hloop, ← hissues]
    exact ⟨rfl, harrives.fresh⟩
  · exact ⟨(List.append_nil _).symm, fun id hid => absurd hid List.not_mem_nil⟩

/-- No id is issued twice. -/
theorem Sys.run_issued {sys sys' : Sys} {acts : List Act} (hrun : Lts.run Sys.step sys acts = some sys') :
    sys'.loop.issued = sys.loop.issued ++ acts.flatMap Act.issues ∧
      ∀ id ∈ acts.flatMap Act.issues, id ∉ sys.loop.issued := by
  induction acts generalizing sys with
  | nil =>
    cases hrun
    exact ⟨(List.append_nil _).symm, fun id hid => absurd hid List.not_mem_nil⟩
  | cons act acts ih =>
    obtain ⟨sys1, hs, hrun⟩ := Lts.run_cons.1 hrun
    obtain ⟨hissued, hnew⟩ := Sys.step_issued hs
    obtain ⟨hissued', hnew'⟩ := ih hrun
    rw [List.flatMap_cons]
    refine ⟨by rw [hissued', hissued, List.append_assoc], fun id hid => ?_⟩
    rcases List.mem_append.1 hid with hid | hid
    · exact hnew id hid
    · intro hm
      exact hnew' id hid (hissued ▸ List.mem_append_left _ hm)

/-- A task makes progress, is paused, and its worker stops; for runs on fixed inputs. -/
def pauseAfterProgress : List Act :=
  [.cmd (sampleEnqueue 0), .work 0 (.prepared (.ok ⟨0, 8⟩)), .work 0 (.token false),
    .work 0 (.attempt (.token false)), .work 0 (.attempt (.chunk (.ok ⟨4, 8, false⟩))), .work 0 .sent,
    .deliver 0, .cmd (.pause ⟨0⟩), .work 0 (.token true), .work 0 .sent, .deliver 0]

end SpottedCat
