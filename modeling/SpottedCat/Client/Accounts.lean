import SpottedCat.Client.EnqueueClose
import SpottedCat.Joint.Ownership
import SpottedCat.Sched.Records

/-!
# Where the tasks of a client come from

Every task in a channel, in a group or with a worker of some scheduler has been handed in by an `enqueue` call whose
command the channel has accepted, and a callback is told something only if its call's was (`Accounted.run`). So a call
that fails, at whatever point, leaves nothing behind. Besides, no scheduler but the one in the executor cell is ever
sent anything (`Sole.run`). Neither depends on when `close` is called.

A scheduler that is sent nothing but `Enqueue` and `Close` has no race of cancel and re-enqueue: a worker that is not
settled still has its group (`Attached`), so an `Enqueue` that is accepted finds its key quiet. Hence no two live
workers of a client share a key, and a live worker of a key works on the task of its group (`live_once`,
`live_leader`).

| layer | what it says |
| --- | --- |
| `Within Q`            | groups and workers of one scheduler hold only pairs of a callback and a task in `Q` |
| `Scheduler.Within Q`  | so do its channel and its log |
| `Client.Accounted P`  | ... in the `Q` of the calls whose command was accepted, for a task that `P` gives them |
| `Sys.Tended`          | the workers of one scheduler have their groups, until it closes |
-/

namespace SpottedCat

/-! ## One scheduler -/

structure Within (Q : ProgressCb → InnerTask → Prop) (s : SchedulerState) (pool : Pool) : Prop where
  groups : ∀ key group, s.groups.lookup key = some group →
    ∃ cb, group.entry.callbacks.progressCb = some cb ∧ Q cb group.leaderInner
  workers : ∀ w ∈ pool.workers, ∃ cb, Q cb w.inner

/-- An `Enqueue` brings such a pair. -/
def TransferCmd.Within (Q : ProgressCb → InnerTask → Prop) : TransferCmd → Prop
  | .enqueue inner callbacks => ∃ cb, callbacks.progressCb = some cb ∧ Q cb inner
  | _ => True

def LoopInput.Within (Q : ProgressCb → InnerTask → Prop) : LoopInput → Prop
  | .cmd c => c.Within Q
  | _ => True

def Act.Within (Q : ProgressCb → InnerTask → Prop) : Act → Prop
  | .cmd c => c.Within Q
  | _ => True

section
variable {Q Q' : ProgressCb → InnerTask → Prop} {s s' : SchedulerState} {pool pool' : Pool} {cb : ProgressCb}
  {input : LoopInput}

theorem Within.mono (h : Within Q s pool) (hQ : ∀ cb inner, Q cb inner → Q' cb inner) : Within Q' s pool where
  groups key group hg := by
    obtain ⟨cb, hcb, hq⟩ := h.groups key group hg
    exact ⟨cb, hcb, hQ _ _ hq⟩
  workers w hw := by
    obtain ⟨cb, hq⟩ := h.workers w hw
    exact ⟨cb, hQ _ _ hq⟩

/-- Workers that go on with their tasks, while no group is added. -/
theorem Within.shrink (h : Within Q s pool)
    (hgroups : ∀ key group, s'.groups.lookup key = some group → s.groups.lookup key = some group)
    (hworkers : ∀ w' ∈ pool'.workers, ∃ w ∈ pool.workers, w'.inner = w.inner) : Within Q s' pool' where
  groups key group hg := h.groups key group (hgroups key group hg)
  workers w' hw' := by
    obtain ⟨w, hw, hinner⟩ := hworkers w' hw'
    rw [hinner]
    exact h.workers w hw

theorem Within.start {key : UniqueId} {group : GroupState} (h : Within Q s pool)
    (hg : s.groups.lookup key = some group) (worker : Worker) (hinner : worker.inner = group.leaderInner) :
    Within Q (s.activate key) (pool.spawn worker) where
  groups := h.groups
  workers w hw := by
    rcases List.mem_append.1 hw with hw | hw
    · exact h.workers w hw
    · obtain rfl := List.mem_singleton.1 hw
      obtain ⟨cb, _, hq⟩ := h.groups key group hg
      rw [hinner]
      exact ⟨cb, hq⟩

theorem Within.accept {inner : InnerTask} {callbacks : TaskCallbacks} (h : Within Q s pool)
    (hin : (TransferCmd.enqueue inner callbacks).Within Q)
    (hg : s'.groups = s.groups.insert inner.dedupeKey ⟨inner, ⟨inner, callbacks⟩⟩) : Within Q s' pool where
  groups key group hkey := by
    rw [hg, Table.lookup_insert_ite] at hkey
    split at hkey
    · cases hkey
      exact hin
    · exact h.groups key group hkey
  workers := h.workers

/-- A worker that is replaced keeps its task. -/
theorem mem_set_inner {ws : List Worker} {i : Nat} {w w1 : Worker} (hi : ws[i]? = some w)
    (hsame : w1.inner = w.inner) : ∀ w' ∈ ws.set i w1, ∃ w0 ∈ ws, w'.inner = w0.inner := by
  intro w' hw'
  rcases List.mem_or_eq_of_mem_set hw' with hw' | rfl
  · exact ⟨w', hw', rfl⟩
  · exact ⟨w, List.mem_of_getElem? hi, hsame⟩

theorem Within.lockstep : Lockstep (fun _ act => act.Within Q) fun _ => Within Q where
  frame h _ hsame hw _ := by
    refine h.shrink (fun key group hg => ?_) fun w hw' => ⟨w, hw ▸ hw', rfl⟩
    rw [hsame.groups] at hg
    exact hg
  start _ h _ hg _ := h.start hg _ rfl
  accept h hin _ _ hg _ _ _ := h.accept hin hg
  cancel h _ _ hg ha _ _ :=
    h.shrink (fun _ _ hkey => (lookup_of_erase_group hg ha hkey).1) fun w hw => ⟨w, hw, rfl⟩
  close h _ hg _ _ _ := by
    refine h.shrink (fun key group hkey => ?_) fun w hw => ⟨w, hw, rfl⟩
    rw [hg] at hkey
    cases hkey
  deliver h htake hfoot _ := by
    obtain ⟨w, rest, hw, _, rfl⟩ := Pool.take_eq_some.1 htake
    refine h.shrink (fun key group hkey => ?_) (mem_set_inner hw rfl)
    rcases hfoot.group hkey with hold | ⟨inner, callbacks, hcmd, _⟩
    · exact hold
    · cases hcmd
  work h hwork := by
    obtain ⟨w, pc, out, hw, _, _, rfl⟩ := Pool.work_eq_some.1 hwork
    exact h.shrink (fun _ _ hkey => hkey) (mem_set_inner hw rfl)

/-- **Whom an iteration tells** anything has a task there, or has just handed one in. -/
theorem Within.told (h : Within Q s pool) (hin : input.Within Q) (htold : recordsTo cb (react s input).2 ≠ []) :
    ∃ inner, Q cb inner := by
  obtain ⟨dto, hdto⟩ := List.exists_mem_of_ne_nil _ htold
  by_cases hown : ∃ inner callbacks, input = .cmd (.enqueue inner callbacks) ∧ callbacks.progressCb = some cb
  · obtain ⟨inner, callbacks, rfl, hcb⟩ := hown
    obtain ⟨cb', hcb', hq⟩ := hin
    cases hcb.symm.trans hcb'
    exact ⟨inner, hq⟩
  · have hother : ∀ inner callbacks, input = .cmd (.enqueue inner callbacks) → callbacks.progressCb ≠ some cb :=
      fun inner callbacks hi hcb => hown ⟨inner, callbacks, hi, hcb⟩
    obtain ⟨entry, _, _, _, hnotice, hcb, _⟩ := mem_recordsTo_react (.inr hother) hdto
    have hgroup : ∀ key group, s.groups.lookup key = some group →
        group.entry.callbacks.progressCb = some cb → ∃ inner, Q cb inner := by
      intro key group hg hcb
      obtain ⟨cb', hcb', hq⟩ := h.groups key group hg
      cases hcb.symm.trans hcb'
      exact ⟨_, hq⟩
    cases hnotice with
    | accepted inner callbacks => exact absurd hcb (hother inner callbacks rfl)
    | standing key group hg | progress key _ _ group hg | completed key _ group hg => exact hgroup key group hg hcb
    | started key group hg =>
      rcases react_group hg with hg | ⟨inner, callbacks, hi, _, rfl⟩
      · exact hgroup key group hg hcb
      · exact absurd hcb (hother inner callbacks hi)

end

structure Scheduler.Within (Q : ProgressCb → InnerTask → Prop) (s : Scheduler) : Prop where
  loop : LoopInv s.sys.loop
  tables : SpottedCat.Within Q s.sys.loop.state s.sys.pool
  queue : ∀ inner cb, Command.enqueue inner cb ∈ s.queue → Q cb inner
  told : ∀ cb, recordsTo cb s.sys.loop.log ≠ [] → ∃ inner, Q cb inner

section
variable {Q Q' : ProgressCb → InnerTask → Prop} {s s' : Scheduler} {act : SchedulerAct}

theorem Scheduler.Within.mono (h : s.Within Q) (hQ : ∀ cb inner, Q cb inner → Q' cb inner) : s.Within Q' where
  loop := h.loop
  tables := h.tables.mono hQ
  queue inner cb hm := hQ _ _ (h.queue inner cb hm)
  told cb htold := by
    obtain ⟨inner, hq⟩ := h.told cb htold
    exact ⟨inner, hQ _ _ hq⟩

theorem Scheduler.Within.new (maxUpload maxDownload : Nat) : (Scheduler.new maxUpload maxDownload).Within Q where
  loop := .init maxUpload maxDownload
  tables := ⟨fun _ _ hg => (by cases hg), fun _ hw => (by cases hw)⟩
  queue inner cb hm := by cases hm
  told cb htold := absurd rfl htold

theorem Scheduler.Within.push (h : s.Within Q) {cmd : Command}
    (hcmd : ∀ inner cb, cmd = .enqueue inner cb → Q cb inner) :
    Scheduler.Within Q { s with queue := s.queue ++ [cmd] } where
  loop := h.loop
  tables := h.tables
  queue inner cb hm := by
    rcases List.mem_append.1 hm with hm | hm
    · exact h.queue inner cb hm
    · exact hcmd inner cb (List.mem_singleton.1 hm).symm
  told := h.told

/-- What the loop and its workers do. -/
theorem Scheduler.Within.sys {sys' : Sys} {a : Act} (h : s.Within Q) (hin : a.Within Q)
    (hs : s.sys.step a = some sys') (rest : List Command) (hrest : rest ⊆ s.queue) :
    Scheduler.Within Q { s with sys := sys', queue := rest } := by
  obtain ⟨hloop, htables⟩ := Within.lockstep.step ⟨h.loop, h.tables⟩ hin hs
  refine ⟨hloop, htables, fun inner cb hm => h.queue inner cb (hrest hm), fun cb htold => ?_⟩
  obtain ⟨input, pool, hintake, hfeed⟩ | ⟨i, input, pool, _, _, rfl⟩ := Sys.step_cases hs
  · have hinput : input.Within Q := by
      cases input with
      | cmd c =>
        cases Sys.intake_cmd hintake
        exact hin
      | event | listen => trivial
    obtain ⟨_, _, hlog⟩ := Loop.step_eq_some.1 (Sys.feed_eq_some.1 hfeed).1
    simp only [hlog, recordsTo_append] at htold
    by_cases hold : recordsTo cb s.sys.loop.log = []
    · rw [hold, List.nil_append] at htold
      exact h.tables.told hinput htold
    · exact h.told cb hold
  · exact h.told cb htold

/-- **A step of the scheduler.** -/
theorem Scheduler.Within.step (h : s.Within Q) (hs : s.step act = some s') : s'.Within Q := by
  obtain ⟨_, ⟨cmd, rest, ao, go, sys, hq, hstep, rfl⟩ | ⟨a, sys, hcmd, _, hstep, rfl⟩ | ⟨_, rfl⟩⟩ :=
    Scheduler.step_cases hs
  · refine h.sys ?_ hstep rest (hq ▸ List.subset_cons_self _ _)
    cases cmd with
    | enqueue inner cb => exact ⟨cb, rfl, h.queue inner cb (hq ▸ List.mem_cons_self)⟩
    | close => trivial
  · refine h.sys ?_ hstep s.queue (List.Subset.refl _)
    cases a with
    | cmd c => exact absurd rfl (hcmd c)
    | listen | deliver | work => trivial
  · exact ⟨h.loop, ⟨h.tables.groups, fun _ hw => (by cases hw)⟩, fun _ _ hm => (by cases hm), h.told⟩

end

/-! ## Workers and groups of one scheduler -/

/-- A worker that is not settled has a group under its key. -/
def Attached (s : SchedulerState) (pool : Pool) : Prop := ∀ w ∈ pool.workers, ¬ w.Settled → w.key ∈ s.groups

/-- Neither a `Cancel` nor a `Close`. -/
def Act.Spares : Act → Prop
  | .cmd (.cancel _) | .cmd (.close ..) => False
  | _ => True

section
variable {s s' : SchedulerState} {pool pool' : Pool}

/-- Workers that go on, while their groups stay. -/
theorem Attached.follow (h : Attached s pool) (hfollows : pool.Follows Worker.Settled pool')
    (hgroups : ∀ (j : Nat) (w' : Worker), pool'.workers[j]? = some w' → ¬ w'.Settled → w'.key ∈ s.groups →
      w'.key ∈ s'.groups) : Attached s' pool' := by
  intro w' hm hs'
  obtain ⟨j, hj⟩ := List.mem_iff_getElem?.1 hm
  obtain ⟨w, hw, hs, hkey, _⟩ := hfollows j w' hj hs'
  exact hgroups j w' hj hs' (hkey ▸ h w (List.mem_of_getElem? hw) hs)

theorem Attached.start {key : UniqueId} {group : GroupState} (h : Attached s pool)
    (hg : s.groups.lookup key = some group) (worker : Worker) (hkey : worker.key = key) :
    Attached (s.activate key) (pool.spawn worker) := by
  intro w hm hs
  rcases List.mem_append.1 hm with hm | hm
  · exact h w hm hs
  · obtain rfl := List.mem_singleton.1 hm
    rw [hkey]
    exact Finmap.mem_of_lookup_eq_some hg

/-- An `Enqueue` that is accepted finds its key quiet. -/
theorem Attached.quiet {key : UniqueId} (h : Attached s pool) (hg : s.groups.lookup key = none) :
    ∀ w ∈ pool.workers, w.key = key → w.Settled := by
  intro w hm hk
  by_contra hs
  exact Finmap.lookup_eq_none.1 hg (hk ▸ h w hm hs)

theorem Attached.deliver {i : Nat} {event : WorkerEvent} (h : Attached s pool) (howned : Owned Worker.Settled s pool)
    (htake : pool.take i = some (event, pool')) (hf : Footprint s (.event event) s') : Attached s' pool' := by
  refine h.follow (Pool.take_follows Passes.of_settled.take htake) fun j w' hj hs' hk => ?_
  cases hf with
  | keep hcmd => exact absurd rfl (hcmd event)
  | progress _ _ _ hg | stop _ _ hg =>
    rw [hg]
    exact hk
  | finish _ hterm hg =>
    -- the group goes with the last event of its only worker
    obtain ⟨w, rest, hw, hout, _⟩ := Pool.take_eq_some.1 htake
    have hlast := howned.past_of_last .of_settled htake hw (Worker.not_settled hout) hterm hj
    rw [hg]
    exact Finmap.mem_erase.2 ⟨fun hkey => hs' (hlast hkey), hk⟩

end

theorem Attached.lockstep : Lockstep (fun _ act => act.Spares) fun _ s pool =>
    Owned Worker.Settled s pool ∧ Attached s pool where
  frame h _ hsame hw _ :=
    ⟨h.1.frame hsame hw, h.2.follow (.of_workers hw) fun _ _ _ _ hk => by rwa [hsame.groups]⟩
  start hl h ha hg _ := ⟨h.1.start hl ha hg, h.2.start hg _ rfl⟩
  accept h _ _ hv hg ha _ hlim := by
    refine ⟨h.1.accept (h.2.quiet hv) hg ha hlim, h.2.follow (.of_workers rfl) fun _ _ _ _ hk => ?_⟩
    rw [hg]
    exact Finmap.mem_insert.2 (.inr hk)
  cancel _ hspares := hspares.elim
  close _ hspares := hspares.elim
  deliver h htake hf hlim := ⟨h.1.deliver .of_settled htake hf hlim, h.2.deliver h.1 htake hf⟩
  work h hwork :=
    ⟨h.1.work .of_settled hwork,
      h.2.follow (h.1.toWired.work_follows Passes.of_settled.ended hwork) fun _ _ _ _ hk => hk⟩

structure Sys.Tended (sys : Sys) : Prop where
  loop : LoopInv sys.loop
  owned : Owned Worker.Settled sys.loop.state sys.pool
  attached : sys.loop.closed = false → Attached sys.loop.state sys.pool

/-- A scheduler without its thread has no workers either. -/
def Scheduler.Tended (s : Scheduler) : Prop :=
  s.exited = true ∧ s.sys.pool.workers = [] ∨ s.exited = false ∧ s.sys.Tended

section
variable {s s' : Scheduler} {act : SchedulerAct}

theorem Scheduler.Tended.new (maxUpload maxDownload : Nat) : (Scheduler.new maxUpload maxDownload).Tended :=
  .inr ⟨rfl, .init maxUpload maxDownload, .init Worker.Settled maxUpload maxDownload,
    fun _ _ hm => absurd hm List.not_mem_nil⟩

/-- **A step of the system**, but for a `Cancel`. -/
theorem Sys.Tended.step {sys sys' : Sys} {a : Act} (h : sys.Tended) (hcancel : ∀ id, a ≠ .cmd (.cancel id))
    (hs : sys.step a = some sys') : sys'.Tended := by
  by_cases hspares : sys.loop.closed = false ∧ a.Spares
  · obtain ⟨hloop, howned, hattached⟩ := Attached.lockstep.step ⟨h.loop, h.owned, h.attached hspares.1⟩ hspares.2 hs
    exact ⟨hloop, howned, fun _ => hattached⟩
  · -- the loop has ended or ends: no `Enqueue` is accepted any more
    have hends : sys'.loop.closed = true ∧ FindsPast Worker.Settled sys a := by
      by_cases hclosed : sys.loop.closed = true
      · obtain ⟨input, pool, _, hfeed⟩ | ⟨i, input, pool, rfl, _, rfl⟩ := Sys.step_cases hs
        · have hopen := (Loop.step_eq_some.1 (Sys.feed_eq_some.1 hfeed).1).1
          cases hopen.symm.trans hclosed
        · exact ⟨hclosed, trivial⟩
      · have hopen := Bool.eq_false_iff.2 hclosed
        cases a with
        | listen | deliver | work => exact absurd ⟨hopen, trivial⟩ hspares
        | cmd c =>
          cases c with
          | enqueue | pause | resume | snapshot => exact absurd ⟨hopen, trivial⟩ hspares
          | cancel id => exact absurd rfl (hcancel id)
          | close activeOrder groupOrder => exact ⟨((Sys.step_loop hs).2.2 _ rfl).2.1, trivial⟩
    obtain ⟨hloop, howned⟩ := (Owned.lockstep .of_settled).step ⟨h.loop, h.owned⟩ hends.2 hs
    refine ⟨hloop, howned, fun hopen => ?_⟩
    cases hends.1.symm.trans hopen

/-- **A step of the scheduler.** -/
theorem Scheduler.Tended.step (h : s.Tended) (hs : s.step act = some s') : s'.Tended := by
  obtain ⟨hstays, hcases⟩ := Scheduler.step_cases hs
  have hsys : s.sys.Tended := by
    rcases h with ⟨hexited, _⟩ | ⟨_, hsys⟩
    · cases hstays.symm.trans hexited
    · exact hsys
  obtain ⟨cmd, rest, ao, go, sys, _, hstep, rfl⟩ | ⟨a, sys, hcmd, _, hstep, rfl⟩ | ⟨_, rfl⟩ := hcases
  · refine .inr ⟨hstays, hsys.step (fun id heq => ?_) hstep⟩
    cases cmd <;> cases heq
  · exact .inr ⟨hstays, hsys.step (fun id => hcmd _) hstep⟩
  · exact .inl ⟨rfl, rfl⟩

end

/-! ## The client -/

/-- The task that a call has with it. -/
def EnqueuePc.task : EnqueuePc → Option InnerTask
  | .looking inner | .creating inner | .setting inner _ | .sending inner _ => some inner
  | _ => none

/-- The id of a task whose command the channel has accepted: the call is about to return it, or has. -/
def EnqueuePc.accepted : EnqueuePc → Option TaskId
  | .sent id | .returned (.ok id) => some id
  | _ => none

def Client.accepted (c : Client) (i : Nat) : Option TaskId := c.calls[i]?.bind EnqueuePc.accepted

/-- Where scheduler `j` comes from in a step from `c` to `c'`. -/
inductive Client.Came (c c' : Client) (j : Nat) : Scheduler → Prop
  | kept (s : Scheduler) (at_ : c.schedulers[j]? = some s) : Came c c' j s
  | new : Came c c' j (.new c.maxUpload c.maxDownload)
  | dropped (s : Scheduler) (at_ : c.schedulers[j]? = some s) : Came c c' j { s with held := false }
  | stepped (s s' : Scheduler) (act : SchedulerAct) (at_ : c.schedulers[j]? = some s) (step : s.step act = some s') :
      Came c c' j s'
  | closing (s : Scheduler) (at_ : c.schedulers[j]? = some s) (sending : c.closing = .sending j) :
      Came c c' j { s with queue := s.queue ++ [.close] }
  | sent (s : Scheduler) (i : Nat) (inner : InnerTask) (at_ : c.schedulers[j]? = some s)
      (sending : c.calls[i]? = some (.sending inner j))
      (accepted : c'.accepted i = some inner.taskId) :
      Came c c' j { s with queue := s.queue ++ [.enqueue inner ⟨i⟩] }

/-- What a step does to calls, schedulers and the cell. -/
structure Client.Moves (c c' : Client) (act : ClientAct) : Prop where
  frame : ∀ (i : Nat) pc, c.calls[i]? = some pc → (∀ input, act ≠ .enqueue i input) → c'.calls[i]? = some pc
  accepted : ∀ (i : Nat) id, c.accepted i = some id → c'.accepted i = some id
  task : ∀ (i : Nat) pc inner, c'.calls[i]? = some pc → pc.task = some inner →
    (∃ pc0, c.calls[i]? = some pc0 ∧ pc0.task = some inner) ∨ act = .enqueue i (.signed (.ok inner))
  came : ∀ (j : Nat) s, c'.schedulers[j]? = some s → c.Came c' j s
  executor : ∀ j, c.executor = some j → c'.executor = some j
  sending : ∀ (i : Nat) inner j, c'.calls[i]? = some (.sending inner j) →
    c.calls[i]? = some (.sending inner j) ∨ c'.executor = some j
  closing : ∀ j, c'.closing = .sending j → c.closing = .sending j ∨ c'.executor = some j

section
variable {c c' : Client} {act : ClientAct} {i j : Nat} {pc pc' : EnqueuePc}

theorem Client.getElem?_setScheduler {k : Nat} {s s' : Scheduler} (hk : (c.setScheduler j s').schedulers[k]? = some s) :
    k = j ∧ s = s' ∨ c.schedulers[k]? = some s := by
  rcases Places.lookup_set.1 hk with ⟨rfl, _, rfl⟩ | ⟨_, hold⟩
  · exact .inl ⟨rfl, rfl⟩
  · exact .inr hold

theorem Client.accepted_eq (hi : c.calls[i]? = some pc) : c.accepted i = pc.accepted := by
  rw [Client.accepted, hi]
  rfl

/-- A call moves on. -/
theorem Client.Moves.put {c1 : Client} {input : EnqueueIn} (hi : c.calls[i]? = some pc)
    (haccepted : ∀ id, pc.accepted = some id → pc'.accepted = some id) (hcalls : c1.calls = c.calls)
    (hclosing : c1.closing = c.closing)
    (htask : ∀ inner, pc'.task = some inner → pc.task = some inner ∨ input = .signed (.ok inner))
    (hcame : ∀ (j : Nat) s, c1.schedulers[j]? = some s → c.Came (c1.put i pc') j s)
    (hexec : ∀ j, c.executor = some j → c1.executor = some j)
    (hsending : ∀ inner j, pc' = .sending inner j → c1.executor = some j) :
    c.Moves (c1.put i pc') (.enqueue i input) where
  frame k pc1 hk hact := by
    refine Places.lookup_set.2 (.inr ⟨?_, hcalls ▸ hk⟩)
    rintro rfl
    exact hact input rfl
  accepted k id hk := by
    obtain ⟨pc1, hk1, hid⟩ := Option.bind_eq_some_iff.1 hk
    by_cases hki : k = i
    · subst hki
      cases hi.symm.trans hk1
      have hset : (c1.put k pc').calls[k]? = some pc' :=
        Places.lookup_set.2 (.inl ⟨rfl, (List.getElem?_eq_some_iff.1 (hcalls ▸ hi)).1, rfl⟩)
      rw [accepted_eq hset]
      exact haccepted id hid
    · have hset : (c1.put i pc').calls[k]? = some pc1 := Places.lookup_set.2 (.inr ⟨hki, hcalls ▸ hk1⟩)
      rw [accepted_eq hset]
      exact hid
  task k pc1 inner hk ht := by
    rcases Places.lookup_set.1 hk with ⟨rfl, _, rfl⟩ | ⟨_, hold⟩
    · rcases htask inner ht with hold | hinput
      · exact .inl ⟨pc, hi, hold⟩
      · exact .inr (by rw [hinput])
    · exact .inl ⟨pc1, hcalls ▸ hold, ht⟩
  came := hcame
  executor := hexec
  sending k inner j hk := by
    rcases Places.lookup_set.1 hk with ⟨rfl, _, heq⟩ | ⟨_, hold⟩
    · exact .inr (hsending inner j heq.symm)
    · exact .inl (hcalls ▸ hold)
  closing j hj := .inl (hclosing ▸ hj)

theorem Client.moves_enqueue {input : EnqueueIn} (hi : c.calls[i]? = some pc)
    (hs : c.enqueueStep i pc input = some c') : c.Moves c' (.enqueue i input) := by
  have hkeep : ∀ {pc'} (j : Nat) s, c.schedulers[j]? = some s → c.Came (c.put i pc') j s :=
    fun j s hj => .kept s hj
  unfold Client.enqueueStep at hs
  split at hs
  · cases hs
    split <;> exact .put hi nofun rfl rfl nofun hkeep (fun _ h => h) nofun
  · cases hs
    refine .put hi nofun rfl rfl (fun inner ht => ?_) hkeep (fun _ h => h) nofun
    cases ht
    exact .inr rfl
  · cases hs
    exact .put hi nofun rfl rfl nofun hkeep (fun _ h => h) nofun
  · split at hs <;> rename_i hexec <;> cases hs
    · refine .put hi nofun rfl rfl (fun _ ht => .inl ht) hkeep (fun _ h => h) fun inner j heq => ?_
      cases heq
      exact hexec
    · exact .put hi nofun rfl rfl (fun _ ht => .inl ht) hkeep (fun _ h => h) nofun
  · cases hs
    refine .put hi nofun rfl rfl (fun _ ht => .inl ht) (fun j s hj => ?_) (fun _ h => h) nofun
    rcases Places.lookup_push.1 hj with hold | ⟨_, rfl⟩
    · exact .kept s hold
    · exact .new
  · cases hs
    exact .put hi nofun rfl rfl nofun hkeep (fun _ h => h) nofun
  · rename_i inner j
    split at hs
    · rename_i hexec
      cases hs
      refine .put hi nofun rfl rfl (fun _ ht => .inl ht) (fun k s hk => .kept s hk) (fun k hk => ?_) fun _ k heq => ?_
      · cases hexec.symm.trans hk
      · cases heq
        rfl
    · rename_i j' s hexec hj
      cases hs
      refine .put hi nofun rfl rfl (fun _ ht => .inl ht) (fun k s' hk => ?_) (fun _ h => h) fun _ k heq => ?_
      · rcases getElem?_setScheduler hk with ⟨rfl, rfl⟩ | hold
        · exact .dropped s hj
        · exact .kept s' hold
      · cases heq
        exact hexec
    · cases hs
  · rename_i inner j
    split at hs
    · rename_i s hj
      split at hs
      · rename_i s' hsend
        cases hs
        obtain ⟨_, _, rfl⟩ := Scheduler.trySend_ok hsend
        refine .put hi nofun rfl rfl nofun (fun k s' hk => ?_) (fun _ h => h) nofun
        rcases getElem?_setScheduler hk with ⟨rfl, rfl⟩ | hold
        · have hlen := (List.getElem?_eq_some_iff.1 hi).1
          exact .sent s i inner hj hi ((accepted_eq (Places.lookup_set.2 (.inl ⟨rfl, hlen, rfl⟩))).trans rfl)
        · exact .kept s' hold
      · cases hs
        exact .put hi nofun rfl rfl nofun hkeep (fun _ h => h) nofun
    · cases hs
  · cases hs
    exact .put hi (fun _ h => h) rfl rfl nofun hkeep (fun _ h => h) nofun
  · cases hs

/-- The calls stay where they are. -/
theorem Client.Moves.of_calls (hcalls : c'.calls = c.calls) (hexec : c'.executor = c.executor)
    (hcame : ∀ (j : Nat) s, c'.schedulers[j]? = some s → c.Came c' j s)
    (hclosing : ∀ j, c'.closing = .sending j → c.closing = .sending j ∨ c'.executor = some j) :
    c.Moves c' act where
  frame k pc hk _ := by rw [hcalls]; exact hk
  accepted k id hk := by
    rw [Client.accepted, hcalls]
    exact hk
  task k pc inner hk ht := .inl ⟨pc, hcalls ▸ hk, ht⟩
  came := hcame
  executor k hk := by rw [hexec]; exact hk
  sending k inner j hk := .inl (hcalls ▸ hk)
  closing := hclosing

theorem Client.moves_close (hs : c.closeStep = some c') : c.Moves c' .close := by
  unfold Client.closeStep at hs
  split at hs
  · split at hs <;> cases hs <;> exact .of_calls rfl rfl (fun j s hj => .kept s hj) nofun
  · split at hs <;> rename_i hexec <;> cases hs
    · refine .of_calls rfl rfl (fun j s hj => .kept s hj) fun k hk => ?_
      cases hk
      exact .inr hexec
    · exact .of_calls rfl rfl (fun j s hj => .kept s hj) nofun
  · rename_i j hclosing
    split at hs
    · rename_i s hj
      split at hs
      · cases hs
        exact .of_calls rfl rfl (fun j s hj => .kept s hj) nofun
      split at hs
      · cases hs
        refine .of_calls rfl rfl (fun k s' hk => ?_) nofun
        rcases getElem?_setScheduler hk with ⟨rfl, rfl⟩ | hold
        · exact .closing s hj hclosing
        · exact .kept s' hold
      · cases hs
    · cases hs
  · split at hs
    · split at hs
      · cases hs
        exact .of_calls rfl rfl (fun j s hj => .kept s hj) nofun
      split at hs
      · cases hs
        exact .of_calls rfl rfl (fun j s hj => .kept s hj) nofun
      · cases hs
    · cases hs
  · cases hs
    exact .of_calls rfl rfl (fun j s hj => .kept s hj) nofun
  · cases hs

/-- **A step of the client.** -/
theorem Client.moves (hs : c.step act = some c') : c.Moves c' act := by
  cases act with
  | call =>
    cases hs
    refine ⟨fun i pc hi _ => Places.lookup_push.2 (.inl hi), fun i id hi => ?_, fun i pc inner hi ht => ?_,
      fun j s hj => .kept s hj, fun _ h => h, fun i inner j hi => ?_, fun j h => .inl h⟩
    · obtain ⟨pc, hpc, hid⟩ := Option.bind_eq_some_iff.1 hi
      exact (accepted_eq (Places.lookup_push.2 (.inl hpc))).trans hid
    · rcases Places.lookup_push.1 hi with hold | ⟨_, rfl⟩
      · exact .inl ⟨pc, hold, ht⟩
      · cases ht
    · rcases Places.lookup_push.1 hi with hold | ⟨_, heq⟩
      · exact .inl hold
      · cases heq
  | enqueue i input =>
    obtain ⟨pc, hi, hs⟩ := Option.bind_eq_some_iff.1 hs
    exact moves_enqueue hi hs
  | close => exact moves_close hs
  | scheduler j act =>
    obtain ⟨s, hj, hs⟩ := Option.bind_eq_some_iff.1 hs
    obtain ⟨s', hstep, rfl⟩ := Option.map_eq_some_iff.1 hs
    refine .of_calls rfl rfl (fun k t hk => ?_) fun _ h => .inl h
    rcases getElem?_setScheduler hk with ⟨rfl, rfl⟩ | hold
    · exact .stepped s t act hj hstep
    · exact .kept t hold

end

/-! ## Whole runs -/

/-- The call that wraps its closure in `cb` has handed in `inner`, and its command was accepted. -/
def Client.Accepted (P : Nat → InnerTask → Prop) (c : Client) (cb : ProgressCb) (inner : InnerTask) : Prop :=
  P cb.call inner ∧ c.accepted cb.call = some inner.taskId

structure Client.Accounted (P : Nat → InnerTask → Prop) (c : Client) : Prop where
  calls : ∀ (i : Nat) pc inner, c.calls[i]? = some pc → pc.task = some inner → P i inner
  schedulers : ∀ (j : Nat) s, c.schedulers[j]? = some s → s.Within (c.Accepted P)

/-- No scheduler but the one in the cell has been sent anything. -/
structure Client.Sole (c : Client) : Prop where
  unused : ∀ (j : Nat) s, c.schedulers[j]? = some s → c.executor ≠ some j → s.Pristine
  sending : ∀ (i : Nat) inner j, c.calls[i]? = some (.sending inner j) → c.executor = some j
  closing : ∀ j, c.closing = .sending j → c.executor = some j

section
variable {P : Nat → InnerTask → Prop} {c c' : Client} {act : ClientAct}

theorem Client.Accounted.step (h : c.Accounted P)
    (hsigned : ∀ i inner, act = .enqueue i (.signed (.ok inner)) → P i inner) (hs : c.step act = some c') :
    c'.Accounted P := by
  have hmoves := moves hs
  have hmono : ∀ cb inner, c.Accepted P cb inner → c'.Accepted P cb inner :=
    fun cb inner ⟨hp, hid⟩ => ⟨hp, hmoves.accepted _ _ hid⟩
  refine ⟨fun i pc inner hi ht => ?_, fun j s hj => ?_⟩
  · rcases hmoves.task i pc inner hi ht with ⟨pc0, hi0, ht0⟩ | hact
    · exact h.calls i pc0 inner hi0 ht0
    · exact hsigned i inner hact
  · cases hmoves.came j s hj with
    | kept s hs => exact (h.schedulers j s hs).mono hmono
    | new => exact .new _ _
    | dropped s hs =>
      have hw := (h.schedulers j s hs).mono hmono
      exact ⟨hw.loop, hw.tables, hw.queue, hw.told⟩
    | stepped s s' act hs hstep => exact ((h.schedulers j s hs).mono hmono).step hstep
    | closing s hs _ => exact ((h.schedulers j s hs).mono hmono).push fun _ _ heq => by cases heq
    | sent s i inner hs hsending haccepted =>
      refine ((h.schedulers j s hs).mono hmono).push fun inner' cb heq => ?_
      cases heq
      exact ⟨h.calls i _ inner hsending rfl, haccepted⟩

/-- **In every run** each task has been handed in by a call whose command was accepted. -/
theorem Client.Accounted.run {maxUpload maxDownload : Nat} {acts : List ClientAct}
    (hsigned : ∀ i inner, ClientAct.enqueue i (.signed (.ok inner)) ∈ acts → P i inner)
    (hrun : Lts.run Client.step (.init maxUpload maxDownload) acts = some c) : c.Accounted P := by
  have hinit : (Client.init maxUpload maxDownload).Accounted P :=
    ⟨fun _ _ _ hi => (by cases hi), fun _ _ hj => (by cases hj)⟩
  have hmeets : Lts.Meets Client.step (fun _ act => ∀ i inner, act = .enqueue i (.signed (.ok inner)) → P i inner)
      (.init maxUpload maxDownload) acts :=
    .of_forall fun act hact _ i inner heq => hsigned i inner (heq ▸ hact)
  exact Lts.run_invariant_of_meets (fun _ _ _ h hin hs => h.step hin hs) hinit hmeets hrun

theorem Client.Sole.step (h : c.Sole) (hs : c.step act = some c') : c'.Sole := by
  have hmoves := moves hs
  refine ⟨fun j s hj hne => ?_, fun i inner j hi => ?_, fun j hj => ?_⟩
  · have hunused : c.executor ≠ some j := fun hexec => hne (hmoves.executor j hexec)
    cases hmoves.came j s hj with
    | kept s hs => exact h.unused j s hs hunused
    | new => exact Scheduler.new_pristine _ _
    | dropped s hs =>
      have hp := h.unused j s hs hunused
      exact ⟨hp.queue, hp.workers, hp.running, hp.groups, fun _ => rfl⟩
    | stepped s s' act hs hstep => exact (h.unused j s hs hunused).step hstep
    | closing s _ hsending => exact absurd (h.closing j hsending) hunused
    | sent s i inner _ hsending _ => exact absurd (h.sending i inner j hsending) hunused
  · rcases hmoves.sending i inner j hi with hold | hexec
    · exact hmoves.executor j (h.sending i inner j hold)
    · exact hexec
  · rcases hmoves.closing j hj with hold | hexec
    · exact hmoves.executor j (h.closing j hold)
    · exact hexec

theorem Client.Sole.run {maxUpload maxDownload : Nat} {acts : List ClientAct}
    (hrun : Lts.run Client.step (.init maxUpload maxDownload) acts = some c) : c.Sole := by
  have hinit : (Client.init maxUpload maxDownload).Sole :=
    ⟨fun _ _ hj => (by cases hj), fun _ _ _ hi => (by cases hi), fun _ hj => (by cases hj)⟩
  exact Lts.run_invariant (fun _ _ _ h hs => h.step hs) hinit hrun

/-- **In every run** the workers of all schedulers have their groups until it closes. -/
theorem Client.tended {maxUpload maxDownload : Nat} {acts : List ClientAct}
    (hrun : Lts.run Client.step (.init maxUpload maxDownload) acts = some c) :
    ∀ (j : Nat) s, c.schedulers[j]? = some s → s.Tended := by
  refine Lts.run_invariant (I := fun c => ∀ (j : Nat) s, c.schedulers[j]? = some s → s.Tended) ?_
    (fun j s hj => (by cases hj)) hrun
  intro c act c' h hs j s hj
  cases (moves hs).came j s hj with
  | kept s hs => exact h j s hs
  | new => exact .new _ _
  | dropped s hs | closing s hs | sent s _ _ hs => exact h j s hs
  | stepped s s' act hs hstep => exact (h j s hs).step hstep

/-- Worker `n` of scheduler `j` has not ended. -/
def Client.Live (c : Client) (j n : Nat) (w : Worker) : Prop :=
  ∃ s, c.schedulers[j]? = some s ∧ s.sys.pool.workers[n]? = some w ∧ w.pc ≠ .ended

/-- A live worker is in the scheduler of the cell, which is tended. -/
theorem Client.Live.cell {maxUpload maxDownload : Nat} {acts : List ClientAct} {j n : Nat} {w : Worker}
    (hrun : Lts.run Client.step (.init maxUpload maxDownload) acts = some c) (h : c.Live j n w) :
    c.executor = some j ∧ ∃ s, c.schedulers[j]? = some s ∧ s.sys.Tended ∧ s.sys.pool.workers[n]? = some w ∧
      ¬ w.Settled := by
  obtain ⟨s, hj, hw, hlive⟩ := h
  refine ⟨?_, s, hj, ?_, hw, fun hset => hlive hset.1⟩
  · by_contra hne
    rw [((Sole.run hrun).unused j s hj hne).workers] at hw
    cases hw
  · rcases Client.tended hrun j s hj with ⟨_, hnone⟩ | ⟨_, htended⟩
    · rw [hnone] at hw
      cases hw
    · exact htended

/-- **No two live workers share a key**, in whatever schedulers they are. -/
theorem Client.live_once {maxUpload maxDownload : Nat} {acts : List ClientAct} {j j' n n' : Nat} {w w' : Worker}
    (hrun : Lts.run Client.step (.init maxUpload maxDownload) acts = some c) (h : c.Live j n w)
    (h' : c.Live j' n' w') (hk : w.key = w'.key) : j = j' ∧ n = n' := by
  obtain ⟨hcell, s, hj, htended, hw, hs⟩ := h.cell hrun
  obtain ⟨hcell', s', hj', _, hw', hs'⟩ := h'.cell hrun
  cases hcell.symm.trans hcell'
  cases hj.symm.trans hj'
  exact ⟨rfl, htended.owned.single n n' w w' hw hw' hs hs' hk⟩

/-- **A live worker** works on the task of its key's group, if there is one. -/
theorem Client.live_leader {maxUpload maxDownload : Nat} {acts : List ClientAct} {j j' n : Nat} {w : Worker}
    {s : Scheduler} {group : GroupState}
    (hrun : Lts.run Client.step (.init maxUpload maxDownload) acts = some c) (h : c.Live j n w)
    (hj' : c.schedulers[j']? = some s) (hg : s.sys.loop.state.groups.lookup w.key = some group) :
    group.leaderInner = w.inner := by
  obtain ⟨hcell, s0, hj, htended, hw, hs⟩ := h.cell hrun
  have hcell' : c.executor = some j' := by
    by_contra hne
    rw [((Sole.run hrun).unused j' s hj' hne).groups] at hg
    cases hg
  cases hcell.symm.trans hcell'
  cases hj.symm.trans hj'
  exact (htended.owned.own n w group hw hs hg).2

end

end SpottedCat
