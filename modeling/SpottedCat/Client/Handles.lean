import SpottedCat.Client.EnqueueClose

/-!
# A client and its clones (`meow_client.rs:18-76`, `:159-246`)

A clone copies the executor cell as it is and shares the closed flag. Calls are made one after the other, each
awaited before the next, while the schedulers go on with their work.

| here | there |
| --- | --- |
| `Handles.cells`    | `MeowClient::executor` of each handle (:20) |
| `Handles.closed`   | `MeowClient::closed`, one for all of them (:23) |
| `HandlesAct.clone` | `#[derive(Clone)]` (:18): `OnceLock::clone` copies a value that is set |
| `Handles.getExec`  | `get_exec` (:45) |
| `Scheduler.ask`    | `Executor::pause`, `resume`, `cancel` and `close` (executor.rs:568-718) |
| `Handles.call`     | the methods of `MeowClient` (:159-246) |

A command that is awaited is one step here, the one in which the loop gets to it; by then the channel is empty of
older commands, and no other call has come in between.

Two handles cloned before the first use each start an executor of their own. A task of the one is then unknown
to the other (`cloneBeforeUse_notFound`), and the close of the one, which closes both, leaves it running
(`cloneBeforeUse_survives`). As long as a handle whose cell is empty is not used once there is a scheduler
(`SharesExecutor`), the clones are one client (`clones_are_one_client`).
-/

namespace SpottedCat

inductive HandleCall where
  /-- With what the checks of the task and `InnerTask::from_pounce` come to. -/
  | enqueue (signed : Except MeowError InnerTask)
  | pause (taskId : TaskId)
  | resume (taskId : TaskId)
  | cancel (taskId : TaskId)
  | close (activeOrder groupOrder : List UniqueId)
deriving DecidableEq

structure Handles where
  maxUpload : Nat
  maxDownload : Nat
  closed : Bool
  /-- The cell of each handle: the scheduler that its `Executor` sends to. -/
  cells : List (Option Nat)
  /-- Every scheduler thread started so far. -/
  schedulers : List Scheduler
  /-- The calls so far, with the handle and the result, oldest first. -/
  calls : List (Nat × HandleCall × Except MeowError Unit)

inductive HandlesAct where
  | clone (h : Nat)
  /-- A call on handle `h`; `created` is whether an HTTP client and a thread could be created. -/
  | call (h : Nat) (op : HandleCall) (created : Except MeowError Unit)
  | scheduler (j : Nat) (act : SchedulerAct)
deriving DecidableEq

/-- Sends a command and awaits its answer. A loop that is over, but whose channel is still there, takes it and
does not answer. -/
def Scheduler.ask (s : Scheduler) (what : String) (cmd : TransferCmd) :
    Option (Scheduler × Except MeowError Unit) :=
  if s.exited then some (s, .error (sendFailedError what))
  else if s.sys.loop.closed then some (s, .error (responseFailedError what))
  else if s.queue = [] then
    (s.sys.step (.cmd cmd)).map fun sys =>
      ({ s with sys := sys }, (s.sys.loop.answer cmd).getD (.error (responseFailedError what)))
  else none

namespace Handles

def init (maxUpload maxDownload : Nat) : Handles := ⟨maxUpload, maxDownload, false, [none], [], []⟩

def setScheduler (c : Handles) (j : Nat) (s : Scheduler) : Handles :=
  { c with schedulers := c.schedulers.set j s }

/-- meow_client.rs:45 -/
def getExec (c : Handles) (h : Nat) (created : Except MeowError Unit) :
    Option (Handles × Except MeowError Nat) :=
  match c.cells[h]? with
  | none => none
  | some (some j) => some (c, .ok j)
  | some none =>
    match created with
    | .ok () =>
      some ({ c with
        cells := c.cells.set h (some c.schedulers.length)
        schedulers := c.schedulers ++ [Scheduler.new c.maxUpload c.maxDownload] }, .ok c.schedulers.length)
    | .error e => some (c, .error e)

def askOn (c : Handles) (j : Nat) (what : String) (cmd : TransferCmd) :
    Option (Handles × Except MeowError Unit) :=
  c.schedulers[j]?.bind fun s => (s.ask what cmd).map fun (s', ret) => (c.setScheduler j s', ret)

/-- meow_client.rs:197, :204, :210 behind `ensure_open`. -/
def control (c : Handles) (h : Nat) (created : Except MeowError Unit) (what : String) (cmd : TransferCmd) :
    Option (Handles × Except MeowError Unit) :=
  (c.getExec h created).bind fun
    | (c', .ok j) => c'.askOn j what cmd
    | (c', .error e) => some (c', .error e)

/-- executor.rs:538, with a closure of its own for each call. -/
def enqueueOn (c : Handles) (j : Nat) (inner : InnerTask) : Option (Handles × Except MeowError Unit) :=
  c.schedulers[j]?.map fun s =>
    match s.trySend (.enqueue inner ⟨c.calls.length⟩) with
    | .ok s' => (c.setScheduler j s', .ok ())
    | .error e => (c, .error (enqueueFailedError e))

/-- A call on handle `h`; `enqueue` returns the id of its task. -/
def call (c : Handles) (h : Nat) (op : HandleCall) (created : Except MeowError Unit) :
    Option (Handles × Except MeowError Unit) :=
  if c.closed then some (c, .error clientClosedError)
  else
    match op with
    | .enqueue (.error e) => some (c, .error e)
    | .enqueue (.ok inner) =>
      (c.getExec h created).bind fun
        | (c', .ok j) => c'.enqueueOn j inner
        | (c', .error e) => some (c', .error e)
    | .pause taskId => c.control h created "pause" (.pause taskId)
    | .resume taskId => c.control h created "resume" (.resume taskId)
    | .cancel taskId => c.control h created "cancel" (.cancel taskId)
    | .close activeOrder groupOrder =>
      match c.cells[h]? with
      | none => none
      | some none => some ({ c with closed := true }, .ok ())
      | some (some j) =>
        -- the flag is taken back if the executor's `close` fails (:238)
        (c.askOn j "close" (.close activeOrder groupOrder)).map fun (c', ret) =>
          ({ c' with closed := ret.isOk }, ret)

def step (c : Handles) : HandlesAct → Option Handles
  | .clone h => c.cells[h]?.map fun cell => { c with cells := c.cells ++ [cell] }
  | .call h op created =>
    if h < c.cells.length then
      (c.call h op created).map fun (c', ret) => { c' with calls := c'.calls ++ [(h, op, ret)] }
    else none
  | .scheduler j act => c.schedulers[j]?.bind fun s => (s.step act).map (c.setScheduler j)

end Handles

/-- The task has a group, or its `Enqueue` is still in the channel. -/
def Scheduler.Keeps (s : Scheduler) (taskId : TaskId) : Prop :=
  (∃ key group, s.sys.loop.state.groups.lookup key = some group ∧ group.leaderInner.taskId = taskId) ∨
    ∃ inner cb, .enqueue inner cb ∈ s.queue ∧ inner.taskId = taskId

/-- The call looks at the executor cell. -/
def HandleCall.looks : HandleCall → Bool
  | .enqueue (.error _) => false
  | _ => true

/-- An empty cell is looked at only while there is no scheduler. -/
def SharesExecutor (c : Handles) : HandlesAct → Prop
  | .call h op _ => c.closed = false → op.looks = true → c.cells[h]? = some none → c.schedulers.isEmpty = true
  | _ => True

instance (c : Handles) : ∀ act, Decidable (SharesExecutor c act)
  | .call h op _ => inferInstanceAs (Decidable (c.closed = false → op.looks = true →
      c.cells[h]? = some none → c.schedulers.isEmpty = true))
  | .clone _ | .scheduler _ _ => inferInstanceAs (Decidable True)

/-! ## The one scheduler -/

/-- Its loop is sound; it serves until the client is closed, and has nothing left after that. -/
structure Scheduler.Serves (s : Scheduler) (closed : Bool) : Prop where
  inv : LoopInv s.sys.loop
  early : closed = false → s.Open
  late : closed = true → s.Finished

theorem Sys.step_loopInv {sys sys' : Sys} {act : Act} (h : LoopInv sys.loop)
    (hs : sys.step act = some sys') : LoopInv sys'.loop := by
  obtain ⟨input, pool, _, hfeed⟩ | ⟨i, input, pool, _, _, rfl⟩ := Sys.step_cases hs
  · exact h.step (Sys.feed_eq_some.1 hfeed).1
  · exact h

namespace Scheduler.Serves

variable {s s' : Scheduler} {closed : Bool} {what : String} {cmd : TransferCmd} {ret : Except MeowError Unit}

theorem new (maxUpload maxDownload : Nat) : (Scheduler.new maxUpload maxDownload).Serves false where
  inv := .init maxUpload maxDownload
  early := fun _ => (new_pristine maxUpload maxDownload).open rfl
  late := nofun

theorem step {act : SchedulerAct} (h : s.Serves closed) (hs : s.step act = some s') : s'.Serves closed where
  inv := by
    obtain ⟨_, ⟨_, _, _, _, _, _, hstep, rfl⟩ | ⟨_, _, _, _, hstep, rfl⟩ | ⟨_, rfl⟩⟩ := step_cases hs
    · exact Sys.step_loopInv h.inv hstep
    · exact Sys.step_loopInv h.inv hstep
    · exact h.inv
  early := fun hopen => (h.early hopen).step hs
  late := fun hclosed => (h.late hclosed).step hs

theorem send {inner : InnerTask} {cb : ProgressCb} (h : s.Serves false)
    (hs : s.trySend (.enqueue inner cb) = .ok s') : s'.Serves false := by
  obtain ⟨_, _, rfl⟩ := trySend_ok hs
  exact ⟨h.inv, fun _ => (h.early rfl).enqueue inner cb, nofun⟩

/-- A scheduler that serves gets to the command after all older ones. -/
theorem ask_cases (h : s.Serves false) (ha : s.ask what cmd = some (s', ret)) :
    s.queue = [] ∧ ret = (s.sys.loop.answer cmd).getD (.error (responseFailedError what)) ∧
      ∃ sys, s.sys.step (.cmd cmd) = some sys ∧ s' = { s with sys := sys } := by
  have hopen := h.early rfl
  unfold ask at ha
  rw [if_neg (by rw [hopen.stays]; exact Bool.false_ne_true),
    if_neg (by rw [hopen.running]; exact Bool.false_ne_true)] at ha
  split at ha
  · rename_i hqueue
    obtain ⟨sys, hstep, heq⟩ := Option.map_eq_some_iff.1 ha
    cases heq
    exact ⟨hqueue, rfl, sys, hstep, rfl⟩
  · cases ha

theorem ask (h : s.Serves false) (hcmd : ∀ activeOrder groupOrder, cmd ≠ .close activeOrder groupOrder)
    (ha : s.ask what cmd = some (s', ret)) : s'.Serves false := by
  obtain ⟨_, _, sys, hstep, rfl⟩ := h.ask_cases ha
  have hopen := h.early rfl
  refine ⟨Sys.step_loopInv h.inv hstep, fun _ => ⟨hopen.stays, ?_, hopen.held, hopen.noClose⟩, nofun⟩
  apply running_of_step hstep hopen.running
  intro activeOrder groupOrder heq
  exact hcmd activeOrder groupOrder (Act.cmd.inj heq)

theorem ask_close {activeOrder groupOrder : List UniqueId} (h : s.Serves false)
    (ha : s.ask what (.close activeOrder groupOrder) = some (s', ret)) : s'.Serves true ∧ ret = .ok () := by
  obtain ⟨hqueue, hret, sys, hstep, rfl⟩ := h.ask_cases ha
  rw [Loop.answer_close] at hret
  have hopen := h.early rfl
  have hfinished := Finished.of_close hopen.stays hopen.running hstep hqueue
  exact ⟨⟨Sys.step_loopInv h.inv hstep, nofun, fun _ => hfinished⟩, hret⟩

/-- A task that it keeps is found. -/
theorem ask_found {taskId : TaskId} (h : s.Serves false) (hkeeps : s.Keeps taskId)
    (hcmd : cmd ∈ [TransferCmd.pause taskId, .cancel taskId]) (ha : s.ask what cmd = some (s', ret)) :
    ret = .ok () := by
  obtain ⟨hqueue, hret, _⟩ := h.ask_cases ha
  rcases hkeeps with ⟨key, group, hgroup, hid⟩ | ⟨inner, cb, hm, _⟩
  · have hlookup := (h.inv.inv.id_map taskId key).2 ⟨group, hgroup, hid⟩
    rw [Loop.answer_some hlookup cmd hcmd] at hret
    exact hret
  · rw [hqueue] at hm
    cases hm

theorem keeps_nothing (h : s.Serves true) (taskId : TaskId) : ¬ s.Keeps taskId := by
  have hfinished := h.late rfl
  rintro (⟨key, group, hgroup, _⟩ | ⟨inner, cb, hm, _⟩)
  · rw [hfinished.groups] at hgroup
    cases hgroup
  · rw [hfinished.queue] at hm
    cases hm

end Scheduler.Serves

/-- There is at most one scheduler, and every filled cell leads to it. -/
structure Single (c : Handles) : Prop where
  one : c.schedulers.length ≤ 1
  cell : ∀ (h j : Nat), c.cells[h]? = some (some j) → j < c.schedulers.length
  serves : ∀ s ∈ c.schedulers, s.Serves c.closed
  closes : c.closed = false → ∀ h activeOrder groupOrder,
    (h, .close activeOrder groupOrder, .ok ()) ∉ c.calls

namespace Single

variable {c c' : Handles} {s s' : Scheduler} {h j : Nat} {created ret : Except MeowError Unit} {what : String}
  {cmd : TransferCmd}

theorem init (maxUpload maxDownload : Nat) : Single (.init maxUpload maxDownload) where
  one := Nat.zero_le 1
  cell := by
    intro h j hj
    rcases h with _ | h <;> cases hj
  serves := nofun
  closes := nofun

/-- The scheduler moves on, to the stage that goes with the flag. -/
theorem setScheduler (hc : Single c) (hj : c.schedulers[j]? = some s) (closed : Bool)
    (hflag : closed = false → c.closed = false) (hs : s'.Serves closed) :
    Single { c.setScheduler j s' with closed := closed } where
  one := by simpa [Handles.setScheduler] using hc.one
  cell := by
    intro k l hl
    simpa [Handles.setScheduler] using hc.cell k l hl
  serves := by
    intro t ht
    obtain ⟨k, hk⟩ := List.mem_iff_getElem?.1 ht
    rcases Places.lookup_set.1 hk with ⟨_, _, rfl⟩ | ⟨hkj, hold⟩
    · exact hs
    · -- there is no other
      have hjlt := (List.getElem?_eq_some_iff.1 hj).1
      have hklt := (List.getElem?_eq_some_iff.1 hold).1
      have hone := hc.one
      omega
  closes := fun hopen => hc.closes (hflag hopen)

theorem getExec {r : Except MeowError Nat} (hc : Single c) (hopen : c.closed = false)
    (hempty : c.cells[h]? = some none → c.schedulers = []) (hg : c.getExec h created = some (c', r)) :
    Single c' ∧ c'.closed = false := by
  unfold Handles.getExec at hg
  split at hg
  · cases hg
  · cases hg
    exact ⟨hc, hopen⟩
  · rename_i hcell
    have hnone := hempty hcell
    split at hg
    · cases hg
      refine ⟨⟨?_, ?_, ?_, hc.closes⟩, hopen⟩
      · simp [hnone]
      · intro k l hl
        rcases Places.lookup_set.1 hl with ⟨_, _, heq⟩ | ⟨_, hold⟩
        · cases heq
          simp
        · have hlt := hc.cell k l hold
          simp only [List.length_append, List.length_singleton]
          omega
      · intro s hs
        rw [hnone] at hs
        rw [List.mem_singleton.1 hs]
        show (Scheduler.new c.maxUpload c.maxDownload).Serves c.closed
        rw [hopen]
        exact .new _ _
    · cases hg
      exact ⟨hc, hopen⟩

theorem askOn (hc : Single c) (hopen : c.closed = false)
    (hcmd : ∀ activeOrder groupOrder, cmd ≠ .close activeOrder groupOrder)
    (ha : c.askOn j what cmd = some (c', ret)) : Single c' := by
  obtain ⟨s, hj, hask⟩ := Option.bind_eq_some_iff.1 ha
  obtain ⟨⟨s', ret'⟩, hs, heq⟩ := Option.map_eq_some_iff.1 hask
  cases heq
  have hserves : s.Serves false := hopen ▸ hc.serves s (List.mem_of_getElem? hj)
  have hkeeps := hc.setScheduler hj c.closed id (hopen ▸ hserves.ask hcmd hs)
  exact hkeeps

theorem control (hc : Single c) (hopen : c.closed = false)
    (hempty : c.cells[h]? = some none → c.schedulers = [])
    (hcmd : ∀ activeOrder groupOrder, cmd ≠ .close activeOrder groupOrder)
    (ha : c.control h created what cmd = some (c', ret)) : Single c' := by
  obtain ⟨⟨c1, r⟩, hg, hrest⟩ := Option.bind_eq_some_iff.1 ha
  obtain ⟨hc1, hopen1⟩ := hc.getExec hopen hempty hg
  cases r with
  | ok j => exact hc1.askOn hopen1 hcmd hrest
  | error e =>
    cases hrest
    exact hc1

theorem enqueueOn {inner : InnerTask} (hc : Single c) (hopen : c.closed = false)
    (he : c.enqueueOn j inner = some (c', ret)) : Single c' := by
  obtain ⟨s, hj, hsend⟩ := Option.map_eq_some_iff.1 he
  split at hsend
  · rename_i s' hs
    cases hsend
    have hserves : s.Serves false := hopen ▸ hc.serves s (List.mem_of_getElem? hj)
    have hkeeps := hc.setScheduler hj c.closed id (hopen ▸ hserves.send hs)
    exact hkeeps
  · cases hsend
    exact hc

/-- A call keeps it so, and a close that is answered `Ok` sets the flag. -/
theorem call {op : HandleCall} (hc : Single c) (hshares : SharesExecutor c (.call h op created))
    (hs : c.call h op created = some (c', ret)) :
    Single c' ∧ ((∃ activeOrder groupOrder, op = .close activeOrder groupOrder) → ret = .ok () →
      c'.closed = true) := by
  unfold Handles.call at hs
  split at hs
  · rename_i hclosed
    cases hs
    exact ⟨hc, fun _ _ => hclosed⟩
  · rename_i hnot
    have hopen : c.closed = false := Bool.eq_false_iff.2 hnot
    have hempty (hlooks : op.looks = true) (hcell : c.cells[h]? = some none) : c.schedulers = [] :=
      List.isEmpty_iff.1 (hshares hopen hlooks hcell)
    cases op with
    | enqueue signed =>
      refine ⟨?_, by simp⟩
      cases signed with
      | error e =>
        cases hs
        exact hc
      | ok inner =>
        obtain ⟨⟨c1, r⟩, hg, hrest⟩ := Option.bind_eq_some_iff.1 hs
        obtain ⟨hc1, hopen1⟩ := hc.getExec hopen (hempty rfl) hg
        cases r with
        | ok j => exact hc1.enqueueOn hopen1 hrest
        | error e =>
          cases hrest
          exact hc1
    | pause taskId => exact ⟨hc.control hopen (hempty rfl) (by simp) hs, by simp⟩
    | resume taskId => exact ⟨hc.control hopen (hempty rfl) (by simp) hs, by simp⟩
    | cancel taskId => exact ⟨hc.control hopen (hempty rfl) (by simp) hs, by simp⟩
    | close activeOrder groupOrder =>
      simp only at hs
      split at hs
      · cases hs
      · -- nothing has been started yet
        rename_i hcell
        cases hs
        refine ⟨⟨hc.one, hc.cell, ?_, nofun⟩, fun _ _ => rfl⟩
        intro s hm
        rw [show c.schedulers = [] from hempty rfl hcell] at hm
        cases hm
      · rename_i j hcell
        obtain ⟨⟨c1, r⟩, hask, heq⟩ := Option.map_eq_some_iff.1 hs
        cases heq
        obtain ⟨s, hj, hmap⟩ := Option.bind_eq_some_iff.1 hask
        obtain ⟨⟨s', ret'⟩, hs', heq'⟩ := Option.map_eq_some_iff.1 hmap
        cases heq'
        have hserves : s.Serves false := hopen ▸ hc.serves s (List.mem_of_getElem? hj)
        obtain ⟨hserved, rfl⟩ := hserves.ask_close hs'
        exact ⟨hc.setScheduler hj true nofun hserved, fun _ _ => rfl⟩

theorem step {act : HandlesAct} (hc : Single c) (hshares : SharesExecutor c act) (hs : c.step act = some c') :
    Single c' := by
  cases act with
  | clone h =>
    obtain ⟨cell, hcell, rfl⟩ := Option.map_eq_some_iff.1 hs
    refine ⟨hc.one, fun k l hl => ?_, hc.serves, hc.closes⟩
    rcases Places.lookup_push.1 hl with hold | ⟨_, heq⟩
    · exact hc.cell k l hold
    · exact hc.cell h l (hcell.trans (congrArg some heq.symm))
  | call h op created =>
    simp only [Handles.step] at hs
    split at hs
    · obtain ⟨⟨c1, ret⟩, hcall, rfl⟩ := Option.map_eq_some_iff.1 hs
      obtain ⟨hc1, hclosed⟩ := hc.call hshares hcall
      refine ⟨hc1.one, hc1.cell, hc1.serves, fun hopen k activeOrder groupOrder hm => ?_⟩
      rcases List.mem_append.1 hm with hold | hnew
      · exact hc1.closes hopen k activeOrder groupOrder hold
      · cases List.mem_singleton.1 hnew
        exact Bool.false_ne_true (hopen.symm.trans (hclosed ⟨activeOrder, groupOrder, rfl⟩ rfl))
    · cases hs
  | scheduler j act =>
    obtain ⟨s, hj, hmap⟩ := Option.bind_eq_some_iff.1 hs
    obtain ⟨s', hs', rfl⟩ := Option.map_eq_some_iff.1 hmap
    have hserves := hc.serves s (List.mem_of_getElem? hj)
    have hkeeps := hc.setScheduler hj c.closed id (hserves.step hs')
    exact hkeeps

theorem run {maxUpload maxDownload : Nat} {acts : List HandlesAct}
    (hrun : Lts.run Handles.step (.init maxUpload maxDownload) acts = some c)
    (hshares : Lts.Meets Handles.step SharesExecutor (.init maxUpload maxDownload) acts) : Single c :=
  Lts.run_invariant_of_meets (fun _ _ _ hc hmeets hstep => hc.step hmeets hstep) (init _ _) hshares hrun

/-- Whatever handle asks, a task that is kept is found. -/
theorem found {taskId : TaskId} {op : HandleCall} (hc : Single c)
    (hshares : SharesExecutor c (.call h op created)) (hop : op = .pause taskId ∨ op = .cancel taskId)
    (hm : s ∈ c.schedulers) (hkeeps : s.Keeps taskId) (hs : c.call h op created = some (c', ret)) :
    ret = .ok () := by
  have hopen : c.closed = false := by
    by_contra hclosed
    have hserves := hc.serves s hm
    rw [Bool.eq_true_of_not_eq_false hclosed] at hserves
    exact hserves.keeps_nothing taskId hkeeps
  have hcontrol : ∃ what cmd, cmd ∈ [TransferCmd.pause taskId, .cancel taskId] ∧
      c.control h created what cmd = some (c', ret) := by
    unfold Handles.call at hs
    rw [if_neg (by rw [hopen]; exact Bool.false_ne_true)] at hs
    rcases hop with rfl | rfl
    · exact ⟨"pause", _, by simp, hs⟩
    · exact ⟨"cancel", _, by simp, hs⟩
  have hlooks : op.looks = true := by rcases hop with rfl | rfl <;> rfl
  obtain ⟨what, cmd, hcmd, hcontrol⟩ := hcontrol
  obtain ⟨⟨c1, r⟩, hg, hrest⟩ := Option.bind_eq_some_iff.1 hcontrol
  unfold Handles.getExec at hg
  split at hg
  · cases hg
  · rename_i j hcell
    cases hg
    obtain ⟨t, hj, hask⟩ := Option.bind_eq_some_iff.1 hrest
    obtain ⟨⟨s', ret'⟩, hs', heq⟩ := Option.map_eq_some_iff.1 hask
    cases heq
    obtain ⟨k, hk⟩ := List.mem_iff_getElem?.1 hm
    have hjk : j = k := by
      have hjlt := (List.getElem?_eq_some_iff.1 hj).1
      have hklt := (List.getElem?_eq_some_iff.1 hk).1
      have hone := hc.one
      omega
    subst hjk
    cases hj.symm.trans hk
    have hserves : s.Serves false := hopen ▸ hc.serves s hm
    exact hserves.ask_found hkeeps hcmd hs'
  · -- an empty cell is not looked at any more
    rename_i hcell
    have hnone := List.isEmpty_iff.1 (hshares hopen hlooks hcell)
    rw [hnone] at hm
    cases hm

end Single

/-- **Clones are one client** as long as no empty cell is looked at once there is a scheduler: a task is found
through every handle, and after a close through any of them none is left. -/
theorem clones_are_one_client {maxUpload maxDownload : Nat} {acts : List HandlesAct} {c : Handles}
    (hrun : Lts.run Handles.step (.init maxUpload maxDownload) acts = some c)
    (hshares : Lts.Meets Handles.step SharesExecutor (.init maxUpload maxDownload) acts) :
    (∀ before h op created after point taskId, acts = before ++ .call h op created :: after →
      Lts.run Handles.step (.init maxUpload maxDownload) before = some point →
      op = .pause taskId ∨ op = .cancel taskId → (∃ s ∈ point.schedulers, s.Keeps taskId) →
      ∃ point', point.call h op created = some (point', .ok ())) ∧
    ((∃ h activeOrder groupOrder, (h, .close activeOrder groupOrder, .ok ()) ∈ c.calls) →
      ∀ s ∈ c.schedulers, ∀ taskId, ¬ s.Keeps taskId) := by
  constructor
  · rintro before h op created after point taskId rfl hbefore hop ⟨s, hm, hkeeps⟩
    have hc := Single.run hbefore hshares.left
    obtain ⟨hnow, _⟩ := hshares.right hbefore
    obtain ⟨point', hbefore', hstep⟩ := Lts.run_append.1 hrun
    cases hbefore.symm.trans hbefore'
    obtain ⟨next, hnext, _⟩ := Lts.run_cons.1 hstep
    simp only [Handles.step] at hnext
    split at hnext
    · obtain ⟨⟨c1, ret⟩, hcall, _⟩ := Option.map_eq_some_iff.1 hnext
      have hret := hc.found hnow hop hm hkeeps hcall
      exact ⟨c1, hret ▸ hcall⟩
    · cases hnext
  · rintro ⟨h, activeOrder, groupOrder, hclose⟩ s hs taskId
    have hc := Single.run hrun hshares
    have hclosed : c.closed = true := by
      by_contra hopen
      exact hc.closes (Bool.eq_false_iff.2 hopen) h activeOrder groupOrder hclose
    have hserves := hc.serves s hs
    rw [hclosed] at hserves
    exact hserves.keeps_nothing taskId

/-- A client is used, then cloned; the clone pauses its task and closes. -/
def cloneAfterUse : List HandlesAct :=
  [.call 0 (.enqueue (.ok (sampleTask 0))) (.ok ()), .clone 0, .scheduler 0 (.process [] []),
    .call 1 (.pause ⟨0⟩) (.ok ()),
    .call 1 (.close [(.download, "http://host/cat.bin")] [(.download, "http://host/cat.bin")]) (.ok ())]

theorem clones_are_one_client_used : ∃ c, Lts.run Handles.step (.init 1 1) cloneAfterUse = some c ∧
    c.calls.map (fun called => called.2.2) = [.ok (), .ok (), .ok ()] ∧
    ∀ s ∈ c.schedulers, ∀ taskId, ¬ s.Keeps taskId := by
  have hrun : Lts.run Handles.step (.init 1 1) cloneAfterUse = some _ := Lts.run_final (by decide)
  obtain ⟨_, hclosed⟩ := clones_are_one_client hrun (by decide)
  refine ⟨_, hrun, by decide, hclosed ⟨1, [(.download, "http://host/cat.bin")],
    [(.download, "http://host/cat.bin")], ?_⟩⟩
  decide

/-- A client is cloned before its first use; the clone looks for the task of the original. -/
def cloneBeforeUse : List HandlesAct :=
  [.clone 0, .call 0 (.enqueue (.ok (sampleTask 0))) (.ok ()), .scheduler 0 (.process [] [])]

/-- **A clone does not find the task.** It runs, and its pause through the clone is answered `TaskNotFound`. -/
theorem cloneBeforeUse_notFound : ∃ point c e, Lts.run Handles.step (.init 1 1) cloneBeforeUse = some point ∧
    (∃ s ∈ point.schedulers, s.Keeps ⟨0⟩) ∧ point.step (.call 1 (.pause ⟨0⟩) (.ok ())) = some c ∧
    c.calls = [(0, .enqueue (.ok (sampleTask 0)), .ok ()), (1, .pause ⟨0⟩, .error e)] ∧
    e.code = InnerErrorCode.taskNotFound.toI32 := by
  have hrun : Lts.run Handles.step (.init 1 1) cloneBeforeUse = some _ := Lts.run_final (by decide)
  refine ⟨_, _, taskNotFoundError ⟨0⟩, hrun, ?_, rfl, rfl, rfl⟩
  exact ⟨_, List.mem_cons_self, .inl ⟨(.download, "http://host/cat.bin"), _, rfl, rfl⟩⟩

/-- **A close through a clone leaves the task running.** -/
theorem cloneBeforeUse_survives : ∃ c, Lts.run Handles.step (.init 1 1)
    (cloneBeforeUse ++ [.call 1 (.close [] []) (.ok ())]) = some c ∧
    c.calls = [(0, .enqueue (.ok (sampleTask 0)), .ok ()), (1, .close [] [], .ok ())] ∧
    ∃ s ∈ c.schedulers, s.Keeps ⟨0⟩ := by
  have hrun : Lts.run Handles.step (.init 1 1)
      (cloneBeforeUse ++ [.call 1 (.close [] []) (.ok ())]) = some _ := Lts.run_final (by decide)
  refine ⟨_, hrun, rfl, ?_⟩
  exact ⟨_, List.mem_cons_self, .inl ⟨(.download, "http://host/cat.bin"), _, rfl, rfl⟩⟩

end SpottedCat
