import SpottedCat.Joint.System
import SpottedCat.Sched.Lifecycle

/-!
# A scheduler thread and its command channel (`executor.rs:48-326`, `:507-566`)

| here | there |
| --- | --- |
| `Command`    | a `TransferCmd` that is in the channel |
| `Scheduler`  | the thread of one `worker_loop`: the loop with its workers, and the channel it receives from |
| `Scheduler.trySend` | `cmd_tx.try_send` (:551) |
| `SchedulerAct.process` | the loop receives the oldest command (:69) |
| `SchedulerAct.leave`   | the loop has been left, by `Close` (:305) or because no sender is left (:70) |

Then `block_on` returns, and the receiver and the runtime are dropped: the one drops the commands in the
channel, the other the workers. The `select!` is
biased to commands, but one may arrive between its two polls, so an event can be handled before it.
-/

namespace SpottedCat

inductive Command where
  | enqueue (inner : InnerTask) (cb : ProgressCb)
  | close
deriving DecidableEq, Repr

/-- What the loop gets; for `Close` the orders in which the two hash maps iterate then. -/
def Command.received (activeOrder groupOrder : List UniqueId) : Command → TransferCmd
  | .enqueue inner cb => .enqueue inner ⟨some cb⟩
  | .close => .close activeOrder groupOrder

structure Scheduler where
  sys : Sys
  /-- The commands in the channel, oldest first. -/
  queue : List Command
  /-- Somebody holds an `Executor` with a sender. -/
  held : Bool
  /-- The thread is gone, and the receiver with it. -/
  exited : Bool

inductive SchedulerAct where
  | process (activeOrder groupOrder : List UniqueId)
  | deliver (i : Nat)
  | work (i : Nat) (input : RunIn)
  | leave
deriving DecidableEq, Repr

/-- executor.rs:519 -/
def commandCapacity : Nat := 256

/-- A command could not be sent: executor.rs:587, :624, :661, :711, with tokio's text for it. -/
def sendFailedError (what : String) : MeowError :=
  .fromCode .commandSendFailed s!"{what}_failed: channel closed"

/-- A command was not answered: executor.rs:600, :637, :674, :717. -/
def responseFailedError (what : String) : MeowError :=
  .fromCode .commandResponseFailed s!"{what} response failed: channel closed"

namespace Scheduler

/-- executor.rs:508 -/
def new (maxUpload maxDownload : Nat) : Scheduler := ⟨.init maxUpload maxDownload, [], true, false⟩

/-- The error is the text of tokio's `TrySendError`. -/
def trySend (s : Scheduler) (cmd : Command) : Except String Scheduler :=
  if s.exited then .error "channel closed"
  else if commandCapacity ≤ s.queue.length then .error "no available capacity"
  else .ok { s with queue := s.queue ++ [cmd] }

/-- What is left when the thread is gone. -/
def left (s : Scheduler) : Scheduler :=
  { s with
    sys := ⟨s.sys.loop, { s.sys.pool with workers := [] }⟩
    queue := []
    exited := true }

def step (s : Scheduler) (act : SchedulerAct) : Option Scheduler :=
  if s.exited then none
  else
    match act with
    | .process activeOrder groupOrder =>
      match s.queue with
      | cmd :: rest =>
        (s.sys.step (.cmd (cmd.received activeOrder groupOrder))).map fun sys =>
          { s with sys := sys, queue := rest }
      | [] => none
    | .deliver i => (s.sys.step (.deliver i)).map fun sys => { s with sys := sys }
    | .work i input => (s.sys.step (.work i input)).map fun sys => { s with sys := sys }
    | .leave => if s.sys.loop.closed = true ∨ s.held = false ∧ s.queue = [] then some s.left else none

/-- What one step does: it receives a command, moves on between commands, or leaves. -/
theorem step_cases {s s' : Scheduler} {act : SchedulerAct} (h : s.step act = some s') :
    s.exited = false ∧
      ((∃ cmd rest activeOrder groupOrder sys, s.queue = cmd :: rest ∧
          s.sys.step (.cmd (cmd.received activeOrder groupOrder)) = some sys ∧
            s' = { s with sys := sys, queue := rest }) ∨
        (∃ a sys, (∀ c, a ≠ .cmd c) ∧ (∀ op, a ≠ .listen op) ∧ s.sys.step a = some sys ∧
          s' = { s with sys := sys }) ∨
        (s.sys.loop.closed = true ∨ s.held = false ∧ s.queue = []) ∧ s' = s.left) := by
  unfold step at h
  split at h
  · cases h
  · rename_i hexited
    refine ⟨Bool.eq_false_iff.2 hexited, ?_⟩
    cases act with
    | process activeOrder groupOrder =>
      simp only at h
      split at h
      · rename_i cmd rest hq
        obtain ⟨sys, hs, rfl⟩ := Option.map_eq_some_iff.1 h
        exact .inl ⟨cmd, rest, activeOrder, groupOrder, sys, hq, hs, rfl⟩
      · cases h
    | deliver i =>
      obtain ⟨sys, hs, rfl⟩ := Option.map_eq_some_iff.1 h
      exact .inr (.inl ⟨_, sys, by simp, by simp, hs, rfl⟩)
    | work i input =>
      obtain ⟨sys, hs, rfl⟩ := Option.map_eq_some_iff.1 h
      exact .inr (.inl ⟨_, sys, by simp, by simp, hs, rfl⟩)
    | leave =>
      simp only at h
      split at h
      · rename_i hleave
        cases h
        exact .inr (.inr ⟨hleave, rfl⟩)
      · cases h

theorem trySend_ok {s s' : Scheduler} {cmd : Command} (h : s.trySend cmd = .ok s') :
    s.exited = false ∧ s.queue.length < commandCapacity ∧ s' = { s with queue := s.queue ++ [cmd] } := by
  unfold trySend at h
  split at h
  · cases h
  split at h
  · cases h
  · rename_i hexited hfull
    cases h
    exact ⟨Bool.eq_false_iff.2 hexited, Nat.lt_of_not_le hfull, rfl⟩

end Scheduler

/-! ## What the loop does with a command -/

/-- An `Enqueue` that is handled tells its callback something: `Pending`, or the refusal. -/
theorem statusesTo_react_enqueue (s : SchedulerState) (inner : InnerTask) (cb : ProgressCb) :
    statusesTo cb (react s (.cmd (.enqueue inner ⟨some cb⟩))).2 ≠ [] := by
  cases hg : s.groups.lookup inner.dedupeKey with
  | none =>
    simp only [react, handleCmd, hg, thenStart, acceptTask, statusesTo_append, statusesTo_emitStatus]
    simp
  | some existing =>
    simp only [react, handleCmd, hg, statusesTo_append, invokeProgressCb]
    simp [statusesTo]

/-- The loop's log only grows, and it ends by `Close` alone, which leaves no group. -/
theorem Sys.step_loop {sys sys' : Sys} {act : Act} (h : sys.step act = some sys') :
    (∃ es, sys'.loop.log = sys.loop.log ++ es) ∧
      (sys'.loop.closed = true → sys.loop.closed = true ∧ sys'.loop = sys.loop ∨
        (∃ activeOrder groupOrder, act = .cmd (.close activeOrder groupOrder)) ∧
          sys'.loop.state.groups = ∅) ∧
      ∀ c, act = .cmd c → sys.loop.closed = false ∧ sys'.loop.closed = (LoopInput.cmd c).closes ∧
        sys'.loop.log = sys.loop.log ++ (react sys.loop.state (.cmd c)).2 := by
  obtain ⟨input, pool, hin, hfeed⟩ | ⟨i, input, pool, rfl, _, rfl⟩ := Sys.step_cases h
  · obtain ⟨hopen, _, hloop⟩ := Loop.step_eq_some.1 (Sys.feed_eq_some.1 hfeed).1
    rw [hloop]
    refine ⟨⟨_, rfl⟩, fun hclosed => .inr ?_, fun c hc => ?_⟩
    · cases input with
      | event | listen => cases hclosed
      | cmd c =>
        cases c with
        | close activeOrder groupOrder =>
          exact ⟨⟨activeOrder, groupOrder, Sys.intake_cmd hin⟩, rfl⟩
        | enqueue | pause | resume | cancel | snapshot => cases hclosed
    · subst hc
      cases hin
      exact ⟨hopen, rfl, rfl⟩
  · exact ⟨⟨[], (List.append_nil _).symm⟩, fun hclosed => .inl ⟨hclosed, rfl⟩, fun c hc => by cases hc⟩

/-! ## The stages of a scheduler -/

namespace Scheduler

/-- It has never been sent anything; it leaves only if nobody can send. -/
structure Pristine (s : Scheduler) : Prop where
  queue : s.queue = []
  workers : s.sys.pool.workers = []
  running : s.sys.loop.closed = false
  groups : s.sys.loop.state.groups = ∅
  stays : s.exited = true → s.held = false

/-- It serves, and no `Close` is on its way. -/
structure Open (s : Scheduler) : Prop where
  stays : s.exited = false
  running : s.sys.loop.closed = false
  held : s.held = true
  noClose : .close ∉ s.queue

/-- A `Close` is the last command in the channel. -/
structure Closing (s : Scheduler) : Prop where
  stays : s.exited = false
  running : s.sys.loop.closed = false
  held : s.held = true
  closeLast : ∃ es, s.queue = es ++ [.close] ∧ .close ∉ es

/-- `Close` has been handled, and nothing came after it. -/
structure Finished (s : Scheduler) : Prop where
  closed : s.sys.loop.closed = true
  queue : s.queue = []
  groups : s.sys.loop.state.groups = ∅
  workers : s.exited = true → s.sys.pool.workers = []

/-- The `Enqueue` with callback `cb` is in the channel, or its callback has been told something. -/
def Tells (s : Scheduler) (cb : ProgressCb) : Prop :=
  (∃ inner, .enqueue inner cb ∈ s.queue) ∨ statusesTo cb s.sys.loop.log ≠ []

variable {s s' : Scheduler} {act : SchedulerAct} {cb : ProgressCb}

theorem new_pristine (maxUpload maxDownload : Nat) : (new maxUpload maxDownload).Pristine :=
  ⟨rfl, rfl, rfl, rfl, nofun⟩

theorem Pristine.open (h : s.Pristine) (hheld : s.held = true) : s.Open where
  stays := by
    by_contra hexited
    rw [h.stays (Bool.eq_true_of_not_eq_false hexited)] at hheld
    cases hheld
  running := h.running
  held := hheld
  noClose := by rw [h.queue]; exact List.not_mem_nil

theorem step_held (hs : s.step act = some s') : s'.held = s.held := by
  obtain ⟨_, ⟨_, _, _, _, _, _, _, rfl⟩ | ⟨_, _, _, _, _, rfl⟩ | ⟨_, rfl⟩⟩ := step_cases hs <;> rfl

/-- A scheduler without workers has nothing to do between commands. -/
theorem no_step_of_workers {sys : Sys} {a : Act} (hw : sys.pool.workers = []) (hcmd : ∀ c, a ≠ .cmd c)
    (hlisten : ∀ op, a ≠ .listen op) : sys.step a = none := by
  cases a with
  | cmd c => exact absurd rfl (hcmd c)
  | listen op => exact absurd rfl (hlisten op)
  | deliver i => simp [Sys.step, Sys.intake, Pool.take, hw]
  | work i input => simp [Sys.step, Pool.work, hw]

theorem Pristine.step (h : s.Pristine) (hs : s.step act = some s') : s'.Pristine := by
  obtain ⟨_, ⟨cmd, rest, _, _, _, hq, _⟩ | ⟨a, sys, hcmd, hlisten, hstep, _⟩ | ⟨hleave, rfl⟩⟩ :=
    step_cases hs
  · rw [h.queue] at hq
    cases hq
  · rw [no_step_of_workers h.workers hcmd hlisten] at hstep
    cases hstep
  · rcases hleave with hclosed | ⟨hheld, _⟩
    · rw [h.running] at hclosed
      cases hclosed
    · exact ⟨rfl, rfl, h.running, h.groups, fun _ => hheld⟩

/-- A loop that runs for somebody is not left. -/
theorem not_leave (hrun : s.sys.loop.closed = false) (hheld : s.held = true) :
    ¬ (s.sys.loop.closed = true ∨ s.held = false ∧ s.queue = []) := by
  rw [hrun, hheld]
  simp

/-- Between commands the loop does not end. -/
theorem running_of_step {sys sys' : Sys} {a : Act} (hs : sys.step a = some sys')
    (hrun : sys.loop.closed = false) (hclose : ∀ activeOrder groupOrder,
      a ≠ .cmd (.close activeOrder groupOrder)) : sys'.loop.closed = false := by
  by_contra hclosed
  obtain ⟨_, hends, _⟩ := Sys.step_loop hs
  rcases hends (Bool.eq_true_of_not_eq_false hclosed) with ⟨hold, _⟩ | ⟨⟨ao, go, ha⟩, _⟩
  · rw [hrun] at hold
    cases hold
  · exact hclose ao go ha

theorem Open.step (h : s.Open) (hs : s.step act = some s') : s'.Open := by
  obtain ⟨_, ⟨cmd, rest, ao, go, sys, hq, hstep, rfl⟩ | ⟨a, sys, hcmd, hlisten, hstep, rfl⟩ |
    ⟨hleave, rfl⟩⟩ := step_cases hs
  · have hrest : ∀ c ∈ cmd :: rest, c ≠ .close := by
      rintro c hc rfl
      exact h.noClose (hq ▸ hc)
    refine ⟨h.stays, running_of_step hstep h.running ?_, h.held, fun hm => ?_⟩
    · intro ao' go' ha
      cases cmd with
      | enqueue => cases ha
      | close => exact hrest _ List.mem_cons_self rfl
    · exact hrest _ (List.mem_cons_of_mem _ hm) rfl
  · exact ⟨h.stays, running_of_step hstep h.running fun ao go => hcmd _, h.held, h.noClose⟩
  · exact absurd hleave (not_leave h.running h.held)

/-- Sending the `Close` is what ends the first stage. -/
theorem Open.close (h : s.Open) : Closing { s with queue := s.queue ++ [.close] } where
  stays := h.stays
  running := h.running
  held := h.held
  closeLast := ⟨s.queue, rfl, h.noClose⟩

theorem Open.enqueue (h : s.Open) (inner : InnerTask) (cb : ProgressCb) :
    Open { s with queue := s.queue ++ [.enqueue inner cb] } where
  stays := h.stays
  running := h.running
  held := h.held
  noClose := by simpa using h.noClose

/-- The loop handles the `Close`, and nothing is left in the channel. -/
theorem Finished.of_close {sys : Sys} {activeOrder groupOrder : List UniqueId} {rest : List Command}
    (hstays : s.exited = false) (hrun : s.sys.loop.closed = false)
    (hs : s.sys.step (.cmd (.close activeOrder groupOrder)) = some sys) (hrest : rest = []) :
    Finished { s with sys := sys, queue := rest } := by
  obtain ⟨_, hends, hclose⟩ := Sys.step_loop hs
  have hclosed : sys.loop.closed = true := (hclose _ rfl).2.1
  rcases hends hclosed with ⟨hold, _⟩ | ⟨_, hgroups⟩
  · rw [hrun] at hold
    cases hold
  · refine ⟨hclosed, hrest, hgroups, fun hexited => ?_⟩
    rw [hstays] at hexited
    cases hexited

theorem Closing.step (h : s.Closing) (hs : s.step act = some s') : s'.Closing ∨ s'.Finished := by
  obtain ⟨es, hes, hno⟩ := h.closeLast
  obtain ⟨_, ⟨cmd, rest, ao, go, sys, hq, hstep, rfl⟩ | ⟨a, sys, hcmd, hlisten, hstep, rfl⟩ |
    ⟨hleave, rfl⟩⟩ := step_cases hs
  · rw [hes] at hq
    cases es with
    | nil =>
      -- it is the `Close` itself
      cases hq
      exact .inr (.of_close h.stays h.running hstep rfl)
    | cons e es =>
      obtain ⟨rfl, hrest⟩ := List.cons.inj hq
      left
      refine ⟨h.stays, running_of_step hstep h.running ?_, h.held, es, hrest.symm,
        fun hm => hno (List.mem_cons_of_mem _ hm)⟩
      intro ao' go' ha
      cases e with
      | enqueue => cases ha
      | close => exact hno List.mem_cons_self
  · exact .inl ⟨h.stays, running_of_step hstep h.running fun ao go => hcmd _, h.held, es, hes, hno⟩
  · exact absurd hleave (not_leave h.running h.held)

theorem Finished.step (h : s.Finished) (hs : s.step act = some s') : s'.Finished := by
  obtain ⟨hstays, ⟨cmd, rest, _, _, _, hq, _⟩ | ⟨a, sys, hcmd, hlisten, hstep, rfl⟩ | ⟨_, rfl⟩⟩ :=
    step_cases hs
  · rw [h.queue] at hq
    cases hq
  · -- only workers still move
    obtain ⟨input, pool, hin, hfeed⟩ | ⟨i, input, pool, rfl, _, rfl⟩ := Sys.step_cases hstep
    · have hrun := (Loop.step_eq_some.1 (Sys.feed_eq_some.1 hfeed).1).1
      rw [h.closed] at hrun
      cases hrun
    · refine ⟨h.closed, h.queue, h.groups, fun hexited => ?_⟩
      rw [hstays] at hexited
      cases hexited
  · exact ⟨h.closed, rfl, h.groups, fun _ => rfl⟩

theorem Tells.send (h : s.Tells cb) (cmd : Command) : Tells { s with queue := s.queue ++ [cmd] } cb := by
  rcases h with ⟨inner, hm⟩ | htold
  · exact .inl ⟨inner, List.mem_append_left _ hm⟩
  · exact .inr htold

/-- The `Enqueue` stays on its way until its callback has been told something. -/
theorem Tells.step (h : s.Tells cb) (hs : s.step act = some s')
    (hleave : s.sys.loop.closed = true → s.queue = []) : s'.Tells cb := by
  have hgrows : ∀ es, statusesTo cb s.sys.loop.log ≠ [] → statusesTo cb (s.sys.loop.log ++ es) ≠ [] := by
    intro es hne hnil
    rw [statusesTo_append] at hnil
    exact hne (List.append_eq_nil_iff.1 hnil).1
  obtain ⟨_, ⟨cmd, rest, ao, go, sys, hq, hstep, rfl⟩ | ⟨a, sys, _, _, hstep, rfl⟩ | ⟨hend, rfl⟩⟩ :=
    step_cases hs
  · obtain ⟨_, _, hcmd⟩ := Sys.step_loop hstep
    have hlog := (hcmd _ rfl).2.2
    rcases h with ⟨inner, hm⟩ | hold
    · rw [hq] at hm
      rcases List.mem_cons.1 hm with rfl | hm
      · right
        simp only [hlog, statusesTo_append]
        exact fun hnil => statusesTo_react_enqueue _ inner cb (List.append_eq_nil_iff.1 hnil).2
      · exact .inl ⟨inner, hm⟩
    · right
      simp only [hlog]
      exact hgrows _ hold
  · obtain ⟨⟨es, hlog⟩, _⟩ := Sys.step_loop hstep
    rcases h with hm | hold
    · exact .inl hm
    · right
      simp only [hlog]
      exact hgrows _ hold
  · have hnil : s.queue = [] := hend.elim hleave And.right
    rcases h with ⟨inner, hm⟩ | hold
    · rw [hnil] at hm
      cases hm
    · exact .inr hold

end Scheduler

end SpottedCat
