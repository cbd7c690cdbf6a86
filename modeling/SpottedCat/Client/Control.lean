import Mathlib.Data.List.Pairwise
import SpottedCat.Client.Scheduler
import SpottedCat.Lib.Service

/-!
# The calls of an `Executor` (`executor.rs:502-720`)

Any number of callers share one `Executor`, clones included. Each call sends one command into the channel of the
scheduler, and all but `enqueue` wait for the answer in a `oneshot` channel that the command carries.

| here | there |
| --- | --- |
| `Request`        | a call, with the command that it sends |
| `Request.result` | what it returns: executor.rs:551-565, :582-606, :619-643, :656-680, :685-699, :706-718 |
| `executor`       | `worker_loop` with its workers as a server (`Service`): it answers by `respond_to.send` |
| `Action.leave`   | `break` and the end of `block_on`: the receiver is dropped with the commands and their `respond_to` |
| `Action.abandon` | the future of a call is dropped |

Somebody holds the `Executor` all the time, so the loop is not left for want of a sender (:70).

* `control_linearizable`: **the calls take effect one after the other**, each at one moment between its beginning and
  its return, and a call that returns `CommandSendFailed` or `CommandResponseFailed` has had no effect;
* `control_returns`: **no call hangs**, after `Close` either.
-/

namespace SpottedCat

inductive Request where
  | enqueue (inner : InnerTask) (callbacks : TaskCallbacks)
  | pause (taskId : TaskId)
  | resume (taskId : TaskId)
  | cancel (taskId : TaskId)
  | snapshot
  | close
deriving DecidableEq

/-- What comes through a `respond_to` channel. -/
inductive Reply where
  | done (ret : Except MeowError Unit)
  | snapshot (snapshot : TransferSnapshot)
deriving DecidableEq

namespace Request

/-- With the orders in which the two hash maps iterate when a `Close` is handled. -/
def cmd (orders : List UniqueId × List UniqueId) : Request → TransferCmd
  | .enqueue inner callbacks => .enqueue inner callbacks
  | .pause taskId => .pause taskId
  | .resume taskId => .resume taskId
  | .cancel taskId => .cancel taskId
  | .snapshot => .snapshot
  | .close => .close orders.1 orders.2

/-- All but `enqueue`, which tries once to send (executor.rs:551). -/
def waits : Request → Bool
  | .enqueue .. => false
  | _ => true

/-- The id that an `enqueue` brings. -/
def taskId? : Request → Option TaskId
  | .enqueue inner _ => some inner.taskId
  | _ => none

/-- The channel could not be sent to; the text of tokio's errors is the argument. -/
def sendError (e : String) : Request → MeowError
  | .enqueue .. => .fromCode .commandSendFailed s!"enqueue_failed: {e}"
  | .pause _ => .fromCode .commandSendFailed s!"pause_failed: {e}"
  | .resume _ => .fromCode .commandSendFailed s!"resume_failed: {e}"
  | .cancel _ => .fromCode .commandSendFailed s!"cancel_failed: {e}"
  | .snapshot => .fromCode .commandSendFailed s!"snapshot cmd_tx send failed: {e}"
  | .close => .fromCode .commandSendFailed s!"close_failed: {e}"

/-- The answer did not come. An `enqueue` waits for none. -/
def answerError (e : String) : Request → MeowError
  | .enqueue .. => .fromCode .commandResponseFailed e
  | .pause _ => .fromCode .commandResponseFailed s!"pause response failed: {e}"
  | .resume _ => .fromCode .commandResponseFailed s!"resume response failed: {e}"
  | .cancel _ => .fromCode .commandResponseFailed s!"cancel response failed: {e}"
  | .snapshot => .fromCode .commandResponseFailed s!"snapshot rx.await failed: {e}"
  | .close => .fromCode .commandResponseFailed s!"close response failed: {e}"

/-- What a call returns; an `Ok` of `enqueue` carries its task id, one of `snapshot` the snapshot. -/
def result (req : Request) : Service.Ret Reply → Except MeowError (Option TaskId × Option TransferSnapshot)
  | .posted => .ok (req.taskId?, none)
  | .answer (.done (.ok ())) => .ok (none, none)
  | .answer (.done (.error e)) => .error e
  | .answer (.snapshot counts) => .ok (none, some counts)
  | .full => .error (req.sendError "no available capacity")
  | .closed => .error (req.sendError "channel closed")
  | .unanswered => .error (req.answerError "channel closed")

end Request

/-- What an action of the system asks of the loop. -/
def Act.request : Act → Option Request
  | .cmd (.enqueue inner callbacks) => some (.enqueue inner callbacks)
  | .cmd (.pause taskId) => some (.pause taskId)
  | .cmd (.resume taskId) => some (.resume taskId)
  | .cmd (.cancel taskId) => some (.cancel taskId)
  | .cmd .snapshot => some .snapshot
  | .cmd (.close ..) => some .close
  | _ => none

def Effect.reply : Effect → Option Reply
  | .respond _ ret => some (.done ret)
  | .respondSnapshot snapshot => some (.snapshot snapshot)
  | _ => none

/-- The answers among these effects, in order. -/
def replies (es : List Effect) : List Reply := es.filterMap Effect.reply

/-! ## One answer to each command -/

section
variable {es es' : List Effect} {s : SchedulerState}

@[simp] theorem replies_append : replies (es ++ es') = replies es ++ replies es' := List.filterMap_append ..

@[simp] theorem replies_respond (cmd : TransferCmd) (ret : Except MeowError Unit) :
    replies [.respond cmd ret] = [.done ret] := rfl

/-- Records are no answers. -/
theorem replies_of_records (h : ∀ e ∈ es, e.record ≠ none) : replies es = [] := by
  rw [replies, List.filterMap_eq_nil_iff]
  intro e he
  cases e with
  | invoke | broadcast | cancel | spawn => rfl
  | respond | respondSnapshot => exact absurd rfl (h _ he)

@[simp] theorem replies_notify (callbacks : TaskCallbacks) (dto : FileTransferRecord) :
    replies (invokeProgressCb callbacks dto ++ emitGlobalProgress s dto) = [] := by
  apply replies_of_records
  intro e he
  rw [mem_notify he]
  simp

@[simp] theorem replies_emitStatus (entry : RecordEntry) (status : TransferStatus) (transferred total : Nat) :
    replies (emitStatus s entry status transferred total) = [] := replies_notify _ _

@[simp] theorem replies_groupStatus (key : UniqueId) (status : TransferStatus) (transferred : Nat)
    (total : GroupState → Nat) : replies (groupStatus s key status transferred total) = [] := by
  unfold groupStatus
  split
  · simp
  · rfl

@[simp] theorem replies_cancelActive (key : UniqueId) : replies (cancelActive s key) = [] := by
  unfold cancelActive
  split <;> rfl

@[simp] theorem replies_tryStartNext : replies (tryStartNext s).effects = [] := by
  refine tryStartNext_induct (P := fun _ es => replies es = []) rfl ?_ ?_ ?_
  · intro st es key rest h _ _
    exact h
  · intro st es key rest h _ _
    exact h
  · intro st es key rest group h _ _ _ _
    rw [replies_append, h, startEffects, replies_append, replies_emitStatus]
    rfl

@[simp] theorem replies_thenStart (x : SchedulerState × List Effect) : replies (thenStart x).2 = replies x.2 := by
  simp [thenStart]

/-- The answer comes before `try_start_next` runs. -/
theorem replies_answered (hes : replies es = []) (cmd : TransferCmd) (ret : Except MeowError Unit) :
    replies (thenStart (s, es ++ [.respond cmd ret])).2 = [.done ret] := by
  rw [replies_thenStart, replies_append, hes, replies_respond, List.nil_append]

theorem replies_handleWorkerEvent (event : WorkerEvent) : replies (handleWorkerEvent s event).2 = [] := by
  cases event with
  | progress | completed | failed => simp [handleWorkerEvent]
  | canceled =>
    simp only [handleWorkerEvent]
    split
    · rfl
    · simp

theorem replies_resumeGroup (key : UniqueId) : replies (resumeGroup s key).2.2 = [] := by
  unfold resumeGroup
  split
  · rfl
  split
  · rfl
  split
  · rfl
  · exact replies_groupStatus ..

/-- What a request is answered in this state. -/
def Request.answer (s : SchedulerState) : Request → Option Reply
  | .enqueue .. => none
  | .pause taskId | .cancel taskId =>
    match s.taskIdToDedupe.lookup taskId with
    | some _ => some (.done (.ok ()))
    | none => some (.done (.error (taskNotFoundError taskId)))
  | .resume taskId =>
    match s.taskIdToDedupe.lookup taskId with
    | some key => some (.done (resumeGroup s key).1)
    | none => some (.done (.error (taskNotFoundError taskId)))
  | .snapshot => some (.snapshot ⟨s.queued.length, s.active.keys.card, s.active.keys⟩)
  | .close => some (.done (.ok ()))

/-- **Each command is answered once**, an `Enqueue` not at all. -/
theorem replies_handleCmd (req : Request) (orders : List UniqueId × List UniqueId) :
    replies (handleCmd s (req.cmd orders)).2 = (req.answer s).toList := by
  have hunknown (cmd : TransferCmd) (ret : Except MeowError Unit) :
      replies (thenStart (s, [.respond cmd ret])).2 = [.done ret] :=
    replies_answered (show replies [] = [] from rfl) cmd ret
  cases req with
  | enqueue inner callbacks =>
    simp only [Request.cmd, Request.answer, handleCmd, Option.toList_none]
    split
    · exact replies_notify _ _
    · simp only [replies_thenStart, acceptTask, replies_append, replies_emitStatus, List.nil_append]
      split
      · exact replies_emitStatus ..
      · rfl
  | pause taskId =>
    simp only [Request.cmd, Request.answer, handleCmd]
    cases s.taskIdToDedupe.lookup taskId with
    | none => exact hunknown _ _
    | some key => exact replies_answered (by simp [pauseGroup]) _ _
  | resume taskId =>
    simp only [Request.cmd, Request.answer, handleCmd]
    cases s.taskIdToDedupe.lookup taskId with
    | none => exact hunknown _ _
    | some key => exact replies_answered (replies_resumeGroup key) _ _
  | cancel taskId =>
    simp only [Request.cmd, Request.answer, handleCmd]
    cases s.taskIdToDedupe.lookup taskId with
    | none => exact hunknown _ _
    | some key => exact replies_answered (by simp [cancelGroup]) _ _
  | snapshot => rfl
  | close =>
    have hsilent : replies (closeAll s orders.1 orders.2).2 = [] := by
      rw [replies, List.filterMap_eq_nil_iff]
      intro e he
      rcases mem_closeAll he with ⟨key, hcancel⟩ | ⟨key, hstatus⟩
      · obtain ⟨_, _, rfl⟩ := mem_cancelActive hcancel
        rfl
      · exact List.filterMap_eq_nil_iff.1 (replies_groupStatus ..) e hstatus
    simp only [Request.cmd, Request.answer, handleCmd, replies_append, hsilent, replies_respond, List.nil_append,
      Option.toList_some]

theorem Request.answer_isSome (req : Request) : (req.answer s).isSome = req.waits := by
  cases req with
  | enqueue | snapshot | close => rfl
  | pause taskId | resume taskId | cancel taskId =>
    simp only [Request.answer, Request.waits]
    split <;> rfl

/-- The errors of the loop are not those of the channels. -/
theorem Request.answer_code {req : Request} {e : MeowError} (h : req.answer s = some (.done (.error e))) :
    e.code = InnerErrorCode.taskNotFound.toI32 ∨ e.code = InnerErrorCode.invalidTaskState.toI32 := by
  cases req with
  | enqueue | snapshot | close => cases h
  | pause taskId | cancel taskId =>
    simp only [Request.answer] at h
    split at h
    · cases h
    · cases h
      exact .inl rfl
  | resume taskId =>
    simp only [Request.answer] at h
    split at h
    · have hret := Reply.done.inj (Option.some.inj h)
      unfold resumeGroup at hret
      split at hret
      · cases hret
        exact .inr rfl
      split at hret
      · cases hret
        exact .inr rfl
      split at hret
      · cases hret
        exact .inr rfl
      · cases hret
    · cases h
      exact .inl rfl

end

/-! ## The scheduler as a server -/

/-- The scheduler receives one command. -/
def Sys.serve (sys : Sys) (orders : List UniqueId × List UniqueId) (req : Request) : Option (Sys × Option Reply) :=
  (sys.step (.cmd (req.cmd orders))).map fun sys' =>
    (sys', (replies (handleCmd sys.loop.state (req.cmd orders)).2).head?)

/-- executor.rs:508. Between two commands workers move and events are delivered; listeners are edited elsewhere. -/
def executor : Service.Server Sys Request Reply (List UniqueId × List UniqueId) Act where
  serve := Sys.serve
  act sys a := if a.request = none then sys.step a else none
  ended sys := sys.loop.closed
  capacity := commandCapacity
  waits := Request.waits
  answers := by
    intro sys orders req sys' res h
    obtain ⟨_, -, heq⟩ := Option.map_eq_some_iff.1 h
    obtain ⟨-, rfl⟩ := Prod.mk.inj heq
    rw [replies_handleCmd, Option.head?_toList]
    exact req.answer_isSome

abbrev ControlState := Service.State Sys Request Reply

def ControlState.init (maxUpload maxDownload : Nat) : ControlState :=
  Service.State.init (Sys.init maxUpload maxDownload)

abbrev ControlAct := Service.Action Request (List UniqueId × List UniqueId) Act

def ControlState.step : ControlState → ControlAct → Option ControlState := Service.step executor

section
variable {sys sys' : Sys} {act : Act} {req : Request} {orders : List UniqueId × List UniqueId} {res : Option Reply}

@[simp] theorem Act.request_cmd (req : Request) (orders : List UniqueId × List UniqueId) :
    (Act.cmd (req.cmd orders)).request = some req := by
  cases req <;> rfl

/-- What the loop answers in a step, and which id it gets. -/
theorem Sys.step_replies (hs : sys.step act = some sys') :
    (∀ c, act ≠ .cmd c) ∧ replies sys'.loop.log = replies sys.loop.log ∧ sys'.loop.issued = sys.loop.issued ∨
      ∃ c, act = .cmd c ∧ replies sys'.loop.log = replies sys.loop.log ++ replies (handleCmd sys.loop.state c).2 ∧
        sys'.loop.issued = sys.loop.issued ++ (LoopInput.cmd c).issues := by
  obtain ⟨input, pool, hin, hfeed⟩ | ⟨i, input, pool, rfl, -, rfl⟩ := Sys.step_cases hs
  · obtain ⟨-, -, hloop⟩ := Loop.step_eq_some.1 (Sys.feed_eq_some.1 hfeed).1
    rw [hloop]
    cases input with
    | cmd c => exact .inr ⟨c, Sys.intake_cmd hin, replies_append, rfl⟩
    | event event =>
      refine .inl ⟨?_, ?_, List.append_nil _⟩
      · rintro c rfl
        cases hin
      · simp only [react, replies_append, replies_thenStart, replies_handleWorkerEvent, List.append_nil]
    | listen op =>
      refine .inl ⟨?_, ?_, List.append_nil _⟩
      · rintro c rfl
        cases hin
      · simp only [react, List.append_nil]
  · exact .inl ⟨by simp, rfl, rfl⟩

theorem Act.request_eq_none : act.request = none ↔ ∀ c, act ≠ .cmd c := by
  cases act with
  | cmd c => cases c <;> simp [Act.request]
  | listen | deliver | work => simp [Act.request]

/-- **One after the other** is a run of the scheduler, with these commands in this order, and these answers. -/
theorem executor_serves {start : Sys} {hist : List (Request × Option Reply)} (h : executor.Serves start hist sys) :
    ∃ acts, Lts.run Sys.step start acts = some sys ∧ acts.filterMap Act.request = hist.map Prod.fst ∧
      replies sys.loop.log = replies start.loop.log ++ hist.filterMap Prod.snd ∧
      sys.loop.issued = start.loop.issued ++ (hist.filterMap fun x => x.1.taskId?) ∧
      ∀ x ∈ hist, ∃ s, x.2 = x.1.answer s := by
  induction h with
  | start =>
    exact ⟨[], rfl, rfl, (List.append_nil _).symm, (List.append_nil _).symm, fun x hx => absurd hx List.not_mem_nil⟩
  | @act hist sys sys' a _ hact ih =>
    obtain ⟨acts, hrun, hreqs, hreplies, hissued, hanswers⟩ := ih
    change (if a.request = none then sys.step a else none) = some sys' at hact
    split at hact
    · rename_i hnone
      refine ⟨acts ++ [a], Lts.run_snoc.2 ⟨sys, hrun, hact⟩, ?_, ?_⟩
      · rw [List.filterMap_append, hreqs]
        simp [hnone]
      · rcases Sys.step_replies hact with ⟨-, hsame, hids⟩ | ⟨c, rfl, -⟩
        · rw [hsame, hids]
          exact ⟨hreplies, hissued, hanswers⟩
        · exact absurd rfl (Act.request_eq_none.1 hnone c)
    · cases hact
  | @request hist sys sys' orders req res _ hserve ih =>
    obtain ⟨acts, hrun, hreqs, hreplies, hissued, hanswers⟩ := ih
    obtain ⟨_, hs, heq⟩ := Option.map_eq_some_iff.1 hserve
    obtain ⟨rfl, rfl⟩ := Prod.mk.inj heq
    refine ⟨acts ++ [.cmd (req.cmd orders)], Lts.run_snoc.2 ⟨sys, hrun, hs⟩, ?_, ?_⟩
    · rw [List.filterMap_append, hreqs]
      simp
    · rcases Sys.step_replies hs with ⟨hno, -⟩ | ⟨c, hc, hlog, hids⟩
      · exact absurd rfl (hno _)
      · obtain rfl := Act.cmd.inj hc
        rw [hlog, hids, hreplies, hissued]
        refine ⟨?_, ?_, fun x hx => ?_⟩
        · rw [replies_handleCmd, Option.head?_toList, List.filterMap_append, List.append_assoc]
          cases req.answer sys.loop.state <;> rfl
        · cases req <;> simp [Request.cmd, LoopInput.issues, Request.taskId?]
        · rcases List.mem_append.1 hx with hx | hx
          · exact hanswers x hx
          · rw [List.mem_singleton.1 hx, replies_handleCmd, Option.head?_toList]
            exact ⟨_, rfl⟩

end

/-! ## All runs -/

section
variable {maxUpload maxDownload : Nat} {acts : List ControlAct} {s : ControlState}

/-- **The calls take effect one after the other.** In every run of any number of callers, workers and deliveries:

* the scheduler has done what it does when it is given the commands of the calls in the order of `served`, each
  once, and it has given these answers;
* a call that returns an answer returns that to its own command, and a call that returns `CommandSendFailed` or
  `CommandResponseFailed` is not among them;
* of two calls, one over before the other began, the first also comes first there. -/
theorem control_linearizable
    (hrun : Lts.run ControlState.step (.init maxUpload maxDownload) acts = some s) :
    (∃ sacts, Lts.run Sys.step (.init maxUpload maxDownload) sacts = some s.server ∧
      (sacts.filterMap Act.request).map some = s.served.map (fun x => s.calls[x.1]?.map Prod.fst) ∧
      replies s.server.loop.log = s.served.filterMap Prod.snd) ∧
    (s.served.map Prod.fst).Nodup ∧
    (∀ (i : Nat) (req : Request) (res : Reply), s.calls[i]? = some (req, .returned (.answer res)) →
      (i, some res) ∈ s.served) ∧
    (∀ (i : Nat) (req : Request) (ret : Service.Ret Reply) (e : MeowError),
      s.calls[i]? = some (req, .returned ret) → req.result ret = .error e →
      e.code = InnerErrorCode.commandSendFailed.toI32 ∨ e.code = InnerErrorCode.commandResponseFailed.toI32 →
      i ∉ s.served.map Prod.fst) ∧
    ∀ before after t (i j : Nat) (req : Request) (pc : Service.Pc Reply), acts = before ++ after →
      Lts.run ControlState.step (.init maxUpload maxDownload) before = some t →
      t.calls[i]? = some (req, pc) → pc.done = true → t.calls.length ≤ j →
      i ∈ s.served.map Prod.fst → j ∈ s.served.map Prod.fst → [i, j].Sublist (s.served.map Prod.fst) := by
  have hconsistent := Service.run_consistent hrun
  have hhistory := hconsistent.history
  obtain ⟨sacts, hsacts, hreqs, hreplies, -, hanswers⟩ := executor_serves (Service.run_serves hrun)
  refine ⟨⟨sacts, hsacts, ?_, ?_⟩, ?_, ?_, ?_, ?_⟩
  · have hfst := congrArg (List.map Prod.fst) hhistory
    rw [List.map_map, List.map_map] at hfst
    rw [hreqs, List.map_map]
    exact hfst
  · have hsnd := congrArg (List.map Prod.snd) hhistory
    rw [List.map_map, List.map_map] at hsnd
    have hfilter {α : Type} (l : List (α × Option Reply)) :
        l.filterMap Prod.snd = (l.map Prod.snd).filterMap id := by
      rw [List.filterMap_map]
      rfl
    rw [hreplies, hfilter, hfilter]
    exact congrArg (List.filterMap id) hsnd
  · exact (List.nodup_append.1 hconsistent.nodup).1
  · exact fun i req res hcall => hconsistent.knows i req _ hcall
  · intro i req ret e hcall hret hcode
    have hknows := hconsistent.knows i req _ hcall
    have hout : i ∉ s.order → i ∉ s.served.map Prod.fst := fun h hm => h (List.mem_append_left _ hm)
    cases ret with
    | posted => cases hret
    | full | closed | unanswered => exact hout hknows
    | answer res =>
      exfalso
      cases res with
      | snapshot => cases hret
      | done ret =>
        cases ret with
        | ok => cases hret
        | error e' =>
          obtain rfl := Except.error.inj hret
          obtain ⟨x, hx, heq⟩ : ∃ x ∈ s.history, (some x.1, x.2) =
              (s.calls[i]?.map Prod.fst, some (Reply.done (.error e'))) := by
            rw [← List.mem_map, hhistory]
            exact List.mem_map.2 ⟨_, hknows, rfl⟩
          obtain ⟨state, hanswer⟩ := hanswers x hx
          have hloop := Request.answer_code (hanswer.symm.trans (congrArg Prod.snd heq))
          rcases hcode with hcode | hcode <;> rcases hloop with hloop | hloop <;>
            exact absurd (InnerErrorCode.toI32_injective (hcode.symm.trans hloop)) (by simp)
  · intro before after t i j req pc hacts hbefore hcall hpc hj hi hj'
    rw [hacts] at hrun
    obtain ⟨t', ht', hafter⟩ := Lts.run_append.1 hrun
    obtain rfl : t' = t := Option.some.inj (ht'.symm.trans hbefore)
    exact Service.run_real_time hbefore hcall hpc hj hafter hi hj'

/-- The scheduler takes any command that can arrive. -/
theorem Sys.serve_isSome {sys : Sys} (hopen : sys.loop.closed = false) {req : Request}
    (hfresh : ∀ id, req.taskId? = some id → id ∉ sys.loop.issued) : ∃ orders, (sys.serve orders req).isSome := by
  refine ⟨(sys.loop.state.active.keys.toList, sys.loop.state.groups.keys.toList), ?_⟩
  have harrives : (LoopInput.cmd (req.cmd (sys.loop.state.active.keys.toList,
      sys.loop.state.groups.keys.toList))).Arrives sys.loop := by
    cases req with
    | enqueue inner callbacks => exact hfresh inner.taskId rfl
    | pause | resume | cancel | snapshot => exact trivial
    | close =>
      exact ⟨⟨Finset.nodup_toList _, Finset.toList_toFinset _⟩, Finset.nodup_toList _, Finset.toList_toFinset _⟩
  simp only [Sys.serve, Option.isSome_map, Sys.step, Sys.intake, Option.bind_some, Sys.feed, Loop.step, hopen,
    harrives, and_self, if_true, Option.isSome_some]

/-- **No call hangs.** From any state on, if no further call begins: callers and channel take no more than `left`
steps, whatever the workers do in between; some of their steps bring all calls to an end; and where none is left all
calls have returned or were given up. -/
theorem control_returns (hrun : Lts.run ControlState.step (.init maxUpload maxDownload) acts = some s)
    (hids : (s.calls.filterMap fun call => call.1.taskId?).Nodup) :
    (∀ more s', (∀ a ∈ more, ∀ req, a ≠ .call req) → Lts.run ControlState.step s more = some s' →
      more.countP Service.Action.counts ≤ s.left) ∧
    (∃ more s', (∀ a ∈ more, a.Forward) ∧ Lts.run ControlState.step s more = some s' ∧
      ∀ call ∈ s'.calls, call.2.done = true) ∧
    ∀ more s', (∀ a ∈ more, ∀ req, a ≠ .call req) → Lts.run ControlState.step s more = some s' →
      (∀ a : ControlAct, a.Forward → s'.step a = none) → s'.queue = [] ∧ ∀ call ∈ s'.calls, call.2.done = true := by
  have hstill : ∀ more s', (∀ a ∈ more, ∀ req, a ≠ .call req) → Lts.run ControlState.step s more = some s' →
      (∀ a : ControlAct, a.Forward → s'.step a = none) →
      s'.queue = [] ∧ ∀ call ∈ s'.calls, call.2.done = true := by
    intro more s' hcalls hmore hnone
    have hall := Lts.run_append.2 ⟨s, hrun, hmore⟩
    have hconsistent := Service.run_consistent hall
    obtain ⟨-, -, -, -, hissued, -⟩ := executor_serves (Service.run_serves hall)
    have hids' : (s'.calls.filterMap fun call => call.1.taskId?).Nodup := by
      have hsame (calls : List (Request × Service.Pc Reply)) :
          (calls.filterMap fun call => call.1.taskId?) = (calls.map Prod.fst).filterMap Request.taskId? := by
        rw [List.filterMap_map]
        rfl
      rw [hsame, Service.run_requests hcalls hmore, ← hsame]
      exact hids
    have hready : ∀ (i : Nat) (rest : List Nat) (req : Request) (pc : Service.Pc Reply), s'.queue = i :: rest →
        s'.calls[i]? = some (req, pc) → s'.server.loop.closed = false →
        ∃ orders, (s'.server.serve orders req).isSome := by
      intro i rest req pc hq hcall hopen
      refine Sys.serve_isSome hopen fun id hid hm => ?_
      rw [hissued] at hm
      obtain ⟨x, hx, hxid⟩ := List.mem_filterMap.1 ((List.mem_append.1 hm).resolve_left List.not_mem_nil)
      -- a request with this id has been handled, and it is that of the same call
      obtain ⟨y, hy, heq⟩ : ∃ y ∈ s'.served, (s'.calls[y.1]?.map Prod.fst, y.2) = (some x.1, x.2) := by
        rw [← List.mem_map, ← hconsistent.history]
        exact List.mem_map.2 ⟨x, hx, rfl⟩
      obtain ⟨call, hcall', hreq⟩ := Option.map_eq_some_iff.1 (congrArg Prod.fst heq)
      have hsame : y.1 = i := Places.eq_of_nodup_filterMap hids' hcall' hcall
        (show call.1.taskId? = some id by rw [hreq]; exact hxid) hid
      refine (List.nodup_append.1 hconsistent.nodup).2.2 i (hsame ▸ List.mem_map.2 ⟨y, hy, rfl⟩) i ?_ rfl
      rw [hq]
      exact List.mem_cons_self
    obtain ⟨hqueue, hdone⟩ := hconsistent.still (by decide) hready hnone
    refine ⟨hqueue, fun call hm => ?_⟩
    obtain ⟨i, hi⟩ := List.getElem?_of_mem hm
    exact hdone i call.1 call.2 hi
  refine ⟨fun more s' hcalls hmore => Service.run_left hcalls hmore, ?_, hstill⟩
  refine Lts.exists_run (n := s.left) (fun more s' hforward hmore => ?_) fun more s' hforward hmore hopen => ?_
  · have hbound := Service.run_left (fun a ha => (hforward a ha).not_call) hmore
    rwa [List.countP_eq_length.2 fun a ha => (hforward a ha).counts] at hbound
  · by_contra hnone
    push Not at hnone
    exact hopen (hstill more s' (fun a ha => (hforward a ha).not_call) hmore fun a ha => by
      rw [Option.eq_none_iff_forall_ne_some]
      exact fun s'' => hnone a s'' ha).2

end

/-! ### A run -/

/-- A task is enqueued, and the executor is closed; a pause comes after the `Close` and is not answered. -/
def sampleControl : List ControlAct :=
  [.call (.enqueue (sampleTask 1) ⟨some ⟨1⟩⟩), .send 0, .call .close, .call (.pause ⟨1⟩), .send 1, .send 2,
    .receive ([], []), .receive ([], [(sampleTask 1).dedupeKey]), .ret 1, .leave, .ret 2]

theorem control_linearizable_closed : ∃ s : ControlState,
    Lts.run ControlState.step (.init 1 0) sampleControl = some s ∧ [0, 1].Sublist (s.served.map Prod.fst) ∧
      (Request.pause ⟨1⟩).result .unanswered =
        .error (.fromCode .commandResponseFailed "pause response failed: channel closed") ∧
      2 ∉ s.served.map Prod.fst := by
  have hrun : Lts.run ControlState.step (.init 1 0) sampleControl = some _ := Lts.run_final (by decide)
  have hbefore : Lts.run ControlState.step (.init 1 0) (sampleControl.take 2) = some _ := Lts.run_final (by decide)
  obtain ⟨-, -, -, hfailed, htime⟩ := control_linearizable hrun
  refine ⟨_, hrun, ?_, by decide, ?_⟩
  · exact htime (sampleControl.take 2) (sampleControl.drop 2) _ 0 1 (.enqueue (sampleTask 1) ⟨some ⟨1⟩⟩)
      (.returned .posted) rfl hbefore (by decide) rfl (by decide) (by decide) (by decide)
  · exact hfailed 2 (.pause ⟨1⟩) .unanswered _ (by decide) rfl (.inr rfl)

/-- After its first eight steps two calls are still waiting. -/
theorem control_returns_closed : ∃ (s : ControlState) (more : _) (s' : ControlState),
    Lts.run ControlState.step (.init 1 0) (sampleControl.take 8) = some s ∧
      Lts.run ControlState.step s more = some s' ∧ ∀ call ∈ s'.calls, call.2.done = true := by
  have hrun : Lts.run ControlState.step (.init 1 0) (sampleControl.take 8) = some _ := Lts.run_final (by decide)
  obtain ⟨-, ⟨more, s', -, hmore, hdone⟩, -⟩ := control_returns hrun (by decide)
  exact ⟨_, more, s', hrun, hmore, hdone⟩

end SpottedCat
