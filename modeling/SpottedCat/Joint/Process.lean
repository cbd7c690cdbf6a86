import SpottedCat.Joint.System
import SpottedCat.Lib.Crew

/-!
# One event channel, and handlers that take time

`Sys` takes a handler for one step and gives every worker a channel of its own without a bound. `Process` does
neither, and `process_refines` says that it can do nothing that `Sys` cannot.

| here | there |
| --- | --- |
| `Process.pending`    | what the handler at work has still to do, in its order: callbacks, `cancel()`, `tokio::spawn`, answers |
| `Process.channel`    | `mpsc::channel::<WorkerEvent>(1024)` (executor.rs:520): one queue for all workers |
| `Process.send`       | `let _ = worker_tx.send(..).await` (exec.rs:105, :173, :192, :240): waits while the channel is full |
| `Process.gone`       | the loop has left its `block_on` (executor.rs:305), and the receiver is dropped: a `send` fails, which is ignored |
| `Process.recv`       | `worker_rx.recv()` (executor.rs:309) |

The tasks of the workers go on while a handler is at work, and see the tokens that it has cancelled so far. The state
of the scheduler is the loop's own and nobody sees it change. Edits of the listener list stay between two iterations.
After `Close` the runtime drops the tasks; here they may also go on.
-/

namespace SpottedCat

/-- A `Worker` without the channel. -/
structure Runner where
  key : UniqueId
  inner : InnerTask
  cancel : CancellationToken
  startOffset : Nat
  pc : RunPc
deriving DecidableEq, Repr

def Worker.runner (w : Worker) : Runner := ⟨w.key, w.inner, w.cancel, w.startOffset, w.pc⟩

/-- The channel takes the event that the runner waits with. -/
def Runner.Sending (r : Runner) : Prop := ∃ pc event, runStep r.key r.inner r.pc .sent = some (pc, some event)

/-- What is in the channel, with the place of its sender. -/
structure Letter where
  sender : Nat
  taskId : TaskId
  event : WorkerEvent
deriving DecidableEq, Repr

def Letter.told (l : Letter) : TaskId × WorkerEvent := (l.taskId, l.event)

/-- executor.rs:520 -/
def workerChannelCapacity : Nat := 1024

structure Process where
  loop : Loop
  pending : List Effect
  /-- In the order of their start. -/
  runners : List Runner
  cancelled : Finset CancellationToken
  /-- Oldest first. -/
  channel : List Letter
  /-- Everything the workers have sent and the loop has received so far, oldest first. -/
  sent : List Letter
  received : List Letter

namespace Process

def init (maxUpload maxDownload : Nat) : Process := ⟨.init maxUpload maxDownload, [], [], ∅, [], [], []⟩

def gone (p : Process) : Bool := p.loop.closed && p.pending.isEmpty

/-- The loop begins an iteration. -/
def handle (p : Process) (input : LoopInput) : Option Process :=
  match p.pending with
  | [] => (p.loop.step input).map fun loop => { p with loop := loop, pending := (react p.loop.state input).2 }
  | _ :: _ => none

def recv (p : Process) : Option Process :=
  match p.channel with
  | letter :: rest =>
    { p with channel := rest, received := p.received ++ [letter] }.handle (.event letter.event)
  | [] => none

/-- The next effect of the handler. -/
def effect (p : Process) : Option Process :=
  match p.pending with
  | e :: es => some { p with
      pending := es
      runners := p.runners ++ ([e].filterMap Effect.spawned).map Worker.runner
      cancelled := p.cancelled ∪ ([e].filterMap Effect.cancelled).toFinset }
  | [] => none

def send (p : Process) (letter : Letter) : Option Process :=
  if p.gone then some { p with sent := p.sent ++ [letter] }
  else if p.channel.length < workerChannelCapacity then
    some { p with channel := p.channel ++ [letter], sent := p.sent ++ [letter] }
  else none

/-- One step of runner `i`. -/
def work (p : Process) (i : Nat) (input : RunIn) : Option Process :=
  match p.runners[i]? with
  | some r =>
    if input.Sees (r.cancel ∈ p.cancelled) then
      match runStep r.key r.inner r.pc input with
      | some (pc, none) => some { p with runners := p.runners.set i { r with pc := pc } }
      | some (pc, some event) =>
        { p with runners := p.runners.set i { r with pc := pc } }.send ⟨i, r.inner.taskId, event⟩
      | none => none
    else none
  | none => none

end Process

inductive ProcessAct where
  | cmd (c : TransferCmd)
  | listen (op : ListenerOp)
  | recv
  | effect
  | work (i : Nat) (input : RunIn)
deriving DecidableEq, Repr

def Process.step (p : Process) : ProcessAct → Option Process
  | .cmd c => p.handle (.cmd c)
  | .listen op => p.handle (.listen op)
  | .recv => p.recv
  | .effect => p.effect
  | .work i input => p.work i input

/-- What is in the channel from runner `i`. -/
def Process.outbox (p : Process) (i : Nat) : List WorkerEvent :=
  (p.channel.filter fun l => l.sender = i).map Letter.event

/-- What an action gives the loop to handle, and the workers without it. -/
def collect (workers : List Worker) : Act → Option (LoopInput × List Worker)
  | .cmd c => some (.cmd c, workers)
  | .listen op => some (.listen op, workers)
  | .deliver i =>
    match workers[i]? with
    | some w =>
      match w.outbox with
      | event :: rest => some (.event event, workers.set i { w with outbox := rest })
      | [] => none
    | none => none
  | .work .. => none

def crew : Crew Loop Worker RunIn (TaskId × WorkerEvent) CancellationToken Effect Act where
  token w := w.cancel
  move cancelled w input :=
    if input.Sees cancelled then
      (runStep w.key w.inner w.pc input).map fun (pc, out) =>
        ({ w with pc := pc, outbox := w.outbox ++ out.toList }, out.toList.map fun event => (w.inner.taskId, event))
    else none
  lead loop workers act :=
    (collect workers act).bind fun (input, workers') =>
      (loop.step input).map fun loop' => (loop', workers', (react loop.state input).2)
  puts := Effect.cancelled
  joins := Effect.spawned

theorem crew_move_eq_some {cancelled : Bool} {w w' : Worker} {input : RunIn} {said : List (TaskId × WorkerEvent)} :
    crew.move cancelled w input = some (w', said) ↔ input.Sees cancelled ∧ ∃ pc out,
      runStep w.key w.inner w.pc input = some (pc, out) ∧ w' = { w with pc := pc, outbox := w.outbox ++ out.toList } ∧
      said = out.toList.map fun event => (w.inner.taskId, event) := by
  simp only [crew]
  split
  · rename_i hsees
    simp only [Option.map_eq_some_iff, Prod.exists, Prod.mk.injEq, hsees, true_and]
    constructor
    · rintro ⟨pc, out, hrun, rfl, rfl⟩
      exact ⟨pc, out, hrun, rfl, rfl⟩
    · rintro ⟨pc, out, hrun, rfl, rfl⟩
      exact ⟨pc, out, hrun, rfl, rfl⟩
  · rename_i hsees
    simp [hsees]

theorem crew_lead_eq_some {loop loop' : Loop} {ws ws' : List Worker} {act : Act} {es : List Effect} :
    crew.lead loop ws act = some (loop', ws', es) ↔ ∃ input, collect ws act = some (input, ws') ∧
      loop.step input = some loop' ∧ es = (react loop.state input).2 := by
  simp only [crew, Option.bind_eq_some_iff, Option.map_eq_some_iff, Prod.exists, Prod.mk.injEq]
  constructor
  · rintro ⟨input, ws1, hcollect, loop1, hstep, rfl, rfl, rfl⟩
    exact ⟨input, hcollect, hstep, rfl⟩
  · rintro ⟨input, hcollect, hstep, rfl⟩
    exact ⟨input, ws', hcollect, loop', hstep, rfl, rfl, rfl⟩

theorem collect_deliver {ws : List Worker} {i : Nat} {w : Worker} {event : WorkerEvent} {rest : List WorkerEvent}
    (hw : ws[i]? = some w) (houtbox : w.outbox = event :: rest) :
    collect ws (.deliver i) = some (.event event, ws.set i { w with outbox := rest }) := by
  simp only [collect, hw, houtbox]

/-! ## Cancelling comes before starting -/

namespace Process

/-- A worker's channel is its part of the one channel. -/
structure Couples (p : Process) (b : Crew.Busy Loop Worker (TaskId × WorkerEvent) CancellationToken Effect) : Prop where
  loop : b.state.leader = p.loop
  pending : b.pending = p.pending
  runners : b.state.members.map Worker.runner = p.runners
  cancelled : b.state.out = p.cancelled
  sent : b.state.log = p.sent.map Letter.told
  senders : ∀ l ∈ p.channel, l.sender < b.state.members.length
  outboxes : p.loop.closed = false → ∀ (i : Nat) w, b.state.members[i]? = some w → w.outbox = p.outbox i

variable {p p' : Process} {b : Crew.Busy Loop Worker (TaskId × WorkerEvent) CancellationToken Effect}

theorem handle_eq_some {input : LoopInput} : p.handle input = some p' ↔ p.pending = [] ∧
    ∃ loop, p.loop.step input = some loop ∧ p' = { p with loop := loop, pending := (react p.loop.state input).2 } := by
  unfold handle
  split
  · rename_i hnil
    simp only [hnil, Option.map_eq_some_iff, true_and]
    exact exists_congr fun loop => and_congr_right fun _ => eq_comm
  · rename_i hcons
    simp [hcons]

/-- Nobody but the members below `n` has sent something. -/
theorem outbox_of_senders {n i : Nat} (h : ∀ l ∈ p.channel, l.sender < n) (hi : n ≤ i) : p.outbox i = [] := by
  have hnone : p.channel.filter (fun l => l.sender = i) = [] := by
    refine List.filter_eq_nil_iff.2 fun l hl => ?_
    have := h l hl
    simp only [decide_eq_true_eq]
    omega
  rw [outbox, hnone]
  rfl

/-- A worker that joins has not sent anything. -/
theorem Couples.outbox_absorb (h : p.Couples b) (hopen : p.loop.closed = false) {es : List Effect} {i : Nat}
    {w : Worker} (hw : (crew.absorb b.state es).members[i]? = some w) : w.outbox = p.outbox i := by
  by_cases hi : i < b.state.members.length
  · simp only [Crew.absorb, List.getElem?_append_left hi] at hw
    exact h.outboxes hopen i w hw
  · have hi' := Nat.le_of_not_lt hi
    simp only [Crew.absorb, List.getElem?_append_right hi'] at hw
    obtain ⟨e, _, hspawned⟩ := List.mem_filterMap.1 (List.mem_of_getElem? hw)
    rw [outbox_of_senders h.senders hi']
    cases e with
    | spawn =>
      cases hspawned
      rfl
    | _ => cases hspawned

theorem Couples.handle {ws : List Worker} {act : Act} {input : LoopInput}
    (hcollect : collect b.state.members act = some (input, ws))
    (h : p.Couples { b with state := { b.state with members := ws } }) (hs : p.handle input = some p') :
    ∃ b', crew.busyStep b (.lead act) = some b' ∧ p'.Couples b' := by
  obtain ⟨hpending, loop, hstep, rfl⟩ := handle_eq_some.1 hs
  have hnil : b.pending = [] := h.pending.trans hpending
  have hlead : crew.lead b.state.leader b.state.members act = some (loop, ws, (react p.loop.state input).2) := by
    refine crew_lead_eq_some.2 ⟨input, hcollect, ?_, ?_⟩
    · rw [h.loop]
      exact hstep
    · rw [h.loop]
  refine ⟨_, Crew.busyStep_lead hnil hlead, rfl, rfl, h.runners, h.cancelled, h.sent, h.senders, ?_⟩
  intro _
  exact h.outboxes (Loop.step_eq_some.1 hstep).1

theorem Couples.recv (h : p.Couples b) (hs : p.recv = some p') :
    ∃ act b', crew.busyStep b act = some b' ∧ p'.Couples b' := by
  unfold Process.recv at hs
  split at hs
  · rename_i letter rest hchannel
    obtain ⟨_, loop, hstep, _⟩ := handle_eq_some.1 hs
    have hopen : p.loop.closed = false := (Loop.step_eq_some.1 hstep).1
    have hsender := h.senders letter (hchannel ▸ List.mem_cons_self)
    have hw : b.state.members[letter.sender]? = some b.state.members[letter.sender] := List.getElem?_eq_getElem hsender
    have houtbox : b.state.members[letter.sender].outbox =
        letter.event :: (rest.filter fun l => l.sender = letter.sender).map Letter.event := by
      rw [h.outboxes hopen _ _ hw, outbox, hchannel, List.filter_cons_of_pos (by simp), List.map_cons]
    have hrunners : (b.state.members.set letter.sender { b.state.members[letter.sender] with
        outbox := (rest.filter fun l => l.sender = letter.sender).map Letter.event }).map Worker.runner =
          p.runners := by
      have hself := List.map_set (f := Worker.runner) (l := b.state.members) (i := letter.sender)
        (a := b.state.members[letter.sender])
      rw [List.set_getElem_self] at hself
      rw [List.map_set, ← h.runners]
      exact hself.symm
    have hcouples := Couples.handle (p := { p with channel := rest, received := p.received ++ [letter] })
      (collect_deliver hw houtbox) ⟨h.loop, h.pending, hrunners, h.cancelled, h.sent, ?_, ?_⟩ hs
    · exact ⟨_, hcouples⟩
    · intro l hl
      rw [List.length_set]
      exact h.senders l (hchannel ▸ List.mem_cons_of_mem _ hl)
    · intro _ j w hj
      rcases Places.lookup_set.1 hj with ⟨rfl, _, rfl⟩ | ⟨hne, hj⟩
      · rfl
      · rw [h.outboxes hopen j w hj, outbox, hchannel, List.filter_cons_of_neg (by simpa using Ne.symm hne)]
        rfl
  · cases hs

theorem Couples.effect (h : p.Couples b) (hs : p.effect = some p') :
    ∃ act b', crew.busyStep b act = some b' ∧ p'.Couples b' := by
  unfold Process.effect at hs
  split at hs
  · rename_i e es hpending
    cases hs
    have hcons : b.pending = e :: es := h.pending.trans hpending
    refine ⟨.effect, ⟨crew.absorb b.state [e], es⟩, by rw [Crew.busyStep, hcons], h.loop, rfl, ?_, ?_, h.sent, ?_, ?_⟩
    · simp only [Crew.absorb, List.map_append, h.runners]
      rfl
    · simp only [Crew.absorb, h.cancelled]
      rfl
    · intro l hl
      have := h.senders l hl
      simp only [Crew.absorb, List.length_append]
      omega
    · intro hopen i w hw
      exact h.outbox_absorb hopen hw
  · cases hs

/-- What a `send` leaves. -/
theorem send_cases {letter : Letter} (hs : p.send letter = some p') : ∃ channel,
    p' = { p with channel := channel, sent := p.sent ++ [letter] } ∧ ((p.gone = true ∧ channel = p.channel) ∨
      (p.gone = false ∧ p.channel.length < workerChannelCapacity ∧ channel = p.channel ++ [letter])) := by
  unfold send at hs
  split at hs
  · rename_i hgone
    cases hs
    exact ⟨p.channel, rfl, .inl ⟨hgone, rfl⟩⟩
  · rename_i hgone
    split at hs
    · rename_i hroom
      cases hs
      exact ⟨_, rfl, .inr ⟨Bool.eq_false_of_not_eq_true hgone, hroom, rfl⟩⟩
    · cases hs

theorem closed_of_gone (h : p.gone = true) : p.loop.closed = true := (Bool.and_eq_true_iff.1 h).1

/-- **What a step of a worker does.** -/
theorem work_cases {i : Nat} {input : RunIn} (hs : p.work i input = some p') : ∃ r pc out,
    p.runners[i]? = some r ∧ input.Sees (r.cancel ∈ p.cancelled) ∧ runStep r.key r.inner r.pc input = some (pc, out) ∧
      ((out = none ∧ p' = { p with runners := p.runners.set i { r with pc := pc } }) ∨ ∃ event, out = some event ∧
        { p with runners := p.runners.set i { r with pc := pc } }.send ⟨i, r.inner.taskId, event⟩ = some p') := by
  unfold work at hs
  split at hs
  · rename_i r hr
    split at hs
    · rename_i hsees
      split at hs
      · rename_i pc hrun
        cases hs
        exact ⟨r, pc, none, hr, hsees, hrun, .inl ⟨rfl, rfl⟩⟩
      · rename_i pc event hrun
        exact ⟨r, pc, some event, hr, hsees, hrun, .inr ⟨event, rfl, hs⟩⟩
      · cases hs
    · cases hs
  · cases hs

theorem Couples.work (h : p.Couples b) {i : Nat} {input : RunIn} (hs : p.work i input = some p') :
    ∃ act b', crew.busyStep b act = some b' ∧ p'.Couples b' := by
  obtain ⟨r, pc, out, hr, hsees, hrun, hout⟩ := work_cases hs
  rw [← h.runners, List.getElem?_map, Option.map_eq_some_iff] at hr
  obtain ⟨w, hw, rfl⟩ := hr
  have hmove : crew.move (decide (crew.token w ∈ b.state.out)) w input = some
      ({ w with pc := pc, outbox := w.outbox ++ out.toList }, out.toList.map fun event => (w.inner.taskId, event)) := by
    refine crew_move_eq_some.2 ⟨?_, pc, out, hrun, rfl, rfl⟩
    rw [h.cancelled]
    exact hsees
  refine ⟨.move i input, _, Option.map_eq_some_iff.2 ⟨_, Crew.moved_eq_some.2 ⟨w, _, _, hw, hmove, rfl⟩, rfl⟩, ?_⟩
  have hrunners : (b.state.members.set i { w with pc := pc, outbox := w.outbox ++ out.toList }).map Worker.runner =
      p.runners.set i { w.runner with pc := pc } := by
    rw [List.map_set, h.runners]
    rfl
  rcases hout with ⟨rfl, rfl⟩ | ⟨event, rfl, hsend⟩
  · refine ⟨h.loop, h.pending, hrunners, h.cancelled, ?_, ?_, ?_⟩
    · simp [h.sent]
    · intro l hl
      rw [List.length_set]
      exact h.senders l hl
    · intro hopen j w' hw'
      rcases Places.lookup_set.1 hw' with ⟨rfl, _, rfl⟩ | ⟨_, hw'⟩
      · rw [Option.toList_none, List.append_nil]
        exact h.outboxes hopen j w hw
      · exact h.outboxes hopen j w' hw'
  · obtain ⟨channel, rfl, hchannel⟩ := send_cases hsend
    obtain ⟨hlt, _⟩ := List.getElem?_eq_some_iff.1 hw
    refine ⟨h.loop, h.pending, hrunners, h.cancelled, ?_, ?_, ?_⟩
    · simp only [Option.toList_some, List.map_singleton, h.sent, List.map_append]
      rfl
    · intro l hl
      rw [List.length_set]
      rcases hchannel with ⟨_, rfl⟩ | ⟨_, _, rfl⟩
      · exact h.senders l hl
      · rcases List.mem_append.1 hl with hl | hl
        · exact h.senders l hl
        · rw [List.mem_singleton.1 hl]
          exact hlt
    · intro hopen j w' hw'
      rcases hchannel with ⟨hgone, _⟩ | ⟨_, _, rfl⟩
      · have hclosed := closed_of_gone hgone
        rw [hopen] at hclosed
        cases hclosed
      rcases Places.lookup_set.1 hw' with ⟨rfl, _, rfl⟩ | ⟨hne, hw'⟩
      · simp only [outbox, List.filter_append, List.map_append]
        rw [h.outboxes hopen j w hw, outbox]
        simp
      · simp only [outbox, List.filter_append, List.map_append]
        rw [h.outboxes hopen j w' hw', outbox, List.filter_cons_of_neg (by simpa using Ne.symm hne)]
        simp

/-- **One step** of the process is one of the crew. -/
theorem Couples.step (h : p.Couples b) {act : ProcessAct} (hs : p.step act = some p') :
    ∃ bact b', crew.busyStep b bact = some b' ∧ p'.Couples b' := by
  cases act with
  | cmd c =>
    have hcollect : collect b.state.members (.cmd c) = some (.cmd c, b.state.members) := rfl
    obtain ⟨b', hb', hcouples⟩ := Couples.handle hcollect h hs
    exact ⟨_, b', hb', hcouples⟩
  | listen op =>
    have hcollect : collect b.state.members (.listen op) = some (.listen op, b.state.members) := rfl
    obtain ⟨b', hb', hcouples⟩ := Couples.handle hcollect h hs
    exact ⟨_, b', hb', hcouples⟩
  | recv => exact h.recv hs
  | effect => exact h.effect hs
  | work i input => exact h.work hs

end Process

namespace Process

variable {p p' : Process}

/-- An event is in the channel from when it is sent until the loop receives it. -/
structure Posted (p : Process) : Prop where
  room : p.channel.length ≤ workerChannelCapacity
  order : (p.received ++ p.channel) <+: p.sent
  kept : p.gone = false → p.sent = p.received ++ p.channel

theorem gone_of_pending {e : Effect} {es : List Effect} (h : p.pending = e :: es) : p.gone = false := by
  simp [gone, h]

theorem gone_of_open (h : p.loop.closed = false) : p.gone = false := by
  simp [gone, h]

theorem Posted.handle {input : LoopInput} (h : p.Posted) (hs : p.handle input = some p') : p'.Posted := by
  obtain ⟨_, loop, hstep, rfl⟩ := handle_eq_some.1 hs
  have hopen : p.loop.closed = false := (Loop.step_eq_some.1 hstep).1
  exact ⟨h.room, h.order, fun _ => h.kept (gone_of_open hopen)⟩

theorem Posted.recv (h : p.Posted) (hs : p.recv = some p') : p'.Posted := by
  unfold Process.recv at hs
  split at hs
  · rename_i letter rest hchannel
    refine Posted.handle ⟨?_, ?_, fun hgone => ?_⟩ hs
    · have hroom := h.room
      rw [hchannel, List.length_cons] at hroom
      exact Nat.le_of_succ_le hroom
    · have horder := h.order
      rw [hchannel] at horder
      simpa using horder
    · have hkept := h.kept hgone
      rw [hchannel] at hkept
      simpa using hkept
  · cases hs

theorem Posted.effect (h : p.Posted) (hs : p.effect = some p') : p'.Posted := by
  unfold Process.effect at hs
  split at hs
  · rename_i e es hpending
    cases hs
    exact ⟨h.room, h.order, fun _ => h.kept (gone_of_pending hpending)⟩
  · cases hs

theorem Posted.send {letter : Letter} (h : p.Posted) (hs : p.send letter = some p') : p'.Posted := by
  obtain ⟨channel, rfl, ⟨hgone, rfl⟩ | ⟨hgone, hroom, rfl⟩⟩ := send_cases hs
  · refine ⟨h.room, h.order.trans (List.prefix_append _ _), fun hgone' => ?_⟩
    have hgone' : p.gone = false := hgone'
    rw [hgone] at hgone'
    cases hgone'
  · have hall : p.sent ++ [letter] = p.received ++ (p.channel ++ [letter]) := by
      rw [h.kept hgone, List.append_assoc]
    refine ⟨?_, ?_, fun _ => hall⟩
    · rw [List.length_append, List.length_singleton]
      omega
    · simp only [hall, List.prefix_rfl]

theorem Posted.step (h : p.Posted) {act : ProcessAct} (hs : p.step act = some p') : p'.Posted := by
  cases act with
  | cmd c => exact h.handle hs
  | listen op => exact h.handle hs
  | recv => exact h.recv hs
  | effect => exact h.effect hs
  | work i input =>
    obtain ⟨r, pc, out, _, _, _, ⟨_, rfl⟩ | ⟨event, _, hsend⟩⟩ := work_cases hs
    · exact ⟨h.room, h.order, h.kept⟩
    · have hset : { p with runners := p.runners.set i { r with pc := pc } }.Posted := ⟨h.room, h.order, h.kept⟩
      exact hset.send hsend

end Process

end SpottedCat
