import SpottedCat.Client.Scheduler

/-!
# `enqueue` and `close` side by side (`meow_client.rs:45-88`, `:159-191`, `:222-246`)

One handle of a client, with any number of `enqueue` calls and one `close` in progress. Each call stops where
another may come in between: an `enqueue` after its look at the closed flag, after the signing of the file,
after its look at the executor cell, after the creation of an executor, after setting the cell and after its
send, before it returns; `close` after its swap of the flag, after its look at the cell and after its send.

| here | there |
| --- | --- |
| `EnqueuePc`, `Client.enqueueStep` | `MeowClient::enqueue` (:159), `get_exec` (:45) and `Executor::enqueue` (executor.rs:538) |
| `ClosePc`, `Client.closeStep`     | `MeowClient::close` (:222) and `Executor::close` (executor.rs:701) |
| `EnqueueIn.signed`  | what the checks of the task and `InnerTask::from_pounce` come to |
| `EnqueueIn.created` | whether the HTTP client and the scheduler thread could be created |

Call number `i` wraps its closure in an `Arc` of its own: `ProgressCb` number `i`.

Nothing but the flag tells an `enqueue` that `close` has begun, and it looks at it before it signs. So a call
that passed may still create an executor after `close` has found none (`lateExecutor_survives`), or send
behind the `Close` that the loop leaves by (`behindClose_untold`). In runs in which no `enqueue` gets a command
into a channel that late (`InTime`), `close` is final (`close_is_final`).
-/

namespace SpottedCat

inductive EnqueuePc where
  /-- about to look at the closed flag (:167) -/
  | opening
  /-- inside `from_pounce` (:179) -/
  | signing
  /-- about to look at the executor cell (:46) -/
  | looking (inner : InnerTask)
  /-- about to create an executor (:50-64) -/
  | creating (inner : InnerTask)
  /-- about to set the cell to the executor of scheduler `j` (:65) -/
  | setting (inner : InnerTask) (j : Nat)
  /-- about to send to scheduler `j` (executor.rs:551) -/
  | sending (inner : InnerTask) (j : Nat)
  /-- its command is in the channel, about to return the id (executor.rs:565) -/
  | sent (id : TaskId)
  | returned (ret : Except MeowError TaskId)
deriving DecidableEq

inductive EnqueueIn where
  | go
  | signed (ret : Except MeowError InnerTask)
  | created (ret : Except MeowError Unit)
deriving DecidableEq

inductive ClosePc where
  | idle
  /-- about to look at the executor cell (:234) -/
  | looking
  /-- about to send to scheduler `j` (executor.rs:704) -/
  | sending (j : Nat)
  /-- waiting for the answer of scheduler `j` (executor.rs:714) -/
  | waiting (j : Nat)
  /-- about to take the flag back (:238) -/
  | failed (e : MeowError)
  | returned (ret : Except MeowError Unit)
deriving DecidableEq

structure Client where
  maxUpload : Nat
  maxDownload : Nat
  closed : Bool
  /-- The cell: the scheduler that its `Executor` sends to. -/
  executor : Option Nat
  /-- Every scheduler thread started so far. -/
  schedulers : List Scheduler
  /-- The `enqueue` calls so far. -/
  calls : List EnqueuePc
  closing : ClosePc

inductive ClientAct where
  /-- A further `enqueue` is called. -/
  | call
  | enqueue (i : Nat) (input : EnqueueIn)
  | close
  | scheduler (j : Nat) (act : SchedulerAct)
deriving DecidableEq

/-- meow_client.rs:81 -/
def clientClosedError : MeowError := .fromCode .clientClosed "meow client is already closed"

/-- executor.rs:559 -/
def enqueueFailedError (e : String) : MeowError := .fromCode .commandSendFailed s!"enqueue_failed: {e}"

namespace Client

def init (maxUpload maxDownload : Nat) : Client :=
  ⟨maxUpload, maxDownload, false, none, [], [], .idle⟩

def put (c : Client) (i : Nat) (pc : EnqueuePc) : Client := { c with calls := c.calls.set i pc }

def setScheduler (c : Client) (j : Nat) (s : Scheduler) : Client :=
  { c with schedulers := c.schedulers.set j s }

/-- The next step of `enqueue` call number `i`. -/
def enqueueStep (c : Client) (i : Nat) : EnqueuePc → EnqueueIn → Option Client
  | .opening, .go => some (c.put i (if c.closed then .returned (.error clientClosedError) else .signing))
  | .signing, .signed (.ok inner) => some (c.put i (.looking inner))
  | .signing, .signed (.error e) => some (c.put i (.returned (.error e)))
  | .looking inner, .go =>
    match c.executor with
    | some j => some (c.put i (.sending inner j))
    | none => some (c.put i (.creating inner))
  | .creating inner, .created (.ok ()) =>
    some ({ c with schedulers := c.schedulers ++ [Scheduler.new c.maxUpload c.maxDownload] }.put i
      (.setting inner c.schedulers.length))
  | .creating _, .created (.error e) => some (c.put i (.returned (.error e)))
  | .setting inner j, .go =>
    match c.executor, c.schedulers[j]? with
    | none, _ => some ({ c with executor := some j }.put i (.sending inner j))
    -- another call was first: the own executor is dropped, and its sender with it
    | some j', some s => some ((c.setScheduler j { s with held := false }).put i (.sending inner j'))
    | some _, none => none
  | .sending inner j, .go =>
    match c.schedulers[j]? with
    | some s =>
      match s.trySend (.enqueue inner ⟨i⟩) with
      | .ok s' => some ((c.setScheduler j s').put i (.sent inner.taskId))
      | .error e => some (c.put i (.returned (.error (enqueueFailedError e))))
    | none => none
  | .sent id, .go => some (c.put i (.returned (.ok id)))
  | _, _ => none

/-- The next step of `close`; its send waits for room in the channel. -/
def closeStep (c : Client) : Option Client :=
  match c.closing with
  | .idle =>
    if c.closed then some { c with closing := .returned (.error clientClosedError) }
    else some { c with closed := true, closing := .looking }
  | .looking =>
    match c.executor with
    | some j => some { c with closing := .sending j }
    | none => some { c with closing := .returned (.ok ()) }
  | .sending j =>
    match c.schedulers[j]? with
    | some s =>
      if s.exited then some { c with closing := .failed (sendFailedError "close") }
      else if s.queue.length < commandCapacity then
        some { c.setScheduler j { s with queue := s.queue ++ [.close] } with closing := .waiting j }
      else none
    | none => none
  | .waiting j =>
    match c.schedulers[j]? with
    | some s =>
      -- the answer to the one `Close` is the last thing the loop does
      if s.sys.loop.closed then some { c with closing := .returned (.ok ()) }
      else if s.exited then some { c with closing := .failed (responseFailedError "close") }
      else none
    | none => none
  | .failed e => some { c with closed := false, closing := .returned (.error e) }
  | .returned _ => none

def step (c : Client) : ClientAct → Option Client
  | .call => some { c with calls := c.calls ++ [.opening] }
  | .enqueue i input => c.calls[i]?.bind fun pc => c.enqueueStep i pc input
  | .close => c.closeStep
  | .scheduler j act => c.schedulers[j]?.bind fun s => (s.step act).map (c.setScheduler j)

end Client

/-- The thread is gone, or it serves and its channel is empty. A loop that has handled `Close` is on its way out
(:305): it is at rest only when its thread is gone, which takes the workers with it. -/
def Scheduler.AtRest (s : Scheduler) : Prop :=
  s.exited = true ∨ s.sys.loop.closed = false ∧ s.queue = []

instance (s : Scheduler) : Decidable s.AtRest := inferInstanceAs (Decidable (_ ∨ _))

def EnqueuePc.done : EnqueuePc → Bool
  | .returned _ => true
  | _ => false

def ClosePc.done : ClosePc → Bool
  | .returned _ => true
  | _ => false

/-- All calls have returned, and no scheduler has a command left to handle. -/
structure Client.AtRest (c : Client) : Prop where
  calls : ∀ pc ∈ c.calls, pc.done
  closing : c.closing.done
  schedulers : ∀ s ∈ c.schedulers, s.AtRest

/-- No group is left anywhere, and every `enqueue` that returned `Ok` was told something. -/
structure Client.Cleared (c : Client) : Prop where
  groups : ∀ s ∈ c.schedulers, s.sys.loop.state.groups = ∅
  told : ∀ i id, c.calls[i]? = some (.returned (.ok id)) →
    ∃ s ∈ c.schedulers, statusesTo ⟨i⟩ s.sys.loop.log ≠ []

/-- ... and no worker. -/
structure Client.Final (c : Client) : Prop extends c.Cleared where
  workers : ∀ s ∈ c.schedulers, ∀ w ∈ s.sys.pool.workers, w.pc = .ended

/-- `close` has found no executor, or its command is in the channel. -/
def ClosePc.late : ClosePc → Bool
  | .waiting _ | .returned (.ok ()) => true
  | _ => false

/-- The next step of `enqueue` call number `i` gets a command into a channel. -/
def Client.sends (c : Client) (i : Nat) : Bool :=
  match c.calls[i]? with
  | some (.sending _ j) =>
    match c.schedulers[j]? with
    | some s => !s.exited && decide (s.queue.length < commandCapacity)
    | none => false
  | _ => false

/-- No `enqueue` does so once `close` is that far. -/
def InTime (c : Client) : ClientAct → Prop
  | .enqueue i .go => c.closing.late = true → c.sends i = false
  | _ => True

instance (c : Client) : ∀ act, Decidable (InTime c act)
  | .enqueue i .go => inferInstanceAs (Decidable (c.closing.late = true → c.sends i = false))
  | .enqueue _ (.signed _) | .enqueue _ (.created _) | .call | .close | .scheduler _ _ =>
    inferInstanceAs (Decidable True)

/-! ## The invariant -/

/-- What `close` has made of the scheduler in the cell so far. It does not fail. -/
def ClosePc.Served (s : Scheduler) : ClosePc → Prop
  | .idle | .looking | .sending _ => s.Open
  | .waiting _ => s.Closing ∨ s.Finished
  | .returned (.ok ()) => s.Finished ∨ s.Pristine
  | _ => False

/-- The flag, and the scheduler that `close` talks to. -/
def ClosePc.Follows (c : Client) : ClosePc → Prop
  | .idle => c.closed = false
  | .sending j | .waiting j => c.executor = some j
  | .looking | .returned (.ok ()) => True
  | _ => False

/-- Where `enqueue` call number `i` stands. -/
def EnqueuePc.Follows (c : Client) (i : Nat) : EnqueuePc → Prop
  | .sending _ j => c.executor = some j
  | .setting _ j => c.executor ≠ some j ∧ ∃ s, c.schedulers[j]? = some s ∧ s.held = true
  | .sent _ | .returned (.ok _) => ∃ j s, c.executor = some j ∧ c.schedulers[j]? = some s ∧ s.Tells ⟨i⟩
  | _ => True

structure Orderly (c : Client) : Prop where
  unused : ∀ (j : Nat) s, c.schedulers[j]? = some s → c.executor ≠ some j → s.Pristine
  cell : ∀ j, c.executor = some j → ∃ s, c.schedulers[j]? = some s ∧ c.closing.Served s
  closing : c.closing.Follows c
  calls : ∀ (i : Nat) pc, c.calls[i]? = some pc → pc.Follows c i
  own : ∀ (i i' : Nat) inner inner' j, c.calls[i]? = some (.setting inner j) →
    c.calls[i']? = some (.setting inner' j) → i = i'

/-- Whatever the scheduler does, it is served the same. -/
theorem ClosePc.Served.step {pc : ClosePc} {s s' : Scheduler} {act : SchedulerAct} (h : pc.Served s)
    (hs : s.step act = some s') : pc.Served s' := by
  cases pc with
  | idle | looking | sending j => exact Scheduler.Open.step h hs
  | waiting j =>
    rcases h with hclosing | hfinished
    · exact hclosing.step hs
    · exact .inr (hfinished.step hs)
  | failed e => exact h
  | returned ret =>
    cases ret with
    | ok =>
      rcases h with hfinished | hpristine
      · exact .inl (hfinished.step hs)
      · exact .inr (hpristine.step hs)
    | error e => exact h

/-- When the loop has ended, no command is left behind. -/
theorem ClosePc.Served.empty_of_closed {pc : ClosePc} {s : Scheduler} (h : pc.Served s)
    (hclosed : s.sys.loop.closed = true) : s.queue = [] := by
  have hcontra (hrun : s.sys.loop.closed = false) : s.queue = [] := by
    rw [hclosed] at hrun
    cases hrun
  cases pc with
  | idle | looking | sending j => exact hcontra (Scheduler.Open.running h)
  | waiting j =>
    rcases h with hclosing | hfinished
    · exact hcontra hclosing.running
    · exact hfinished.queue
  | failed e => exact h.elim
  | returned ret =>
    cases ret with
    | ok =>
      rcases h with hfinished | hpristine
      · exact hfinished.queue
      · exact hpristine.queue
    | error e => exact h.elim

section
variable {c c' : Client} {s s' : Scheduler} {i j : Nat} {pc : EnqueuePc}

theorem EnqueuePc.Follows.mono (h : pc.Follows c i) (hexec : c'.executor = c.executor)
    (hsched : ∀ (j : Nat) s, c.schedulers[j]? = some s → ∃ s', c'.schedulers[j]? = some s' ∧
      ((∃ inner, pc = .setting inner j) → s.held = true → s'.held = true) ∧
      (c.executor = some j → ∀ cb, s.Tells cb → s'.Tells cb)) : pc.Follows c' i := by
  cases pc with
  | sending inner j => exact hexec.trans h
  | setting inner j =>
    obtain ⟨hne, s, hs, hheld⟩ := h
    obtain ⟨s', hs', hheld', _⟩ := hsched j s hs
    exact ⟨hexec.symm ▸ hne, s', hs', hheld' ⟨inner, rfl⟩ hheld⟩
  | sent id =>
    obtain ⟨j, s, hj, hs, htells⟩ := h
    obtain ⟨s', hs', _, htells'⟩ := hsched j s hs
    exact ⟨j, s', hexec.trans hj, hs', htells' hj _ htells⟩
  | returned ret =>
    cases ret with
    | ok id =>
      obtain ⟨j, s, hj, hs, htells⟩ := h
      obtain ⟨s', hs', _, htells'⟩ := hsched j s hs
      exact ⟨j, s', hexec.trans hj, hs', htells' hj _ htells⟩
    | error e => trivial
  | opening | signing | looking | creating => trivial

theorem ClosePc.Follows.congr {pc : ClosePc} (h : pc.Follows c) (hclosed : c'.closed = c.closed)
    (hexec : c'.executor = c.executor) : pc.Follows c' := by
  cases pc with
  | idle => exact hclosed.trans h
  | sending j | waiting j => exact hexec.trans h
  | looking => trivial
  | failed e => exact h
  | returned ret =>
    cases ret with
    | ok => trivial
    | error e => exact h

/-- `close` has not reached any executor while the cell is empty. -/
theorem ClosePc.Follows.served_new {pc : ClosePc} (h : pc.Follows c) (hnone : c.executor = none)
    (hs : s.Pristine) (hheld : s.held = true) : pc.Served s := by
  cases pc with
  | idle | looking => exact hs.open hheld
  | sending k | waiting k => cases hnone.symm.trans h
  | failed e => exact h
  | returned ret =>
    cases ret with
    | ok => exact .inr hs
    | error e => exact h

theorem ClosePc.Follows.of_none {pc : ClosePc} (h : pc.Follows c) (hnone : c.executor = none)
    (hclosed : c'.closed = c.closed) : pc.Follows c' := by
  cases pc with
  | idle => exact hclosed.trans h
  | looking => trivial
  | sending k | waiting k => cases hnone.symm.trans h
  | failed e => exact h
  | returned ret =>
    cases ret with
    | ok => trivial
    | error e => exact h

namespace Orderly

theorem init (maxUpload maxDownload : Nat) : Orderly (.init maxUpload maxDownload) where
  unused := nofun
  cell := nofun
  closing := rfl
  calls := nofun
  own := nofun

/-- A call moves on, and touches nothing else. -/
theorem put (h : Orderly c) (hpc : pc.Follows c i)
    (hown : ∀ inner j, pc = .setting inner j → ∀ (k : Nat) inner', c.calls[k]? ≠ some (.setting inner' j)) :
    Orderly (c.put i pc) where
  unused := h.unused
  cell := h.cell
  closing := h.closing.congr rfl rfl
  calls := by
    intro k pc' hk
    have hfollows : pc'.Follows c k := by
      rcases Places.lookup_set.1 hk with ⟨rfl, _, rfl⟩ | ⟨_, hk⟩
      · exact hpc
      · exact h.calls k pc' hk
    exact hfollows.mono rfl fun j s hs => ⟨s, hs, fun _ => id, fun _ _ => id⟩
  own := by
    intro k k' inner inner' j hk hk'
    rcases Places.lookup_set.1 hk with ⟨rfl, _, hset⟩ | ⟨_, hold⟩ <;>
      rcases Places.lookup_set.1 hk' with ⟨rfl, _, hset'⟩ | ⟨_, hold'⟩
    · rfl
    · exact absurd hold' (hown inner j hset.symm k' inner')
    · exact absurd hold (hown inner' j hset'.symm k inner)
    · exact h.own k k' inner inner' j hold hold'

/-- One scheduler moves on, and `close` perhaps with it. -/
theorem setScheduler (h : Orderly c) (hj : c.schedulers[j]? = some s) (pc : ClosePc) (hpc : pc.Follows c)
    (hsame : c.executor ≠ some j → pc = c.closing)
    (hcell : c.executor = some j → pc.Served s')
    (hunused : c.executor ≠ some j → s'.Pristine)
    (hheld : s'.held = s.held ∨ ∀ (i : Nat) inner, c.calls[i]? ≠ some (.setting inner j))
    (htells : c.executor = some j → ∀ cb, s.Tells cb → s'.Tells cb) :
    Orderly { c.setScheduler j s' with closing := pc } where
  unused := by
    intro k t hk hne
    rcases Places.lookup_set.1 hk with ⟨rfl, _, rfl⟩ | ⟨_, hk⟩
    · exact hunused hne
    · exact h.unused k t hk hne
  cell := by
    intro k hk
    have hlen : j < c.schedulers.length := (List.getElem?_eq_some_iff.1 hj).1
    by_cases hkj : k = j
    · subst hkj
      exact ⟨s', List.getElem?_set_self hlen, hcell hk⟩
    · obtain ⟨t, ht, hserved⟩ := h.cell k hk
      have hne : c.executor ≠ some j := by
        rw [show c.executor = some k from hk]
        exact fun heq => hkj (Option.some.inj heq)
      rw [← hsame hne] at hserved
      exact ⟨t, (List.getElem?_set_ne (Ne.symm hkj)).trans ht, hserved⟩
  closing := hpc.congr rfl rfl
  calls := by
    intro k pc' hk
    refine (h.calls k pc' hk).mono rfl fun l t hl => ?_
    by_cases hlj : j = l
    · subst hlj
      rw [hj] at hl
      cases hl
      have hlen : j < c.schedulers.length := (List.getElem?_eq_some_iff.1 hj).1
      refine ⟨s', List.getElem?_set_self hlen, ?_, htells⟩
      rintro ⟨inner, rfl⟩ ht
      rcases hheld with heq | hnone
      · exact heq.trans ht
      · exact absurd hk (hnone k inner)
    · exact ⟨t, (List.getElem?_set_ne hlj).trans hl, fun _ => id, fun _ _ => id⟩
  own := h.own

/-- A new scheduler is nobody's yet. -/
theorem create (h : Orderly c) : Orderly { c with
    schedulers := c.schedulers ++ [Scheduler.new c.maxUpload c.maxDownload] } where
  unused := by
    intro j s hj hne
    rcases Places.lookup_push.1 hj with hold | ⟨_, rfl⟩
    · exact h.unused j s hold hne
    · exact Scheduler.new_pristine _ _
  cell := by
    intro j hj
    obtain ⟨s, hs, hserved⟩ := h.cell j hj
    exact ⟨s, Places.lookup_push.2 (.inl hs), hserved⟩
  closing := h.closing.congr rfl rfl
  calls := by
    intro k pc hk
    exact (h.calls k pc hk).mono rfl fun j s hs =>
      ⟨s, Places.lookup_push.2 (.inl hs), fun _ => id, fun _ _ => id⟩
  own := h.own

/-- The scheduler in the cell exists. -/
theorem cell_lt (h : Orderly c) (hj : c.executor = some j) : j < c.schedulers.length := by
  obtain ⟨s, hs, _⟩ := h.cell j hj
  exact (List.getElem?_eq_some_iff.1 hs).1

theorem setting_lt (h : Orderly c) {inner : InnerTask} (hi : c.calls[i]? = some (.setting inner j)) :
    j < c.schedulers.length := by
  obtain ⟨_, s, hs, _⟩ := h.calls i _ hi
  exact (List.getElem?_eq_some_iff.1 hs).1

/-- The first executor that is ready fills the cell. -/
theorem fill (h : Orderly c) {inner : InnerTask} (hi : c.calls[i]? = some (.setting inner j))
    (hnone : c.executor = none) : Orderly ({ c with executor := some j }.put i (.sending inner j)) where
  unused := by
    intro k s hk _
    apply h.unused k s hk
    rw [hnone]
    exact (Option.some_ne_none k).symm
  cell := by
    intro k hk
    cases hk
    obtain ⟨hne, s, hs, hheld⟩ := h.calls i _ hi
    refine ⟨s, hs, ?_⟩
    exact h.closing.served_new hnone (h.unused j s hs hne) hheld
  closing := h.closing.of_none hnone rfl
  calls := by
    intro k pc hk
    rcases Places.lookup_set.1 hk with ⟨rfl, _, rfl⟩ | ⟨hki, hk⟩
    · rfl
    · have hf := h.calls k pc hk
      cases pc with
      | sending inner' j' => cases hnone.symm.trans hf
      | setting inner' j' =>
        refine ⟨fun heq => ?_, hf.2⟩
        cases heq
        exact hki (h.own k i inner' inner j hk hi)
      | sent id =>
        obtain ⟨j', _, hj', _⟩ := hf
        cases hnone.symm.trans hj'
      | returned ret =>
        cases ret with
        | ok id =>
          obtain ⟨j', _, hj', _⟩ := hf
          cases hnone.symm.trans hj'
        | error e => trivial
      | opening | signing | looking | creating => trivial
  own := by
    intro k k' inner₁ inner₂ l hk hk'
    rcases Places.lookup_set.1 hk with ⟨_, _, hset⟩ | ⟨_, hold⟩
    · cases hset
    rcases Places.lookup_set.1 hk' with ⟨_, _, hset⟩ | ⟨_, hold'⟩
    · cases hset
    exact h.own k k' inner₁ inner₂ l hold hold'

/-- `close` moves on, and no scheduler with it. -/
theorem advance (h : Orderly c) (b : Bool) (pc : ClosePc) (hpc : pc.Follows { c with closed := b })
    (hserved : ∀ (j : Nat) s, c.executor = some j → c.schedulers[j]? = some s → c.closing.Served s →
      pc.Served s) :
    Orderly { c with closed := b, closing := pc } where
  unused := h.unused
  cell := by
    intro j hj
    obtain ⟨s, hs, hold⟩ := h.cell j hj
    exact ⟨s, hs, hserved j s hj hs hold⟩
  closing := hpc.congr rfl rfl
  calls := by
    intro k pc' hk
    exact (h.calls k pc' hk).mono rfl fun j s hs => ⟨s, hs, fun _ => id, fun _ _ => id⟩
  own := h.own

/-- A scheduler takes a step of its own. -/
theorem step_scheduler (h : Orderly c) {act : SchedulerAct} (hj : c.schedulers[j]? = some s)
    (hs : s.step act = some s') : Orderly (c.setScheduler j s') := by
  have hcell : c.executor = some j → c.closing.Served s := by
    intro he
    obtain ⟨t, ht, hserved⟩ := h.cell j he
    rw [hj] at ht
    cases ht
    exact hserved
  refine h.setScheduler hj c.closing h.closing (fun _ => rfl) (fun he => ?_) (fun hne => ?_)
    (.inl (Scheduler.step_held hs)) (fun he cb ht => ?_)
  · exact (hcell he).step hs
  · exact (h.unused j s hj hne).step hs
  · exact ht.step hs (hcell he).empty_of_closed

/-- A call moves to a place where it depends on nothing. -/
theorem put_free (h : Orderly c) (hfollows : ∀ c' : Client, pc.Follows c' i)
    (hsetting : ∀ inner j, pc ≠ .setting inner j) : Orderly (c.put i pc) :=
  h.put (hfollows c) fun inner j heq => absurd heq (hsetting inner j)

/-- The command of an `enqueue` that is in time goes before the `Close`. -/
theorem send (h : Orderly c) {inner : InnerTask} (hi : c.calls[i]? = some (.sending inner j))
    (hj : c.schedulers[j]? = some s) (hs : s.trySend (.enqueue inner ⟨i⟩) = .ok s')
    (hin : InTime c (.enqueue i .go)) :
    Orderly ((c.setScheduler j s').put i (.sent inner.taskId)) := by
  have hexec : c.executor = some j := h.calls i _ hi
  obtain ⟨hstays, hroom, rfl⟩ := Scheduler.trySend_ok hs
  have hearly : c.closing.late = false := by
    by_contra hlate
    have hno : c.sends i = false := hin (Bool.eq_true_of_not_eq_false hlate)
    simp [Client.sends, hi, hj, hstays, hroom] at hno
  obtain ⟨t, ht, hserved⟩ := h.cell j hexec
  rw [hj] at ht
  cases ht
  have hkeeps : c.closing.Served { s with queue := s.queue ++ [.enqueue inner ⟨i⟩] } := by
    cases hc : c.closing with
    | idle | looking | sending k =>
      rw [hc] at hserved
      exact Scheduler.Open.enqueue hserved inner ⟨i⟩
    | waiting k =>
      rw [hc] at hearly
      cases hearly
    | failed e =>
      rw [hc] at hserved
      exact hserved
    | returned ret =>
      rw [hc] at hserved hearly
      cases ret with
      | ok => cases hearly
      | error e => exact hserved
  have hsent : Orderly (c.setScheduler j { s with queue := s.queue ++ [.enqueue inner ⟨i⟩] }) := by
    exact h.setScheduler hj c.closing h.closing (fun _ => rfl) (fun _ => hkeeps)
      (absurd hexec) (.inl rfl) fun _ cb ht => ht.send _
  apply hsent.put
  · have hlen := h.cell_lt hexec
    exact ⟨j, _, hexec, List.getElem?_set_self hlen, .inl ⟨inner, by simp⟩⟩
  · intro inner' j' heq
    cases heq

theorem step_enqueue (h : Orderly c) {input : EnqueueIn} (hi : c.calls[i]? = some pc)
    (hs : c.enqueueStep i pc input = some c') (hin : InTime c (.enqueue i input)) : Orderly c' := by
  unfold Client.enqueueStep at hs
  split at hs
  · -- the look at the closed flag
    cases hs
    split <;> exact h.put_free (fun _ => trivial) nofun
  · cases hs
    exact h.put_free (fun _ => trivial) nofun
  · cases hs
    exact h.put_free (fun _ => trivial) nofun
  · split at hs <;> rename_i hexec
    · cases hs
      exact h.put hexec nofun
    · cases hs
      exact h.put_free (fun _ => trivial) nofun
  · -- a new scheduler, under a number that no call has
    cases hs
    rename_i inner
    apply h.create.put
    · refine ⟨fun hexec => ?_, _, Places.lookup_push.2 (.inr ⟨rfl, rfl⟩), rfl⟩
      exact Nat.lt_irrefl _ (h.cell_lt hexec)
    · rintro inner' j ⟨⟩ k inner'' hk
      exact Nat.lt_irrefl _ (h.setting_lt hk)
  · cases hs
    exact h.put_free (fun _ => trivial) nofun
  · rename_i inner j
    split at hs
    · rename_i hexec
      cases hs
      exact h.fill hi hexec
    · rename_i j' s hexec hj
      cases hs
      obtain ⟨hne, _⟩ := h.calls i _ hi
      have hput : Orderly (c.put i (.sending inner j')) := h.put hexec nofun
      refine hput.setScheduler hj c.closing hput.closing (fun _ => rfl) (absurd · hne) (fun _ => ?_)
        (.inr fun k inner' hk => ?_) (absurd · hne)
      · have hp := h.unused j s hj hne
        exact ⟨hp.queue, hp.workers, hp.running, hp.groups, fun _ => rfl⟩
      · rcases Places.lookup_set.1 hk with ⟨_, _, hset⟩ | ⟨hki, hold⟩
        · cases hset
        · exact hki (h.own k i inner' inner j hold hi)
    · cases hs
  · rename_i inner j
    split at hs
    · rename_i s hj
      split at hs
      · rename_i s' hsend
        cases hs
        exact h.send hi hj hsend hin
      · cases hs
        exact h.put_free (fun _ => trivial) nofun
    · cases hs
  · -- the command has been sent, and is where it was
    cases hs
    have hsent := h.calls i _ hi
    exact h.put hsent nofun
  · cases hs

theorem step_close (h : Orderly c) (hs : c.closeStep = some c') : Orderly c' := by
  have hf := h.closing
  unfold Client.closeStep at hs
  split at hs
  · rename_i hc
    rw [hc] at hf
    rw [show c.closed = false from hf] at hs
    cases hs
    apply h.advance true .looking trivial
    intro _ s _ _ hserved
    rw [hc] at hserved
    exact hserved
  · rename_i hc
    split at hs
    · rename_i j hexec
      cases hs
      apply h.advance c.closed (.sending j) hexec
      intro _ s _ _ hserved
      rw [hc] at hserved
      exact hserved
    · rename_i hexec
      cases hs
      apply h.advance c.closed (.returned (.ok ())) trivial
      intro j s hj _ _
      cases hexec.symm.trans hj
  · rename_i j hc
    rw [hc] at hf
    obtain ⟨t, ht, hserved⟩ := h.cell j hf
    rw [hc] at hserved
    have hopen : t.Open := hserved
    rw [ht] at hs
    simp only at hs
    split at hs
    · rename_i hexited
      rw [hopen.stays] at hexited
      cases hexited
    split at hs
    · cases hs
      exact h.setScheduler ht (.waiting j) hf (absurd hf) (fun _ => .inl hopen.close)
        (absurd hf) (.inl rfl) fun _ cb ht => ht.send _
    · cases hs
  · rename_i j hc
    rw [hc] at hf
    obtain ⟨t, ht, hserved⟩ := h.cell j hf
    rw [hc] at hserved
    rw [ht] at hs
    simp only at hs
    rcases hserved with hclosing | hfinished
    · simp only [hclosing.running, hclosing.stays, Bool.false_eq_true, ↓reduceIte] at hs
      cases hs
    · simp only [hfinished.closed, ↓reduceIte] at hs
      cases hs
      apply h.advance c.closed (.returned (.ok ())) trivial
      intro j' s hj' hs' _
      cases hf.symm.trans hj'
      cases ht.symm.trans hs'
      exact .inl hfinished
  · rename_i e hc
    rw [hc] at hf
    exact hf.elim
  · cases hs

/-- A further call begins. -/
theorem call (h : Orderly c) : Orderly { c with calls := c.calls ++ [.opening] } where
  unused := h.unused
  cell := h.cell
  closing := h.closing.congr rfl rfl
  calls := by
    intro k pc hk
    rcases Places.lookup_push.1 hk with hold | ⟨_, rfl⟩
    · exact (h.calls k pc hold).mono rfl fun j s hs => ⟨s, hs, fun _ => id, fun _ _ => id⟩
    · trivial
  own := by
    intro k k' inner inner' j hk hk'
    rcases Places.lookup_push.1 hk with hold | ⟨_, hnew⟩
    · rcases Places.lookup_push.1 hk' with hold' | ⟨_, hnew⟩
      · exact h.own k k' inner inner' j hold hold'
      · cases hnew
    · cases hnew

/-- **A step** that is in time keeps order. -/
theorem step (h : Orderly c) {act : ClientAct} (hin : InTime c act) (hs : c.step act = some c') :
    Orderly c' := by
  cases act with
  | call =>
    cases hs
    exact h.call
  | enqueue i input =>
    obtain ⟨pc, hi, hpc⟩ := Option.bind_eq_some_iff.1 hs
    exact h.step_enqueue hi hpc hin
  | close => exact h.step_close hs
  | scheduler j act =>
    obtain ⟨s, hj, hmap⟩ := Option.bind_eq_some_iff.1 hs
    obtain ⟨s', hs', rfl⟩ := Option.map_eq_some_iff.1 hmap
    exact h.step_scheduler hj hs'

theorem run {maxUpload maxDownload : Nat} {acts : List ClientAct}
    (hrun : Lts.run Client.step (.init maxUpload maxDownload) acts = some c)
    (hin : Lts.Meets Client.step InTime (.init maxUpload maxDownload) acts) : Orderly c :=
  Lts.run_invariant_of_meets (fun _ _ _ h hmeets hstep => h.step hmeets hstep) (init _ _) hin hrun

/-- When `close` has returned `Ok`, each scheduler has handled its `Close` or was never used. -/
theorem stage (h : Orderly c) (hclosing : c.closing = .returned (.ok ())) (hj : c.schedulers[j]? = some s) :
    s.Finished ∨ s.Pristine := by
  by_cases hexec : c.executor = some j
  · obtain ⟨t, ht, hserved⟩ := h.cell j hexec
    rw [hclosing] at hserved
    cases hj.symm.trans ht
    exact hserved
  · exact .inr (h.unused j s hj hexec)

/-- What `close` leaves behind when it returns `Ok`. -/
theorem cleared (h : Orderly c) (hclosing : c.closing = .returned (.ok ())) : c.Cleared := by
  refine ⟨fun s hs => ?_, fun i id hi => ?_⟩
  · obtain ⟨j, hj⟩ := List.mem_iff_getElem?.1 hs
    rcases h.stage hclosing hj with hfinished | hpristine
    · exact hfinished.groups
    · exact hpristine.groups
  · obtain ⟨j, s, _, hj, htells⟩ := h.calls i _ hi
    refine ⟨s, List.mem_of_getElem? hj, ?_⟩
    rcases htells with ⟨inner, hm⟩ | htold
    · have hqueue : s.queue = [] := (h.stage hclosing hj).elim Scheduler.Finished.queue Scheduler.Pristine.queue
      rw [hqueue] at hm
      cases hm
    · exact htold

/-- The workers go with the thread. -/
theorem final (h : Orderly c) (hclosing : c.closing = .returned (.ok ())) (hrest : c.AtRest) : c.Final := by
  refine ⟨h.cleared hclosing, fun s hs w hw => ?_⟩
  obtain ⟨j, hj⟩ := List.mem_iff_getElem?.1 hs
  rcases h.stage hclosing hj with hfinished | hpristine
  · rcases hrest.schedulers s hs with hexited | ⟨hrun, _⟩
    · rw [hfinished.workers hexited] at hw
      cases hw
    · rw [hfinished.closed] at hrun
      cases hrun
  · rw [hpristine.workers] at hw
    cases hw

end Orderly

end

/-- **`close` is final** when no `enqueue` sends its command later than `close` found no executor or sent
the `Close`. The groups are gone and the callbacks told as soon as `close` has returned; the workers are gone when
all is at rest. -/
theorem close_is_final {maxUpload maxDownload : Nat} {acts : List ClientAct} {c : Client}
    (hrun : Lts.run Client.step (.init maxUpload maxDownload) acts = some c)
    (hin : Lts.Meets Client.step InTime (.init maxUpload maxDownload) acts)
    (hclosing : c.closing = .returned (.ok ())) : c.Cleared ∧ (c.AtRest → c.Final) := by
  have horderly : Orderly c := .run hrun hin
  exact ⟨horderly.cleared hclosing, horderly.final hclosing⟩

/-- Calls that come through: one `enqueue` signs, creates the executor and sends, then `close` is served. -/
def closeAfterSend : List ClientAct :=
  [.call, .enqueue 0 .go, .enqueue 0 (.signed (.ok (sampleTask 0))), .enqueue 0 .go,
    .enqueue 0 (.created (.ok ())), .enqueue 0 .go, .close, .enqueue 0 .go, .close, .close,
    .scheduler 0 (.process [] []), .enqueue 0 .go,
    .scheduler 0 (.process [(.download, "http://host/cat.bin")] [(.download, "http://host/cat.bin")]),
    .scheduler 0 .leave, .close]

theorem close_is_final_after_send : ∃ c, Lts.run Client.step (.init 1 1) closeAfterSend = some c ∧
    c.calls = [.returned (.ok ⟨0⟩)] ∧ c.Final := by
  have hrun : Lts.run Client.step (.init 1 1) closeAfterSend = some _ := Lts.run_final (by decide)
  exact ⟨_, hrun, by decide, (close_is_final hrun (by decide) (by decide)).2
    ⟨by decide, by decide, by decide⟩⟩

/-- The `enqueue` signs while `close` finds no executor; it then creates one. -/
def closeBeforeExecutor : List ClientAct :=
  [.call, .enqueue 0 .go, .close, .close, .enqueue 0 (.signed (.ok (sampleTask 0))), .enqueue 0 .go,
    .enqueue 0 (.created (.ok ())), .enqueue 0 .go, .enqueue 0 .go, .scheduler 0 (.process [] []), .enqueue 0 .go]

/-- **A late executor outlives `close`.** Both calls return `Ok`, and the task is running. -/
theorem lateExecutor_survives : ∃ c, Lts.run Client.step (.init 1 1) closeBeforeExecutor = some c ∧
    c.closing = .returned (.ok ()) ∧ c.AtRest ∧
      c.schedulers.map (fun s => (s.sys.loop.state.groups.keys, s.sys.pool.workers.map (·.pc))) =
        [({(.download, "http://host/cat.bin")}, [.preparing])] ∧ ¬ c.Final := by
  have hrun : Lts.run Client.step (.init 1 1) closeBeforeExecutor = some _ := Lts.run_final (by decide)
  refine ⟨_, hrun, by decide, ⟨by decide, by decide, by decide⟩, by decide, fun hfinal => ?_⟩
  have hw := hfinal.workers
  revert hw
  decide

/-- The `enqueue` sends behind the `Close`, and its command is dropped with the channel. -/
def sendBehindClose : List ClientAct :=
  [.call, .enqueue 0 .go, .enqueue 0 (.signed (.ok (sampleTask 0))), .enqueue 0 .go,
    .enqueue 0 (.created (.ok ())), .enqueue 0 .go, .close, .close, .close, .enqueue 0 .go, .enqueue 0 .go,
    .scheduler 0 (.process [] []), .scheduler 0 .leave, .close]

/-- **A send behind `Close` is lost.** `enqueue` returns `Ok`, and its callback is never told anything. -/
theorem behindClose_untold : ∃ c, Lts.run Client.step (.init 1 1) sendBehindClose = some c ∧
    c.closing = .returned (.ok ()) ∧ c.AtRest ∧ c.calls = [.returned (.ok ⟨0⟩)] ∧
      (∀ s ∈ c.schedulers, statusesTo ⟨0⟩ s.sys.loop.log = []) ∧ ¬ c.Final := by
  have hrun : Lts.run Client.step (.init 1 1) sendBehindClose = some _ := Lts.run_final (by decide)
  have huntold : ∀ s ∈ (Lts.final Client.step (.init 1 1) sendBehindClose).schedulers,
      statusesTo ⟨0⟩ s.sys.loop.log = [] := by decide
  refine ⟨_, hrun, by decide, ⟨by decide, by decide, by decide⟩, by decide, huntold, fun hfinal => ?_⟩
  obtain ⟨s, hs, htold⟩ := hfinal.told 0 ⟨0⟩ (by decide)
  exact htold (huntold s hs)

end SpottedCat
