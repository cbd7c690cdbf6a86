import SpottedCat.Joint.Slots

/-!
# Whose events are they: one worker per key, and events of the own task

Events carry the dedupe key only. `cancel_group` frees the key while its worker may still run, so the
same url or file can be enqueued again beside the old worker (`cancelThenEnqueue_two_workers`), and
the old worker's last event then ends the new task (`lateCanceled_hits_new_task`).

`Owned` is the invariant of the runs in which every accepted `Enqueue` finds the earlier workers of its
key past their task: any other worker holds the slot of its key and runs for the leader of its group, if
the key has a group at all. How far past depends on what is wanted. For `events_stay_with_task` they have
to be settled (`CleanEnqueue`); for `one_worker_per_key` it is enough that they have ended and have no
`Canceled` on its way, which could free the slot of a paused task (`lateCanceled_two_workers`).
-/

namespace SpottedCat

/-- All workers of the key have ended and their events are handled. -/
def Pool.Quiet (pool : Pool) (key : UniqueId) : Prop := ∀ w ∈ pool.workers, w.key = key → w.Settled

instance (pool : Pool) (key : UniqueId) : Decidable (pool.Quiet key) :=
  inferInstanceAs (Decidable (∀ w ∈ pool.workers, _))

/-- An `Enqueue` that is accepted finds its key quiet. -/
def CleanEnqueue (sys : Sys) : Act → Prop
  | .cmd (.enqueue inner _) =>
    sys.loop.state.groups.lookup inner.dedupeKey = none → sys.pool.Quiet inner.dedupeKey
  | _ => True

instance (sys : Sys) (act : Act) : Decidable (CleanEnqueue sys act) := by
  unfold CleanEnqueue
  split <;> infer_instance

/-- An `Enqueue` that is accepted finds the workers of its key past their task. -/
def FindsPast (past : Worker → Prop) (sys : Sys) : Act → Prop
  | .cmd (.enqueue inner _) =>
    sys.loop.state.groups.lookup inner.dedupeKey = none →
      ∀ w ∈ sys.pool.workers, w.key = inner.dedupeKey → past w
  | _ => True

instance (past : Worker → Prop) [DecidablePred past] (sys : Sys) (act : Act) :
    Decidable (FindsPast past sys act) := by
  unfold FindsPast
  split <;> infer_instance

/-- The worker has ended, and nothing but such events of it is on its way. -/
def Worker.Past (harmless : WorkerEvent → Bool) (w : Worker) : Prop :=
  w.pc = .ended ∧ ∀ event ∈ w.outbox, harmless event = true

instance (harmless : WorkerEvent → Bool) : DecidablePred (Worker.Past harmless) :=
  fun _ => inferInstanceAs (Decidable (_ ∧ _))

/-- The one event that frees a slot and leaves the group: that of a paused task. -/
def WorkerEvent.frees : WorkerEvent → Bool
  | .canceled _ => true
  | _ => false

/-- The worker has ended, and no `Canceled` of it is on its way. -/
abbrev Worker.Stopped : Worker → Prop := Worker.Past fun event => !event.frees

/-- At most one live worker per key. -/
def Pool.OnePerKey (pool : Pool) : Prop :=
  ∀ (i j : Nat) (w w' : Worker), pool.workers[i]? = some w → pool.workers[j]? = some w' → w.pc ≠ .ended →
    w'.pc ≠ .ended → w.key = w'.key → i = j

/-- What a handler did leaves the groups of all tasks but `id` alone: their group, slot and offset
stay, and no status is emitted for them. -/
def LeavesOthers (id : TaskId) (s : SchedulerState) (x : SchedulerState × List Effect) : Prop :=
  ∀ k g, s.groups.lookup k = some g → g.leaderInner.taskId ≠ id →
    x.1.groups.lookup k = some g ∧ x.1.active.lookup k = s.active.lookup k ∧
    x.1.offsets.lookup k = s.offsets.lookup k ∧
    ∀ e ∈ x.2, ∀ dto, e.record = some dto → dto.taskId ≠ g.leaderInner.taskId

structure Owned (past : Worker → Prop) (s : SchedulerState) (pool : Pool) : Prop extends Wired s pool where
  own : ∀ (i : Nat) (w : Worker) g, pool.workers[i]? = some w → ¬ past w → s.groups.lookup w.key = some g →
    s.active.lookup w.key = some ⟨w.cancel⟩ ∧ g.leaderInner = w.inner
  single : ∀ (i j : Nat) (w w' : Worker), pool.workers[i]? = some w → pool.workers[j]? = some w' →
    ¬ past w → ¬ past w' → w.key = w'.key → i = j

/-! ## When a worker is past its task -/

/-- What `Owned` needs of it: a worker that is past its task has no step left, and frees no slot. -/
structure Passes (past : Worker → Prop) : Prop where
  settled : ∀ w : Worker, w.Settled → past w
  ended : ∀ w, past w → w.pc = .ended
  take : ∀ (w : Worker) event rest, past w → w.outbox = event :: rest → past { w with outbox := rest }
  canceled : ∀ (w : Worker) key, past w → .canceled key ∉ w.outbox

theorem Passes.of_settled : Passes Worker.Settled where
  settled _ h := h
  ended _ h := h.1
  take _ _ _ h hout := absurd h (Worker.not_settled hout)
  canceled w key h hm := by
    rw [h.2] at hm
    cases hm

theorem Passes.of_harmless {harmless : WorkerEvent → Bool} (hfrees : ∀ key, harmless (.canceled key) = false) :
    Passes (Worker.Past harmless) where
  settled w h := by
    refine ⟨h.1, fun event hm => ?_⟩
    rw [h.2] at hm
    cases hm
  ended _ h := h.1
  take w event rest h hout := ⟨h.1, fun e he => h.2 e (hout ▸ List.mem_cons_of_mem _ he)⟩
  canceled w key h hm := by
    have hharmless := h.2 _ hm
    rw [hfrees] at hharmless
    cases hharmless

/-! ## The pool moves on -/

/-- Workers that are not past their task were not before, and keep it. -/
def Pool.Follows (pool : Pool) (past : Worker → Prop) (pool' : Pool) : Prop :=
  ∀ (j : Nat) (w' : Worker), pool'.workers[j]? = some w' → ¬ past w' → ∃ w, pool.workers[j]? = some w ∧
    ¬ past w ∧ w'.key = w.key ∧ w'.cancel = w.cancel ∧ w'.inner = w.inner

theorem Pool.Follows.of_set {past : Worker → Prop} {pool : Pool} {i : Nat} {w : Worker}
    (hw : pool.workers[i]? = some w) (pc : RunPc) (outbox : List WorkerEvent) (sent : List (TaskId × WorkerEvent))
    (hs : past w → past { w with pc := pc, outbox := outbox }) :
    pool.Follows past { pool with
      workers := pool.workers.set i { w with pc := pc, outbox := outbox }, sent := sent } := by
  intro j w' hj hs'
  rcases Places.lookup_set.1 hj with ⟨rfl, _, rfl⟩ | ⟨_, hj⟩
  · exact ⟨w, hw, fun hpast => hs' (hs hpast), rfl, rfl, rfl⟩
  · exact ⟨w', hj, hs', rfl, rfl, rfl⟩

theorem Wired.work_follows {past : Worker → Prop} (hended : ∀ w, past w → w.pc = .ended) {s : SchedulerState}
    {pool pool' : Pool} {i : Nat} {input : RunIn} (h : Wired s pool) (hwork : pool.work i input = some pool') :
    pool.Follows past pool' := by
  obtain ⟨w, pc, out, hw, _, hs, rfl⟩ := Pool.work_eq_some.1 hwork
  obtain ⟨_, hrun, _⟩ := (h.worker i w hw).1.work hs
  exact .of_set hw _ _ _ fun h => absurd (hended w h) hrun

theorem Pool.take_follows {past : Worker → Prop}
    (hpast : ∀ (w : Worker) event rest, past w → w.outbox = event :: rest → past { w with outbox := rest })
    {pool pool' : Pool} {i : Nat} {event : WorkerEvent} (htake : pool.take i = some (event, pool')) :
    pool.Follows past pool' := by
  obtain ⟨w, rest, hw, hout, rfl⟩ := Pool.take_eq_some.1 htake
  exact Pool.Follows.of_set hw w.pc rest pool.sent fun h => hpast w event rest h hout

/-! ## Invariance -/

section
variable {past : Worker → Prop} {s s' : SchedulerState} {pool pool' : Pool}

/-- Groups may go, and slots of keys without a group. -/
theorem Owned.shrink (h : Owned past s pool) (hwired : Wired s' pool')
    (hgroups : ∀ k g, s'.groups.lookup k = some g →
      s.groups.lookup k = some g ∧ s'.active.lookup k = s.active.lookup k)
    (hfollows : pool.Follows past pool') : Owned past s' pool' where
  toWired := hwired
  own := fun j w' g hj hs' hg => by
    obtain ⟨w, hw, hs, hkey, hcancel, hinner⟩ := hfollows j w' hj hs'
    obtain ⟨hg, ha⟩ := hgroups _ g hg
    rw [ha, hcancel, hinner]
    rw [hkey] at hg ⊢
    exact h.own j w g hw hs hg
  single := fun i j w w' hi hj hsi hsj hk => by
    obtain ⟨wi, hwi, hsi, hki, _⟩ := hfollows i w hi hsi
    obtain ⟨wj, hwj, hsj, hkj, _⟩ := hfollows j w' hj hsj
    exact h.single i j wi wj hwi hwj hsi hsj (hki ▸ hkj ▸ hk)

theorem Pool.Follows.of_workers (h : pool'.workers = pool.workers) : pool.Follows past pool' :=
  fun _ w' hj hs => ⟨w', h ▸ hj, hs, rfl, rfl, rfl⟩

/-- A key that can start a worker has none that is not past its task. -/
theorem Owned.past_of_free {key : UniqueId} {group : GroupState} (h : Owned past s pool) (ha : key ∉ s.active)
    (hg : s.groups.lookup key = some group) {i : Nat} {w : Worker} (hw : pool.workers[i]? = some w)
    (hk : w.key = key) : past w := by
  by_contra hs
  subst hk
  exact ha (Finmap.mem_iff.2 ⟨_, (h.own i w group hw hs hg).1⟩)

theorem Owned.start {key : UniqueId} {group : GroupState} (hl : Loose s) (h : Owned past s pool)
    (ha : key ∉ s.active) (hg : s.groups.lookup key = some group) :
    Owned past (s.activate key)
      (pool.spawn ⟨key, group.leaderInner, ⟨s.nextToken⟩, s.current key, .preparing, []⟩) := by
  have hfree : ∀ (i : Nat) (w : Worker), pool.workers[i]? = some w → ¬ past w → w.key ≠ key :=
    fun i w hw hs hk => hs (h.past_of_free ha hg hw hk)
  refine ⟨h.toWired.start hl hg, fun i w g hw hs hgk => ?_, fun i j w w' hi hj hsi hsj hk => ?_⟩
  · simp only [SchedulerState.activate, Table.lookup_insert_ite] at hgk ⊢
    rcases Places.lookup_push.1 hw with hw | ⟨_, rfl⟩
    · rw [if_neg (hfree i w hw hs)]
      exact h.own i w g hw hs hgk
    · rw [hg] at hgk
      cases hgk
      simp
  · rcases Places.lookup_push.1 hi with hi | ⟨rfl, rfl⟩ <;> rcases Places.lookup_push.1 hj with hj | ⟨rfl, rfl⟩
    · exact h.single i j w w' hi hj hsi hsj hk
    · exact absurd hk (hfree i w hi hsi)
    · exact absurd hk.symm (hfree j w' hj hsj)
    · rfl

theorem Owned.frame (h : Owned past s pool) (hsame : SameTables s s') (hw : pool'.workers = pool.workers) :
    Owned past s' pool' :=
  h.shrink (h.toWired.shrink hsame.nextToken (fun _ _ hk => hsame.active ▸ hk) hw)
    (fun k g hk => ⟨hsame.groups ▸ hk, by rw [hsame.active]⟩) (.of_workers hw)

theorem Owned.accept {inner : InnerTask} {callbacks : TaskCallbacks} (h : Owned past s pool)
    (hfound : ∀ w ∈ pool.workers, w.key = inner.dedupeKey → past w)
    (hg : s'.groups = s.groups.insert inner.dedupeKey ⟨inner, ⟨inner, callbacks⟩⟩)
    (ha : s'.active = s.active) (hlim : SameLimits s s') : Owned past s' pool where
  toWired := h.toWired.shrink hlim.nextToken (fun _ _ hk => ha ▸ hk) rfl
  own := fun i w g hw hs hgk => by
    rw [hg, Table.lookup_insert_ite] at hgk
    split at hgk
    · rename_i hk
      exact absurd (hfound w (List.mem_of_getElem? hw) hk) hs
    · rw [ha]
      exact h.own i w g hw hs hgk
  single := h.single

theorem lookup_of_erase_group {groups groups' : Table UniqueId GroupState}
    {active active' : Table UniqueId ActiveState} {key k : UniqueId} {g : GroupState}
    (hg : groups' = groups.erase key) (ha : active' = active.erase key)
    (h : groups'.lookup k = some g) :
    groups.lookup k = some g ∧ active'.lookup k = active.lookup k := by
  rw [hg, Table.lookup_erase_ite] at h
  rw [ha, Table.lookup_erase_ite]
  split at h
  · cases h
  · rename_i hk
    exact ⟨h, if_neg hk⟩

theorem Owned.cancel {key : UniqueId} (h : Owned past s pool) (hg : s'.groups = s.groups.erase key)
    (ha : s'.active = s.active.erase key) (hlim : SameLimits s s') : Owned past s' pool :=
  h.shrink (h.toWired.shrink hlim.nextToken (fun _ _ hk => (lookup_of_erase (ha ▸ hk)).2) rfl)
    (fun _ _ hk => lookup_of_erase_group hg ha hk) (.of_workers rfl)

theorem Owned.close (h : Owned past s pool) (hg : s'.groups = ∅) (ha : s'.active = ∅)
    (hlim : SameLimits s s') : Owned past s' pool :=
  h.shrink (h.toWired.shrink hlim.nextToken (fun _ _ hk => by rw [ha] at hk; cases hk) rfl)
    (fun _ _ hk => by rw [hg] at hk; cases hk) (.of_workers rfl)

theorem Owned.work {i : Nat} {input : RunIn} (hpast : Passes past) (h : Owned past s pool)
    (hwork : pool.work i input = some pool') : Owned past s pool' :=
  h.shrink (h.toWired.work hwork) (fun _ _ hk => ⟨hk, rfl⟩) (h.toWired.work_follows hpast.ended hwork)

/-- When a worker's last event has been taken, all workers of its key are past their task. -/
theorem Owned.past_of_last {i j : Nat} {w w' : Worker} {event : WorkerEvent} (hpast : Passes past)
    (h : Owned past s pool) (htake : pool.take i = some (event, pool')) (hw : pool.workers[i]? = some w)
    (hs : ¬ past w) (hterm : event.terminal = true) (hj : pool'.workers[j]? = some w')
    (hk : w'.key = event.key) : past w' := by
  by_contra hs'
  obtain ⟨w0, hw0, hs0, hkey, _⟩ := Pool.take_follows hpast.take htake j w' hj hs'
  obtain ⟨w1, rest, hw1, hout, rfl⟩ := Pool.take_eq_some.1 htake
  cases hw.symm.trans hw1
  obtain ⟨_, hwkey, hend⟩ := (h.worker i w hw).1.take hout
  obtain rfl : j = i := h.single j i w0 w hw0 hw hs0 hs (by rw [← hkey, hk, hwkey])
  rcases Places.lookup_set.1 hj with ⟨_, _, rfl⟩ | ⟨hne, _⟩
  · exact hs' (hpast.settled _ (hend hterm))
  · exact hne rfl

theorem Owned.deliver {i : Nat} {event : WorkerEvent} (hpast : Passes past) (h : Owned past s pool)
    (htake : pool.take i = some (event, pool')) (hf : Footprint s (.event event) s')
    (hlim : SameLimits s s') : Owned past s' pool' := by
  have hwired := h.toWired.deliver htake hf hlim.nextToken
  have hfollows := Pool.take_follows hpast.take htake
  cases hf with
  | keep hcmd => exact absurd rfl (hcmd event)
  | progress key nextOffset totalSize hg ha =>
    exact h.shrink hwired (fun k g hk => ⟨hg ▸ hk, by rw [ha]⟩) hfollows
  | finish _ hterm hg ha =>
    exact h.shrink hwired (fun k g hk => lookup_of_erase_group hg ha hk) hfollows
  | stop key _ hg ha =>
    -- the group stays without its slot: its worker has just settled, and the key had no other
    obtain ⟨w, rest, hw, hout, _⟩ := Pool.take_eq_some.1 htake
    have hs : ¬ past w := fun h => hpast.canceled w key h (hout ▸ List.mem_cons_self)
    refine ⟨hwired, fun j w' g hj hs' hgk => ?_, fun a b wa wb hwa hwb hsa hsb hk => ?_⟩
    · have hne : w'.key ≠ key := fun hk => hs' (h.past_of_last hpast htake hw hs rfl hj hk)
      obtain ⟨w0, hw0, hs0, hkey, hcancel, hinner⟩ := hfollows j w' hj hs'
      rw [hg] at hgk
      rw [ha, Table.lookup_erase_ite, if_neg hne, hcancel, hinner]
      rw [hkey] at hgk ⊢
      exact h.own j w0 g hw0 hs0 hgk
    · obtain ⟨wi, hwi, hsi, hki, _⟩ := hfollows a wa hwa hsa
      obtain ⟨wj, hwj, hsj, hkj, _⟩ := hfollows b wb hwb hsb
      exact h.single a b wi wj hwi hwj hsi hsj (hki ▸ hkj ▸ hk)

end

theorem Owned.lockstep {past : Worker → Prop} (hpast : Passes past) :
    Lockstep (FindsPast past) fun _ => Owned past where
  frame h _ hsame hw _ := h.frame hsame hw
  start hl h ha hg _ := h.start hl ha hg
  accept h hc _ hv hg ha _ hlim := h.accept (hc hv) hg ha hlim
  cancel h _ _ hg ha _ hlim := h.cancel hg ha hlim
  close h _ hg ha _ hlim := h.close hg ha hlim
  deliver h htake hf hlim := h.deliver hpast htake hf hlim
  work h hw := h.work hpast hw

theorem Owned.init (past : Worker → Prop) (maxUpload maxDownload : Nat) :
    Owned past (.new maxUpload maxDownload []) ⟨[], [], ∅⟩ where
  toWired := .init maxUpload maxDownload
  own := fun i w g hw => by simp at hw
  single := fun i j w w' hw => by simp at hw

/-! ## Runs -/

theorem CleanEnqueue.finds {sys : Sys} {act : Act} (h : CleanEnqueue sys act) :
    FindsPast Worker.Settled sys act := by
  cases act with
  | cmd c =>
    cases c with
    | enqueue => exact h
    | _ => trivial
  | _ => trivial

theorem Owned.of_run {past : Worker → Prop} (hpast : Passes past) {maxUpload maxDownload : Nat} {acts : List Act}
    {sys : Sys} (hrun : Lts.run Sys.step (.init maxUpload maxDownload) acts = some sys)
    (hfinds : Lts.Meets Sys.step (FindsPast past) (.init maxUpload maxDownload) acts) :
    LoopInv sys.loop ∧ Owned past sys.loop.state sys.pool :=
  (Owned.lockstep hpast).run (.init past maxUpload maxDownload) hrun hfinds

/-- **Mutual exclusion.** While every accepted `Enqueue` finds that the workers of its key have ended and
have no `Canceled` on its way, no two live workers share a key. -/
theorem one_worker_per_key {maxUpload maxDownload : Nat} {acts : List Act} {sys : Sys}
    (hrun : Lts.run Sys.step (.init maxUpload maxDownload) acts = some sys)
    (hstopped : Lts.Meets Sys.step (FindsPast Worker.Stopped) (.init maxUpload maxDownload) acts) :
    sys.pool.OnePerKey := by
  obtain ⟨_, howned⟩ := Owned.of_run (.of_harmless fun _ => rfl) hrun hstopped
  intro i j w w' hi hj hw hw' hk
  exact howned.single i j w w' hi hj (fun hs => hw hs.1) (fun hs => hw' hs.1) hk

/-- A handler's notifications are about the group of the event's key. -/
theorem handleWorkerEvent_record {s : SchedulerState} {event : WorkerEvent} {e : Effect}
    (h : e ∈ (handleWorkerEvent s event).2) : ∃ group, s.groups.lookup event.key = some group ∧
      ∃ dto, e.record = some dto ∧ dto.taskId = group.entry.inner.taskId := by
  have hstatus : ∀ key status transferred total,
      e ∈ groupStatus s key status transferred total → ∃ group, s.groups.lookup key = some group ∧
        ∃ dto, e.record = some dto ∧ dto.taskId = group.entry.inner.taskId :=
    fun key status transferred total he => by
      obtain ⟨group, hg, hr⟩ := mem_groupStatus he
      exact ⟨group, hg, _, hr, rfl⟩
  cases event with
  | progress | completed | failed => exact hstatus _ _ _ _ h
  | canceled key =>
    simp only [handleWorkerEvent] at h
    split at h
    · cases h
    · exact hstatus _ _ _ _ h

/-- Away from its key an event changes nothing. -/
theorem Footprint.event_frame {s s' : SchedulerState} {event : WorkerEvent} {k : UniqueId}
    (hf : Footprint s (.event event) s') (hk : k ≠ event.key) :
    s'.groups.lookup k = s.groups.lookup k ∧ s'.active.lookup k = s.active.lookup k ∧
      s'.offsets.lookup k = s.offsets.lookup k := by
  cases hf with
  | keep hcmd => exact absurd rfl (hcmd event)
  | progress key n total hg ha ho =>
    rw [hg, ha, ho, Table.lookup_insert_ite]
    exact ⟨rfl, rfl, if_neg hk⟩
  | finish _ _ hg ha ho =>
    rw [hg, ha, ho]
    simp only [Table.lookup_erase_ite]
    exact ⟨if_neg hk, if_neg hk, if_neg hk⟩
  | stop key _ hg ha ho =>
    rw [hg, ha, ho, Table.lookup_erase_ite]
    exact ⟨rfl, if_neg hk, rfl⟩

/-- **Events stay with their task.** While every accepted `Enqueue` finds its key quiet, the next
event of any worker leaves the groups of all tasks but the worker's own alone. -/
theorem events_stay_with_task {maxUpload maxDownload : Nat} {acts : List Act} {sys : Sys} {i : Nat}
    {w : Worker} {event : WorkerEvent} {rest : List WorkerEvent}
    (hrun : Lts.run Sys.step (.init maxUpload maxDownload) acts = some sys)
    (hclean : Lts.Meets Sys.step CleanEnqueue (.init maxUpload maxDownload) acts)
    (hw : sys.pool.workers[i]? = some w) (hout : w.outbox = event :: rest) :
    LeavesOthers w.inner.taskId sys.loop.state (handleWorkerEvent sys.loop.state event) := by
  obtain ⟨hloop, howned⟩ := Owned.of_run .of_settled hrun (hclean.mono fun _ _ => CleanEnqueue.finds)
  have hs : ¬ w.Settled := Worker.not_settled hout
  obtain ⟨_, hkey, _⟩ := (howned.worker i w hw).1.take hout
  intro k g hg hid
  have hne : k ≠ event.key := by
    rintro rfl
    rw [hkey] at hg
    exact hid (by rw [(howned.own i w g hw hs hg).2])
  obtain ⟨hg', ha', ho'⟩ := (Before.handleWorkerEvent sys.loop.state event).footprint.event_frame hne
  refine ⟨hg'.trans hg, ha', ho', fun e he dto hdto => ?_⟩
  obtain ⟨group, hgroup, dto', hdto', hid'⟩ := handleWorkerEvent_record he
  rw [hdto] at hdto'
  cases hdto'
  have hleader : group.leaderInner = w.inner := (howned.own i w group hw hs (hkey ▸ hgroup)).2
  rw [hid', hloop.inv.entry_inner _ group hgroup, hleader]
  exact Ne.symm hid

/-! ## The race of cancel and re-enqueue -/

/-- A task is cancelled while its worker runs, and its url enqueued again. -/
def cancelThenEnqueue : List Act :=
  [.cmd (sampleEnqueue 0), .cmd (.cancel ⟨0⟩), .cmd (sampleEnqueue 1)]

/-- The first worker then sees its cancelled token and says so. -/
def lateCanceled : List Act :=
  cancelThenEnqueue ++ [.work 0 (.prepared (.ok ⟨0, 8⟩)), .work 0 (.token true), .work 0 .sent]

/-- Two live workers for one url. -/
theorem cancelThenEnqueue_two_workers : ∃ sys,
    Lts.run Sys.step (.init 1 1) cancelThenEnqueue = some sys ∧ ¬ sys.pool.OnePerKey := by
  refine ⟨_, Lts.run_final (by decide), fun h => ?_⟩
  have h01 := h 0 1 ⟨(sampleTask 0).dedupeKey, sampleTask 0, ⟨0⟩, 0, .preparing, []⟩
    ⟨(sampleTask 1).dedupeKey, sampleTask 1, ⟨1⟩, 0, .preparing, []⟩ (by decide) (by decide)
    (by decide) (by decide) (by decide)
  cases h01

/-- The `Canceled` of the first task's worker removes the group of the second. -/
theorem lateCanceled_hits_new_task : ∃ sys w event rest,
    Lts.run Sys.step (.init 1 1) lateCanceled = some sys ∧ sys.pool.workers[0]? = some w ∧
      w.outbox = event :: rest ∧
      ¬ LeavesOthers w.inner.taskId sys.loop.state (handleWorkerEvent sys.loop.state event) := by
  refine ⟨_, ⟨(sampleTask 0).dedupeKey, sampleTask 0, ⟨0⟩, 0, .ended,
      [.canceled (sampleTask 0).dedupeKey]⟩, .canceled (sampleTask 0).dedupeKey, [],
    Lts.run_final (by decide), by decide, rfl, fun h => ?_⟩
  have hkept := (h (sampleTask 1).dedupeKey ⟨sampleTask 1, ⟨sampleTask 1, ⟨some ⟨1⟩⟩⟩⟩ (by decide)
    (by decide)).1
  revert hkept
  decide

/-- A worker sends its `Canceled`, the url is enqueued again, and the new task paused; then the `Canceled` is
handled, and the task resumed. -/
def lateCanceledPaused : List Act :=
  [.cmd (sampleEnqueue 0), .cmd (.cancel ⟨0⟩), .work 0 (.prepared (.ok ⟨0, 8⟩)), .work 0 (.token true), .work 0 .sent,
    .cmd (sampleEnqueue 1), .cmd (.pause ⟨1⟩), .deliver 0, .cmd (.resume ⟨1⟩)]

/-- The `Canceled` frees the slot of a worker that still runs: that all earlier workers have ended is not enough. -/
theorem lateCanceled_two_workers : ∃ sys, Lts.run Sys.step (.init 1 1) lateCanceledPaused = some sys ∧
    Lts.Meets Sys.step (FindsPast fun w => w.pc = .ended) (.init 1 1) lateCanceledPaused ∧
      ¬ sys.pool.OnePerKey := by
  refine ⟨_, Lts.run_final (by decide), by decide, fun h => ?_⟩
  have h12 := h 1 2 ⟨(sampleTask 1).dedupeKey, sampleTask 1, ⟨1⟩, 0, .preparing, []⟩
    ⟨(sampleTask 1).dedupeKey, sampleTask 1, ⟨2⟩, 0, .preparing, []⟩ (by decide) (by decide)
    (by decide) (by decide) (by decide)
  cases h12

/-- A cancelled task whose worker has settled before its url is enqueued again. -/
def settledThenEnqueue : List Act :=
  [.cmd (sampleEnqueue 0), .cmd (.cancel ⟨0⟩), .work 0 (.prepared (.ok ⟨0, 8⟩)),
    .work 0 (.token true), .work 0 .sent, .deliver 0, .cmd (sampleEnqueue 1),
    .work 1 (.prepared (.error (.err (.fromCode1 .httpError)))), .work 1 .sent]

theorem one_worker_per_key_settled : ∃ sys,
    Lts.run Sys.step (.init 1 1) settledThenEnqueue = some sys ∧ sys.pool.OnePerKey := by
  have hrun : Lts.run Sys.step (.init 1 1) settledThenEnqueue = some _ := Lts.run_final (by decide)
  exact ⟨_, hrun, one_worker_per_key hrun (by decide)⟩

/-- The second task's worker reports the failure of its own task. -/
theorem events_stay_with_task_settled : ∃ sys event,
    Lts.run Sys.step (.init 1 1) settledThenEnqueue = some sys ∧
      LeavesOthers ⟨1⟩ sys.loop.state (handleWorkerEvent sys.loop.state event) := by
  have hrun : Lts.run Sys.step (.init 1 1) settledThenEnqueue = some _ := Lts.run_final (by decide)
  exact ⟨_, .failed (sampleTask 1).dedupeKey (.fromCode1 .httpError), hrun,
    events_stay_with_task (i := 1) (w := ⟨(sampleTask 1).dedupeKey, sampleTask 1, ⟨1⟩, 0, .ended,
      [.failed (sampleTask 1).dedupeKey (.fromCode1 .httpError)]⟩) hrun (by decide) (by decide) rfl⟩

end SpottedCat
