import SpottedCat.Joint.System
import SpottedCat.Sched.Lifecycle

/-!
# Slots and their workers

`Wired` couples `active` with the pool: a key's slot holds the token of the worker last started for
the key, and that worker has not ended or its terminal event is still on its way. So a slot is never
lost (`active_has_worker`). The other direction fails: a worker may have lost its slot to a cancel
(`Limits.lean`) or to an event of an earlier worker (`Ownership.lean`).
-/

namespace SpottedCat

/-- What holds of one worker at any time. -/
structure Worker.Ok (w : Worker) : Prop where
  pc : w.pc.Ok w.key
  inner : w.inner.dedupeKey = w.key
  outbox_key : ∀ event ∈ w.outbox, event.key = w.key
  running : w.pc ≠ .ended → ∀ event ∈ w.outbox, event.terminal = false
  last : ∀ event ∈ w.outbox.dropLast, event.terminal = false

/-- It has not sent its terminal event, or that event is still in the channel. -/
def Worker.Due (w : Worker) : Prop := w.pc ≠ .ended ∨ ∃ event ∈ w.outbox, event.terminal = true

/-- Worker `i` is the most recently started one for its key. -/
def Pool.Latest (pool : Pool) (i : Nat) (w : Worker) : Prop :=
  pool.workers[i]? = some w ∧ ∀ j (w' : Worker), pool.workers[j]? = some w' → w'.key = w.key → j ≤ i

structure Wired (s : SchedulerState) (pool : Pool) : Prop where
  token : s.nextToken = pool.workers.length
  worker : ∀ i (w : Worker), pool.workers[i]? = some w → w.Ok ∧ w.cancel = ⟨i⟩
  slot : ∀ k a, s.active.lookup k = some a →
    ∃ w : Worker, pool.Latest a.cancel.id w ∧ w.key = k ∧ w.Due

/-! ## One worker -/

theorem Worker.Ok.started {inner : InnerTask} {key : UniqueId} {cancel : CancellationToken}
    {offset : Nat} (h : inner.dedupeKey = key) :
    (⟨key, inner, cancel, offset, .preparing, []⟩ : Worker).Ok where
  pc := trivial
  inner := h
  outbox_key := fun _ he => absurd he List.not_mem_nil
  running := fun _ _ he => absurd he List.not_mem_nil
  last := fun _ he => absurd he List.not_mem_nil

/-- **A delivery** takes an event under the worker's key; a terminal one was its last. -/
theorem Worker.Ok.take {w : Worker} {event : WorkerEvent} {rest : List WorkerEvent} (h : w.Ok)
    (ho : w.outbox = event :: rest) : Worker.Ok { w with outbox := rest } ∧ event.key = w.key ∧
      (event.terminal = true → w.pc = .ended ∧ rest = []) := by
  have hrest : ∀ e ∈ rest, e ∈ w.outbox := fun e he => ho ▸ List.mem_cons_of_mem _ he
  refine ⟨⟨h.pc, h.inner, fun e he => h.outbox_key e (hrest e he),
    fun hr e he => h.running hr e (hrest e he), fun e he => h.last e ?_⟩,
    h.outbox_key event (ho ▸ List.mem_cons_self), fun ht => ⟨?_, ?_⟩⟩
  · rw [ho]
    cases rest with
    | nil => exact absurd he List.not_mem_nil
    | cons e' rest => exact List.mem_cons_of_mem _ he
  · by_contra hr
    have := h.running hr event (ho ▸ List.mem_cons_self)
    rw [ht] at this
    cases this
  · cases rest with
    | nil => rfl
    | cons e' rest =>
      have := h.last event (by rw [ho]; exact List.mem_cons_self)
      rw [ht] at this
      cases this

/-- **A worker step** keeps the event discipline, and leaves the worker due. -/
theorem Worker.Ok.work {w : Worker} {pc : RunPc} {out : Option WorkerEvent} {input : RunIn} (h : w.Ok)
    (hs : runStep w.key w.inner w.pc input = some (pc, out)) :
    Worker.Ok { w with pc := pc, outbox := w.outbox ++ out.toList } ∧ w.pc ≠ .ended ∧
      Worker.Due { w with pc := pc, outbox := w.outbox ++ out.toList } := by
  obtain ⟨hrun, hpc, hout⟩ := runStep_cases h.pc hs
  have hopen := h.running hrun
  obtain ⟨rfl, hne⟩ | ⟨event, rfl, hkey, ht, hne⟩ | ⟨event, rfl, hkey, ht, rfl⟩ := hout
  · simp only [Option.toList_none, List.append_nil]
    exact ⟨⟨hpc, h.inner, h.outbox_key, fun _ => hopen, h.last⟩, hrun, .inl hne⟩
  · simp only [Option.toList_some]
    refine ⟨⟨hpc, h.inner, fun e he => ?_, fun _ e he => ?_, fun e he => ?_⟩, hrun, .inl hne⟩
    · rcases List.mem_append.1 he with he | he
      · exact h.outbox_key e he
      · rw [List.mem_singleton.1 he]; exact hkey
    · rcases List.mem_append.1 he with he | he
      · exact hopen e he
      · rw [List.mem_singleton.1 he]; exact ht
    · rw [List.dropLast_concat] at he
      exact hopen e he
  · simp only [Option.toList_some]
    refine ⟨⟨hpc, h.inner, fun e he => ?_, fun hr => absurd rfl hr, fun e he => ?_⟩, hrun,
      .inr ⟨event, by simp, ht⟩⟩
    · rcases List.mem_append.1 he with he | he
      · exact h.outbox_key e he
      · rw [List.mem_singleton.1 he]; exact hkey
    · rw [List.dropLast_concat] at he
      exact hopen e he

/-- A settled worker stays settled: it has no step and no event. -/
theorem Worker.Due.not_settled {w : Worker} (h : w.Due) : ¬ w.Settled := by
  rintro ⟨hpc, hout⟩
  rcases h with h | ⟨event, he, _⟩
  · exact h hpc
  · rw [hout] at he; cases he

/-! ## Invariance -/

/-- Replacing a worker by a later state of itself keeps it the latest of its key. -/
theorem Pool.Latest.set {pool : Pool} {i j : Nat} {w w0 : Worker} (h : pool.Latest j w) (w0' : Worker)
    (h0 : pool.workers[i]? = some w0) (hkey : w0'.key = w0.key) (sent : List (TaskId × WorkerEvent)) :
    Pool.Latest { pool with workers := pool.workers.set i w0', sent := sent } j
      (if j = i then w0' else w) := by
  have hlen : i < pool.workers.length := (List.getElem?_eq_some_iff.1 h0).1
  have hwkey : (if j = i then w0' else w).key = w.key := by
    split
    · rename_i he
      subst he
      rw [h.1] at h0
      cases h0
      exact hkey
    · rfl
  refine ⟨?_, fun j' w' hj' hk' => ?_⟩
  · rw [Places.lookup_set]
    split
    · rename_i he; exact .inl ⟨he, hlen, rfl⟩
    · rename_i he; exact .inr ⟨he, h.1⟩
  · rw [hwkey] at hk'
    rcases Places.lookup_set.1 hj' with ⟨rfl, _, rfl⟩ | ⟨_, hj'⟩
    · exact h.2 _ w0 h0 (hkey ▸ hk')
    · exact h.2 j' w' hj' hk'

theorem Wired.start {s : SchedulerState} {pool : Pool} {key : UniqueId} {group : GroupState}
    (hl : Loose s) (h : Wired s pool) (hg : s.groups.lookup key = some group) :
    Wired (s.activate key)
      (pool.spawn ⟨key, group.leaderInner, ⟨s.nextToken⟩, s.current key, .preparing, []⟩) where
  token := by simp [SchedulerState.activate, Pool.spawn, h.token]
  worker := fun i w hw => by
    rcases Places.lookup_push.1 hw with hw | ⟨rfl, rfl⟩
    · exact h.worker i w hw
    · exact ⟨.started (hl.leader_key key group hg), by rw [h.token]⟩
  slot := fun k a ha => by
    simp only [SchedulerState.activate, Table.lookup_insert_ite] at ha
    split at ha
    · rename_i hk
      cases ha
      rw [hk]
      refine ⟨_, ⟨Places.lookup_push.2 (.inr ⟨h.token, rfl⟩), fun j w' hw' _ => ?_⟩, rfl, .inl (by simp)⟩
      have hlen := (List.getElem?_eq_some_iff.1 hw').1
      simp only [Pool.spawn, List.length_append, List.length_singleton] at hlen
      simp only [h.token]
      omega
    · rename_i hk
      obtain ⟨w, hlatest, hkey, hdue⟩ := h.slot k a ha
      refine ⟨w, ⟨Places.lookup_push.2 (.inl hlatest.1), fun j w' hw' hk' => ?_⟩, hkey, hdue⟩
      rcases Places.lookup_push.1 hw' with hw' | ⟨_, rfl⟩
      · exact hlatest.2 j w' hw' hk'
      · exact absurd (hkey ▸ hk').symm hk

/-- Slots may go, workers stay. -/
theorem Wired.shrink {s s' : SchedulerState} {pool pool' : Pool} (h : Wired s pool)
    (ht : s'.nextToken = s.nextToken) (ha : ∀ k a, s'.active.lookup k = some a → s.active.lookup k = some a)
    (hw : pool'.workers = pool.workers) : Wired s' pool' where
  token := by rw [ht, hw, h.token]
  worker := fun i w hi => h.worker i w (hw ▸ hi)
  slot := fun k a hk => by
    obtain ⟨w, ⟨hw1, hw2⟩, hrest⟩ := h.slot k a (ha k a hk)
    exact ⟨w, ⟨hw ▸ hw1, fun j w' hj => hw2 j w' (hw ▸ hj)⟩, hrest⟩

theorem lookup_of_erase {active : Table UniqueId ActiveState} {key k : UniqueId} {a : ActiveState}
    (h : (active.erase key).lookup k = some a) : k ≠ key ∧ active.lookup k = some a := by
  rw [Table.lookup_erase_ite] at h
  split at h
  · cases h
  · rename_i hk; exact ⟨hk, h⟩

theorem Wired.deliver {s s' : SchedulerState} {pool pool' : Pool} {i : Nat} {event : WorkerEvent}
    (h : Wired s pool) (htake : pool.take i = some (event, pool'))
    (hf : Footprint s (.event event) s') (ht : s'.nextToken = s.nextToken) : Wired s' pool' := by
  obtain ⟨w, rest, hw, hout, rfl⟩ := Pool.take_eq_some.1 htake
  obtain ⟨hok, htoken⟩ := h.worker i w hw
  obtain ⟨hok', hekey, hterm⟩ := hok.take hout
  -- a slot that is left belongs to a worker that is still due after the delivery
  have hactive : ∀ k a, s'.active.lookup k = some a → s.active.lookup k = some a ∧
      (event.terminal = true → k ≠ event.key) := fun k a hk => by
    cases hf with
    | keep hcmd => exact absurd rfl (hcmd event)
    | progress key nextOffset totalSize _ hact => exact ⟨hact ▸ hk, fun hf => by cases hf⟩
    | finish _ _ _ hact => rw [hact] at hk; exact ⟨(lookup_of_erase hk).2, fun _ => (lookup_of_erase hk).1⟩
    | stop key _ _ hact => rw [hact] at hk; exact ⟨(lookup_of_erase hk).2, fun _ => (lookup_of_erase hk).1⟩
  refine ⟨by rw [ht, h.token]; simp, fun j w' hj => ?_, fun k a hk => ?_⟩
  · rcases Places.lookup_set.1 hj with ⟨rfl, _, rfl⟩ | ⟨_, hj⟩
    · exact ⟨hok', htoken⟩
    · exact h.worker j w' hj
  · obtain ⟨ha, hne⟩ := hactive k a hk
    obtain ⟨w0, hlatest, hkey, hdue⟩ := h.slot k a ha
    refine ⟨_, hlatest.set { w with outbox := rest } hw rfl _, ?_, ?_⟩
    · split
      · rename_i he
        rw [← he, hlatest.1] at hw
        cases hw
        exact hkey
      · exact hkey
    · split
      · rename_i he
        rw [← he, hlatest.1] at hw
        cases hw
        rcases hdue with hrun | ⟨e, he', ht'⟩
        · exact .inl hrun
        · rw [hout] at he'
          rcases List.mem_cons.1 he' with rfl | he'
          · exact absurd (hekey.trans hkey).symm (hne ht')
          · exact .inr ⟨e, he', ht'⟩
      · exact hdue

theorem Wired.work {s : SchedulerState} {pool pool' : Pool} {i : Nat} {input : RunIn}
    (h : Wired s pool) (hwork : pool.work i input = some pool') : Wired s pool' := by
  obtain ⟨w, pc, out, hw, _, hs, rfl⟩ := Pool.work_eq_some.1 hwork
  obtain ⟨hok, htoken⟩ := h.worker i w hw
  obtain ⟨hok', _, hdue'⟩ := hok.work hs
  refine ⟨by simp [h.token], fun j w' hj => ?_, fun k a hk => ?_⟩
  · rcases Places.lookup_set.1 hj with ⟨rfl, _, rfl⟩ | ⟨_, hj⟩
    · exact ⟨hok', htoken⟩
    · exact h.worker j w' hj
  · obtain ⟨w0, hlatest, hkey, hdue⟩ := h.slot k a hk
    refine ⟨_, hlatest.set { w with pc := pc, outbox := w.outbox ++ out.toList } hw rfl _, ?_, ?_⟩
    · split
      · rename_i he
        rw [← he, hlatest.1] at hw
        cases hw
        exact hkey
      · exact hkey
    · split
      · exact hdue'
      · exact hdue

theorem Wired.lockstep : Lockstep (fun _ _ => True) fun _ => Wired where
  frame h _ hsame hw _ := h.shrink hsame.nextToken (fun _ _ hk => hsame.active ▸ hk) hw
  start hl h _ hg _ := h.start hl hg
  accept h _ _ _ _ ha _ hlim := h.shrink hlim.nextToken (fun _ _ hk => ha ▸ hk) rfl
  cancel h _ _ _ ha _ hlim := h.shrink hlim.nextToken (fun _ _ hk => (lookup_of_erase (ha ▸ hk)).2) rfl
  close h _ _ ha _ hlim := h.shrink hlim.nextToken (fun _ _ hk => by rw [ha] at hk; cases hk) rfl
  deliver h htake hf hlim := h.deliver htake hf hlim.nextToken
  work h hw := h.work hw

theorem Wired.init (maxUpload maxDownload : Nat) :
    Wired (.new maxUpload maxDownload []) ⟨[], [], ∅⟩ where
  token := rfl
  worker := fun i w hw => by simp at hw
  slot := fun k a hk => by simp [SchedulerState.new] at hk

/-! ## Runs -/

/-- In a state where the queue is in order, a paused key whose slot is free can be resumed. -/
theorem Inv.resumeGroup_ok {s : SchedulerState} {key : UniqueId} (h : Inv s) (hp : key ∈ s.pausedSet)
    (ha : key ∉ s.active) : (SpottedCat.resumeGroup s key).1 = .ok () := by
  have hg : key ∈ s.groups := h.paused_group key hp
  unfold SpottedCat.resumeGroup
  rw [if_neg (not_not.2 hp), if_neg ha, if_neg (not_not.2 hg)]

/-- **No slot leaks.** Every occupied slot belongs to the worker last started for its key, and that
worker has not ended or its terminal event is still to be handled. So when all workers have ended and
the channel is empty no slot is occupied, and a paused task whose last worker is done can be
resumed. -/
theorem active_has_worker (sys : Sys) (h : sys.Reachable) :
    (∀ k a, sys.loop.state.active.lookup k = some a →
      ∃ i w, sys.pool.Latest i w ∧ w.key = k ∧ w.cancel = a.cancel ∧ w.Due) ∧
    ((∀ w ∈ sys.pool.workers, w.Settled) → sys.loop.state.active = ∅) ∧
    ∀ id key, sys.loop.state.taskIdToDedupe.lookup id = some key → key ∈ sys.loop.state.pausedSet →
      (∀ i w, sys.pool.Latest i w → w.key = key → w.Settled) →
        sys.loop.answer (.resume id) = some (.ok ()) := by
  obtain ⟨maxUpload, maxDownload, acts, hrun⟩ := h
  have hmeets : Lts.Meets Sys.step (fun _ _ => True) (.init maxUpload maxDownload) acts :=
    Lts.Meets.of_forall fun _ _ _ => trivial
  obtain ⟨hloop, hwired⟩ := Wired.lockstep.run (.init maxUpload maxDownload) hrun hmeets
  refine ⟨fun k a ha => ?_, fun hsettled => ?_, fun id key hid hp hsettled => ?_⟩
  · obtain ⟨w, hlatest, hkey, hdue⟩ := hwired.slot k a ha
    exact ⟨_, w, hlatest, hkey, (hwired.worker _ w hlatest.1).2, hdue⟩
  · refine Finmap.ext_lookup fun k => ?_
    rw [Finmap.lookup_empty, Option.eq_none_iff_forall_ne_some]
    intro a ha
    obtain ⟨w, hlatest, _, hdue⟩ := hwired.slot k a ha
    exact hdue.not_settled (hsettled w (List.mem_of_getElem? hlatest.1))
  · have ha : key ∉ sys.loop.state.active := by
      intro hm
      obtain ⟨a, ha⟩ := Finmap.mem_iff.1 hm
      obtain ⟨w, hlatest, hkey, hdue⟩ := hwired.slot key a ha
      exact hdue.not_settled (hsettled _ w hlatest hkey)
    rw [Loop.answer_resume hid, hloop.inv.resumeGroup_ok hp ha]

/-- One task, paused before its worker has looked at its token, down to the handled `Canceled`. -/
def pauseWhileStarting : List Act :=
  [.cmd (sampleEnqueue 0), .cmd (.pause ⟨0⟩), .work 0 (.prepared (.ok ⟨0, 8⟩)), .work 0 (.token true),
    .work 0 .sent, .deliver 0]

/-- Paused, the task has its slot until its worker is done; then it can be resumed. -/
theorem active_has_worker_paused : ∃ sys sys',
    Lts.run Sys.step (.init 1 1) (pauseWhileStarting.take 2) = some sys ∧
      (∃ i w, sys.pool.Latest i w ∧ w.key = (sampleTask 0).dedupeKey ∧ w.cancel = ⟨0⟩ ∧ w.Due) ∧
      Lts.run Sys.step sys (pauseWhileStarting.drop 2) = some sys' ∧ sys'.loop.state.active = ∅ ∧
      sys'.loop.answer (.resume ⟨0⟩) = some (.ok ()) := by
  have hrun : Lts.run Sys.step (.init 1 1) (pauseWhileStarting.take 2) = some _ := Lts.run_final (by decide)
  have hrest : Lts.run Sys.step (Lts.final Sys.step (.init 1 1) (pauseWhileStarting.take 2))
      (pauseWhileStarting.drop 2) = some _ := Lts.run_final (by decide)
  have hslot := (active_has_worker _ ⟨1, 1, _, hrun⟩).1 (sampleTask 0).dedupeKey ⟨⟨0⟩⟩ (by decide)
  obtain ⟨_, hempty, hresume⟩ := active_has_worker _ ⟨1, 1, _, Lts.run_append.2 ⟨_, hrun, hrest⟩⟩
  have hsettled : ∀ w ∈ (Lts.final Sys.step (Lts.final Sys.step (.init 1 1) (pauseWhileStarting.take 2))
      (pauseWhileStarting.drop 2)).pool.workers, w.Settled := by decide
  exact ⟨_, _, hrun, hslot, hrest, hempty hsettled, hresume ⟨0⟩ (sampleTask 0).dedupeKey (by decide) (by decide)
    fun _ w hlatest _ => hsettled w (List.mem_of_getElem? hlatest.1)⟩

end SpottedCat
