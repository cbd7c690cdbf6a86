import SpottedCat.Sched.Footprint
import SpottedCat.Sched.Lifecycle
import SpottedCat.Sched.Refill

/-!
# The queue between two iterations

At every iteration boundary the scheduler is at rest (`AtRest`): each queued key waits for a slot of
its own direction, of which none is free. Two results follow.

* `refused_changes_nothing`: such a state is a fixed point of `try_start_next`, so a command that is
  refused leaves it as it was, although most refusals run that function.
* `queue_is_fair`: no slot idles while a key of its direction waits, and within a direction no key is
  started while one ahead of it is still queued.
-/

namespace SpottedCat

open Admission

/-- **The state between two iterations.** -/
structure AtRest (s : SchedulerState) : Prop extends Inv s where
  queued_blocked : ∀ k ∈ s.queued, Blocked s k

theorem AtRest.of_thenStart {x : SchedulerState × List Effect} (h : Loose x.1) :
    AtRest (thenStart x).1 where
  toInv := .of_thenStart h
  queued_blocked := tryStartNext_blocked x.1

/-- An iteration that skips `try_start_next` leaves the queue as it was, or empties it. -/
theorem AtRest.react {s : SchedulerState} {input : LoopInput} (h : AtRest s) (hf : Fresh s input) :
    AtRest (react s input).1 := by
  have hinv : Inv (SpottedCat.react s input).1 :=
    h.toInv.react input fun inner callbacks hi => hf inner callbacks hi
  refine ⟨hinv, ?_⟩
  cases input with
  | listen op => exact h.queued_blocked
  | event event => exact tryStartNext_blocked _
  | cmd cmd =>
    cases cmd with
    | enqueue inner callbacks =>
      simp only [SpottedCat.react, handleCmd]
      split
      · exact h.queued_blocked
      · exact tryStartNext_blocked _
    | pause taskId =>
      simp only [SpottedCat.react, handleCmd]
      split <;> exact tryStartNext_blocked _
    | resume taskId =>
      simp only [SpottedCat.react, handleCmd]
      split <;> exact tryStartNext_blocked _
    | cancel taskId =>
      simp only [SpottedCat.react, handleCmd]
      split <;> exact tryStartNext_blocked _
    | snapshot => exact h.queued_blocked
    | close activeOrder groupOrder => exact fun k hk => absurd hk List.not_mem_nil

theorem Loop.Reachable.atRest {loop : Loop} (h : loop.Reachable) : AtRest loop.state := by
  obtain ⟨maxUpload, maxDownload, inputs, hrun⟩ := h
  refine (Lts.run_invariant (I := fun l => LoopInv l ∧ AtRest l.state) ?_ ⟨.init _ _, ?_⟩ hrun).2
  · rintro l input l' ⟨hl, hrest⟩ hs
    refine ⟨hl.step hs, ?_⟩
    obtain ⟨_, ha, rfl⟩ := Loop.step_eq_some.1 hs
    exact hrest.react fun inner callbacks hi => hl.fresh ha hi
  · exact ⟨(LoopInv.init _ _).inv, fun k hk => absurd hk List.not_mem_nil⟩

/-! ## Commands that are refused -/

/-- The commands the loop refuses: a duplicate of a live key, an unknown task id, and a resume that it
answers `InvalidTaskState`. -/
def TransferCmd.Refused (s : SchedulerState) : TransferCmd → Prop
  | .enqueue inner _ => inner.dedupeKey ∈ s.groups
  | .pause taskId | .cancel taskId => s.taskIdToDedupe.lookup taskId = none
  | .resume taskId => s.taskIdToDedupe.lookup taskId = none ∨
      ∃ error, answerTo (.resume taskId) (handleCmd s (.resume taskId)).2 = some (.error error) ∧
        error.code = InnerErrorCode.invalidTaskState.toI32
  | _ => False

/-- At rest an iteration that only answers leaves the whole state in place. -/
theorem AtRest.thenStart_eq {s : SchedulerState} {es : List Effect} (h : AtRest s) :
    thenStart (s, es) = (s, es) := by
  obtain ⟨hstate, heffects⟩ := tryStartNext_fixed h.queued_blocked h.queuedSet_eq
  simp only [thenStart, hstate, heffects, List.append_nil]

/-- The branch behind the two checks of `resume_group` is dead: a paused key has its group. -/
theorem Loose.resumeGroup_ne {s : SchedulerState} (h : Loose s) (key : UniqueId) :
    (resumeGroup s key).1 ≠ .error groupMissingError := by
  unfold SpottedCat.resumeGroup
  by_cases hp : key ∈ s.pausedSet
  · have hg : key ∈ s.groups := h.paused_group key hp
    by_cases ha : key ∈ s.active <;>
      simp [hp, ha, hg, stillStoppingError, groupMissingError, MeowError.fromCode]
  · simp [hp, notPausedError, groupMissingError, MeowError.fromCode]

/-- **A resume that fails has changed nothing.** -/
theorem Loose.resumeGroup_error {s : SchedulerState} {key : UniqueId} {error : MeowError} (h : Loose s)
    (he : (resumeGroup s key).1 = .error error) :
    (resumeGroup s key).2.1 = s ∧ (resumeGroup s key).2.2 = [] := by
  unfold SpottedCat.resumeGroup at he ⊢
  by_cases hp : key ∈ s.pausedSet
  · have hg : key ∈ s.groups := h.paused_group key hp
    by_cases ha : key ∈ s.active
    · simp [hp, ha]
    · simp [hp, ha, hg] at he
  · simp [hp]

/-- **Rejected commands change nothing.** At every iteration boundary a duplicate `Enqueue`, a control
command with an unknown id and a resume answered `InvalidTaskState` leave the whole state as it was and
start no worker; and no resume runs into the missing group. -/
theorem refused_changes_nothing (loop : Loop) (h : loop.Reachable) :
    (∀ cmd : TransferCmd, cmd.Refused loop.state →
      (react loop.state (.cmd cmd)).1 = loop.state ∧ NoSpawn (react loop.state (.cmd cmd)).2) ∧
    ∀ key, (resumeGroup loop.state key).1 ≠ .error groupMissingError := by
  have hrest : AtRest loop.state := h.atRest
  generalize loop.state = s at hrest ⊢
  have hanswer : ∀ es, NoSpawn es → (thenStart (s, es)).1 = s ∧ NoSpawn (thenStart (s, es)).2 := by
    intro es hes
    rw [hrest.thenStart_eq]
    exact ⟨rfl, hes⟩
  refine ⟨fun cmd hcmd => ?_, hrest.resumeGroup_ne⟩
  cases cmd with
  | enqueue inner callbacks =>
    obtain ⟨existing, hg⟩ := Finmap.mem_iff.1 hcmd
    simp only [react, handleCmd, hg, true_and]
    exact NoSpawn.invokeProgressCb.append .emitGlobalProgress
  | pause taskId =>
    have hnone : s.taskIdToDedupe.lookup taskId = none := hcmd
    simp only [react, handleCmd, hnone]
    exact hanswer _ .respond
  | cancel taskId =>
    have hnone : s.taskIdToDedupe.lookup taskId = none := hcmd
    simp only [react, handleCmd, hnone]
    exact hanswer _ .respond
  | resume taskId =>
    cases hk : s.taskIdToDedupe.lookup taskId with
    | none =>
      simp only [react, handleCmd, hk]
      exact hanswer _ .respond
    | some key =>
      rcases hcmd with hnone | ⟨error, hret, _⟩
      · rw [hk] at hnone
        cases hnone
      have hans : (resumeGroup s key).1 = .error error :=
        Option.some.inj ((@Loop.answer_resume ⟨s, [], [], false⟩ taskId key hk).symm.trans hret)
      obtain ⟨hstate, heffects⟩ := hrest.resumeGroup_error hans
      simp only [react, handleCmd, hk, hstate, heffects, List.nil_append]
      exact hanswer _ .respond
  | snapshot | close => exact hcmd.elim

/-- Two downloads where one may run: the second waits in the queue. -/
def runAndQueue : List LoopInput :=
  [.cmd (sampleEnqueue 0), .cmd (.enqueue { sampleTask 1 with url := "http://host/dog.bin" } ⟨some ⟨1⟩⟩)]

/-- The url of the first is enqueued again, the queued one is resumed, and an unknown one cancelled; the last
two run `try_start_next` over the waiting queue. -/
theorem refused_changes_nothing_duplicate : ∃ loop,
    Lts.run Loop.step (.init 1 1) runAndQueue = some loop ∧ loop.state.queued.length = 1 ∧
      ∀ cmd ∈ [sampleEnqueue 2, .resume ⟨1⟩, .cancel ⟨2⟩], (react loop.state (.cmd cmd)).1 = loop.state := by
  have hrun : Lts.run Loop.step (.init 1 1) runAndQueue = some _ := Lts.run_final (by decide)
  refine ⟨_, hrun, by decide, fun cmd hcmd => ?_⟩
  refine ((refused_changes_nothing _ ⟨1, 1, _, hrun⟩).1 cmd ?_).1
  simp only [List.mem_cons, List.not_mem_nil, or_false] at hcmd
  rcases hcmd with rfl | rfl | rfl
  · exact (by decide : (sampleTask 2).dedupeKey ∈ (Lts.final Loop.step (.init 1 1) runAndQueue).state.groups)
  · exact .inr ⟨_, rfl, by decide⟩
  · exact (by decide :
      (Lts.final Loop.step (.init 1 1) runAndQueue).state.taskIdToDedupe.lookup ⟨2⟩ = none)

/-! ## Nobody overtakes -/

/-- `k2` is not ahead of `k1` in the queue. -/
def Behind (k1 k2 : UniqueId) (queue : List UniqueId) : Prop :=
  k1 ∈ queue → k2 ∈ queue → [k1, k2].Sublist queue

/-- Taking keys out and pushing one to the back keep the order of two keys, as long as the first one
stays in the queue. -/
theorem Edits.behind {s : SchedulerState} {x : SchedulerState × List Effect} {k1 k2 : UniqueId}
    (h : Edits s x) (hk1 : k1 ∈ s.queued) (hb : Behind k1 k2 s.queued) : Behind k1 k2 x.1.queued := by
  intro h1 h2
  rcases h.queue with ⟨p, hq⟩ | ⟨key, hq⟩
  · rw [hq] at h1 h2 ⊢
    have hahead := (hb hk1 (List.mem_filter.1 h2).1).filter p
    simpa only [List.filter_cons, (List.mem_filter.1 h1).2, (List.mem_filter.1 h2).2, if_true,
      List.filter_nil] using hahead
  · rw [hq] at h2 ⊢
    rcases List.mem_append.1 h2 with h2 | h2
    · exact (hb hk1 h2).trans (List.sublist_append_left _ _)
    · rw [List.mem_singleton.1 h2]
      exact (List.singleton_sublist.2 hk1).append (List.Sublist.refl [key])

section
variable {s : SchedulerState} {input : LoopInput} {x : SchedulerState × List Effect} {k1 k2 : UniqueId}

theorem SchedulerState.runnable_sublist : s.runnable.Sublist s.queued := List.filter_sublist

theorem Behind.runnable (hb : Behind k1 k2 s.queued) (h1 : k1 ∈ s.runnable) (h2 : k2 ∈ s.runnable) :
    [k1, k2].Sublist s.runnable := by
  have hahead := (hb (s.runnable_sublist.subset h1) (s.runnable_sublist.subset h2)).filter
    fun k => decide (k ∉ s.active ∧ k ∈ s.groups)
  unfold SchedulerState.runnable at h1 h2 ⊢
  simpa only [List.filter_cons, (List.mem_filter.1 h1).2, (List.mem_filter.1 h2).2, if_true,
    List.filter_nil] using hahead

/-- Refilling keeps the order of two keys that wait for the same slots. -/
theorem Behind.tryStartNext (h : Loose s) (hd : k2.1 = k1.1) (hb : Behind k1 k2 s.queued) :
    Behind k1 k2 (tryStartNext s).state.queued := by
  intro h1 h2
  have hrefill := (tryStartNext_refills h.queued_nodup h.queuedSet_eq).queued
  rw [List.nil_append] at hrefill
  rw [hrefill] at h1 h2 ⊢
  exact kept_ahead (hb.runnable (kept_sublist.subset h1) (kept_sublist.subset h2)) hd
    (h.queued_nodup.filter _) h1

/-- A direction with a key in the queue has at most one free slot when `try_start_next` runs. -/
theorem Footprint.free_le (h : Footprint s input x.1) (hgroups : x.1.groups ≠ ∅)
    (hlim : ∀ d, x.1.maxConcurrency d = s.maxConcurrency d) {d : Direction}
    (hfull : s.maxConcurrency d ≤ s.activeCount d) : x.1.free d ≤ 1 := by
  have hcount : s.activeCount d ≤ x.1.activeCount d + 1 := by
    rcases h.slots with hempty | hsame | ⟨key, herase, _⟩
    · exact absurd hempty hgroups
    · rw [SchedulerState.activeCount_congr hsame]
      exact Nat.le_succ _
    · rw [SchedulerState.activeCount, SchedulerState.activeCount, herase]
      exact Table.card_keys_le_erase _ _ _
  have hmax := hlim d
  unfold SchedulerState.free
  omega

/-- **A key keeps its turn.** The one slot that an input frees goes to a key ahead, which is still there
to take it. -/
theorem Before.not_started (hb : Before s input x) (he : Edits s x) (h : AtRest s) (hx : Loose x.1)
    (hk1 : k1 ∈ s.queued) (hd : k2.1 = k1.1) (hbehind : Behind k1 k2 s.queued) :
    k2 ∉ started Prod.fst x.1.free x.1.runnable := by
  intro hstart
  obtain ⟨hinactive, hgroup1, hfull⟩ := h.queued_blocked k1 hk1
  have hrun2 : k2 ∈ x.1.runnable := started_sublist.subset hstart
  have hgroup2 : k2 ∈ x.1.groups := by
    have hrun := (List.mem_filter.1 hrun2).2
    simp only [decide_eq_true_eq] at hrun
    exact hrun.2
  have hnonempty : x.1.groups ≠ ∅ := fun hempty => Finmap.notMem_empty (hempty ▸ hgroup2)
  have hpos := free_pos_of_started hstart
  have hle := hb.footprint.free_le hnonempty hb.limits hfull
  rw [hd] at hpos
  -- without a freed slot nothing of this direction is started
  have hfreed : x.1.active ≠ s.active := by
    intro hsame
    have hmax := hb.limits k1.1
    simp only [SchedulerState.free, SchedulerState.activeCount, hsame] at hpos hfull
    omega
  have hrun1 : k1 ∈ x.1.runnable := by
    rcases hb.footprint.slots with hempty | hsame | ⟨key, herase, hlive⟩
    · exact absurd hempty hnonempty
    · exact absurd hsame hfreed
    · have hkey : k1 ≠ key := by
        rintro rfl
        exact hfreed (herase.trans (Table.erase_of_notMem hinactive))
      have hlive1 : k1 ∈ x.1.groups := hlive k1 hgroup1 hkey
      have hstill : k1 ∈ x.1.queued := by
        rcases he.stays k1 hk1 with hq | hg | ha
        · exact hq
        · exact absurd hlive1 hg
        · exact absurd ha hfreed
      have hinactive1 : k1 ∉ x.1.active := hx.queued_active k1 hstill
      exact List.mem_filter.2 ⟨hstill, by simp [hinactive1, hlive1]⟩
  have hahead : [k1, k2].Sublist x.1.runnable := (he.behind hk1 hbehind).runnable hrun1 hrun2
  have hnodup : x.1.runnable.Nodup := hx.queued_nodup.filter _
  -- so both are started, with one slot between them
  have hstart1 : k1 ∈ started Prod.fst x.1.free x.1.runnable := by
    have hsplit : k1 ∈ started Prod.fst x.1.free x.1.runnable ∨
        k1 ∈ kept Prod.fst x.1.free x.1.runnable := started_or_kept hrun1
    rcases hsplit with hs | hk
    · exact hs
    · exact absurd ((kept_ahead hahead hd hnodup hk).subset (by simp)) (not_kept_of_started hnodup hstart)
  have htwo : 2 ≤ used Prod.fst x.1.free x.1.runnable k1.1 := by
    have hsub := started_ahead hahead hnodup hstart1 hstart
    have hcount := hsub.countP_le (p := fun k => decide (k.1 = k1.1))
    simpa [used, hd] using hcount
  have hused : used Prod.fst x.1.free x.1.runnable k1.1 ≤ x.1.free k1.1 := used_le
  omega

/-- One iteration with `k1` in the queue starts nothing that waits behind it. -/
theorem AtRest.keeps_turn (h : AtRest s) (hf : Fresh s input) (hk1 : k1 ∈ s.queued) (hd : k2.1 = k1.1)
    (hbehind : Behind k1 k2 s.queued) :
    k2 ∉ spawnedKeys (SpottedCat.react s input).2 ∧ Behind k1 k2 (SpottedCat.react s input).1.queued := by
  obtain ⟨x, hb, he, hreact⟩ := react_edits s input
  have hx : Loose x.1 := hb.loose h.toInv hf
  have hsilent : k2 ∉ spawnedKeys x.2 := by
    intro hk
    obtain ⟨inner, cancel, offset, hm⟩ := mem_spawnedKeys.1 hk
    exact hb.noSpawn _ hm _ _ _ _ rfl
  rcases hreact with hreact | hreact
  · rw [hreact]
    exact ⟨hsilent, he.behind hk1 hbehind⟩
  · rw [hreact]
    refine ⟨?_, (he.behind hk1 hbehind).tryStartNext hx hd⟩
    rw [thenStart, spawnedKeys_append, List.mem_append,
      (tryStartNext_refills hx.queued_nodup hx.queuedSet_eq).spawned]
    rintro (hk | hk)
    · exact hsilent hk
    · exact hb.not_started he h hx hk1 hd hbehind hk

end

/-- **Work conservation and no overtaking.** At every iteration boundary a direction with a key in the
queue has all its slots in use; and of two queued keys of one direction, the one behind is not started
by any step before which the one ahead is still queued. -/
theorem queue_is_fair (loop : Loop) (h : loop.Reachable) :
    (∀ k ∈ loop.state.queued, loop.state.maxConcurrency k.1 ≤ loop.state.activeCount k.1) ∧
    ∀ k1 k2, [k1, k2].Sublist loop.state.queued → k2.1 = k1.1 →
      ∀ inputs loop', Lts.run Loop.step loop inputs = some loop' →
        Lts.Meets Loop.step (fun l _ => k1 ∈ l.state.queued) loop inputs →
        k2 ∉ spawnedKeys (loop'.log.drop loop.log.length) := by
  refine ⟨fun k hk => (h.atRest.queued_blocked k hk).2.2, ?_⟩
  intro k1 k2 hahead hd inputs loop' hrun hmeets
  obtain ⟨es, hlog, hes⟩ : ∃ es, loop'.log = loop.log ++ es ∧ k2 ∉ spawnedKeys es := by
    refine (Lts.run_invariant_of_meets (I := fun l => l.Reachable ∧ Behind k1 k2 l.state.queued ∧
      ∃ es, l.log = loop.log ++ es ∧ k2 ∉ spawnedKeys es) ?_ ⟨h, fun _ _ => hahead, [], ?_⟩ hmeets
        hrun).2.2
    · rintro l input l' ⟨hreach, hbehind, es, hlog, hes⟩ hk1 hs
      obtain ⟨maxUpload, maxDownload, before, hbefore⟩ := hreach
      have hinv : LoopInv l := .of_run hbefore
      have hreach' : l'.Reachable := ⟨maxUpload, maxDownload, before ++ [input],
        Lts.run_snoc.2 ⟨l, hbefore, hs⟩⟩
      obtain ⟨_, ha, rfl⟩ := Loop.step_eq_some.1 hs
      obtain ⟨hturn, hbehind'⟩ := (show l.Reachable from ⟨_, _, _, hbefore⟩).atRest.keeps_turn
        (fun inner callbacks hi => hinv.fresh ha hi) hk1 hd hbehind
      refine ⟨hreach', hbehind', es ++ (react l.state input).2, ?_, ?_⟩
      · rw [hlog, List.append_assoc]
      · rw [spawnedKeys_append, List.mem_append]
        rintro (hk | hk)
        · exact hes hk
        · exact hturn hk
    · exact ⟨(List.append_nil _).symm, List.not_mem_nil⟩
  rw [hlog, List.drop_left]
  exact hes

/-- Three downloads for one slot, the first of which then completes. -/
def threeDownloads : List LoopInput :=
  [.cmd (.enqueue { sampleTask 0 with url := "a" } ⟨none⟩),
    .cmd (.enqueue { sampleTask 1 with url := "b" } ⟨none⟩),
    .cmd (.enqueue { sampleTask 2 with url := "c" } ⟨none⟩)]

theorem queue_is_fair_refill : ∃ loop loop', Lts.run Loop.step (.init 1 1) threeDownloads = some loop ∧
    Lts.run Loop.step loop [.event (.completed (.download, "a") 8)] = some loop' ∧
      (.download, "c") ∉ spawnedKeys (loop'.log.drop loop.log.length) := by
  have hrun : Lts.run Loop.step (.init 1 1) threeDownloads = some _ := Lts.run_final (by decide)
  have hnext : Lts.run Loop.step (Lts.final Loop.step (.init 1 1) threeDownloads)
      [.event (.completed (.download, "a") 8)] = some _ := Lts.run_final (by decide)
  refine ⟨_, _, hrun, hnext, (queue_is_fair _ ⟨1, 1, _, hrun⟩).2 (.download, "b") (.download, "c") ?_ rfl
    _ _ hnext ?_⟩
  · decide
  · decide

end SpottedCat
