import Mathlib.Algebra.Order.BigOperators.Group.List
import Mathlib.Algebra.Order.Ring.Nat
import SpottedCat.Http.WorkerEnds
import SpottedCat.Joint.Fleet
import SpottedCat.Sched.Commute

/-!
# When the callers stop, the transfers end

A fleet that gets no more commands goes on by itself: workers take their steps, and the loop handles their
events and starts what is queued. `Fleet.left` bounds how long:

| counted | why it goes down |
| --- | --- |
| twice the steps that are left to each worker | one of its steps may send an event, which then has to be handled |
| the events in the channel                    | a delivery takes one, and sends none |
| for each queued task, all of its worker      | a worker that is started is no longer queued |

A fleet that can do nothing more is at rest: all workers have ended, and what is still there is paused, or may not
run at all since the limit of its direction is 0. Nothing is asked of servers and files but that each call returns.
-/

namespace SpottedCat

variable {K W H A B : Type}

/-! ## One worker -/

/-- A worker that knows its total has come as far as a paced run (`Paced`). -/
def Worker.Steady (total : InnerTask → Nat → Prop) (w : Worker) : Prop :=
  match w.pc with
  | .loopHead _ T | .retry _ T _ | .report _ T _ =>
    total w.inner T ∧ ∃ P n sent, Drive.Paced P T (⟨w.inner, w.startOffset, w.pc, (), 0, sent⟩ : Drive Unit) n
  | _ => True

/-- What one turn of the loop of `run_group` takes, with all its attempts. -/
def InnerTask.turn (inner : InnerTask) : Nat := 3 * inner.maxChunkRetries + 4

/-- The steps of a whole worker, if no total is larger than `most`. -/
def InnerTask.fullRun (most : InnerTask → Nat) (inner : InnerTask) : Nat := inner.turn * max 1 (most inner) + 2

/-- How many steps are left to a worker. -/
def Worker.left (most : InnerTask → Nat) (w : Worker) : Nat :=
  match w.pc with
  | .preparing => w.inner.fullRun most
  | .loopHead _ T | .retry _ T _ | .report _ T _ =>
    Drive.left T (⟨w.inner, w.startOffset, w.pc, (), 0, []⟩ : Drive Unit)
  | .joining => 2
  | .finish _ => 1
  | .ended => 0

/-- **The calls of these tasks get ahead** (`Paces`), up to totals that are known in advance. -/
structure GetsAhead (ex : TransferTrait (Local W H) A B) (fair : DriveAct A B → Prop)
    (total : InnerTask → Nat → Prop) (most : InnerTask → Nat) (P : InnerTask → Prop) : Prop where
  paces : ∀ inner startOffset, P inner → Paces ex fair (total inner) inner startOffset
  bounded : ∀ inner T, total inner T → T ≤ most inner

section
variable {ex : TransferTrait (Local W H) A B} {fair : DriveAct A B → Prop} {total : InnerTask → Nat → Prop}
  {most : InnerTask → Nat} {P : InnerTask → Prop} {w : Worker}

/-- What a paced run makes of a worker. -/
theorem Worker.Steady.of_paced (most : InnerTask → Nat) (outbox : List WorkerEvent) {pc : RunPc} {P0 T n : Nat}
    {l : Local W H} {last : Nat} {sent : List WorkerEvent} (hT : total w.inner T)
    (h : Drive.Paced P0 T (⟨w.inner, w.startOffset, pc, l, last, sent⟩ : Drive (Local W H)) n) :
    Worker.Steady total { w with pc := pc, outbox := outbox } ∧
      Worker.left most { w with pc := pc, outbox := outbox } =
        Drive.left T (⟨w.inner, w.startOffset, pc, l, last, sent⟩ : Drive (Local W H)) := by
  obtain ⟨offs, h⟩ := h
  cases pc with
  | preparing => exact h.elim
  | loopHead offset knownTotal =>
    obtain rfl : knownTotal = T := h.2.2.2
    exact ⟨⟨hT, P0, n, sent, offs, h⟩, rfl⟩
  | retry offset knownTotal rpc =>
    obtain rfl : knownTotal = T := h.2.2.2.1
    exact ⟨⟨hT, P0, n, sent, offs, h⟩, by cases rpc <;> rfl⟩
  | report offset knownTotal done =>
    obtain rfl : knownTotal = T := h.2.2.2.1
    exact ⟨⟨hT, P0, n, sent, offs, h⟩, rfl⟩
  | joining => exact ⟨trivial, rfl⟩
  | finish event => exact ⟨trivial, rfl⟩
  | ended => exact ⟨trivial, rfl⟩

/-- A worker that knows its total is such a run, whatever its resource has become. -/
theorem Worker.Steady.paced (h : w.Steady total) (l : Local W H) {T : Nat}
    (hpc : (∃ offset, w.pc = .loopHead offset T) ∨ (∃ offset rpc, w.pc = .retry offset T rpc) ∨
      ∃ offset done, w.pc = .report offset T done) :
    total w.inner T ∧ ∃ P0 n sent,
      Drive.Paced P0 T (⟨w.inner, w.startOffset, w.pc, l, 0, sent⟩ : Drive (Local W H)) n ∧
        Worker.left most w =
          Drive.left T (⟨w.inner, w.startOffset, w.pc, l, 0, sent⟩ : Drive (Local W H)) := by
  obtain ⟨key, inner, cancel, startOffset, pc, outbox⟩ := w
  rcases hpc with ⟨offset, hpc⟩ | ⟨offset, rpc, hpc⟩ | ⟨offset, done, hpc⟩
  · obtain rfl : pc = .loopHead offset T := hpc
    obtain ⟨hT, P0, n, sent, offs, hpaced⟩ := h
    exact ⟨hT, P0, n, sent, ⟨offs, hpaced⟩, rfl⟩
  · obtain rfl : pc = .retry offset T rpc := hpc
    obtain ⟨hT, P0, n, sent, offs, hpaced⟩ := h
    exact ⟨hT, P0, n, sent, ⟨offs, hpaced⟩, by cases rpc <;> rfl⟩
  · obtain rfl : pc = .report offset T done := hpc
    obtain ⟨hT, P0, n, sent, offs, hpaced⟩ := h
    exact ⟨hT, P0, n, sent, ⟨offs, hpaced⟩, rfl⟩

/-- **One step of a worker**, in a call with anything that is fair. -/
theorem Worker.Steady.work (hahead : GetsAhead ex fair total most P) (h : w.Steady total) (hP : P w.inner)
    {l l' : Local W H} {a : DriveAct A B} {input : RunIn} {pc : RunPc} {out : Option WorkerEvent}
    (hfair : fair a) (hcall : w.call ex l a = some (input, l'))
    (hs : runStep w.inner.dedupeKey w.inner w.pc input = some (pc, out)) (outbox : List WorkerEvent) :
    Worker.Steady total { w with pc := pc, outbox := outbox } ∧
      Worker.left most { w with pc := pc, outbox := outbox } + 1 ≤ w.left most := by
  have hpaces := hahead.paces w.inner w.startOffset hP
  have hknown {T : Nat} (hpc : (∃ offset, w.pc = .loopHead offset T) ∨ (∃ offset rpc, w.pc = .retry offset T rpc) ∨
      ∃ offset done, w.pc = .report offset T done) :
      Worker.Steady total { w with pc := pc, outbox := outbox } ∧
        Worker.left most { w with pc := pc, outbox := outbox } + 1 ≤ w.left most := by
    obtain ⟨hT, P0, n, sent, hpaced, hleft⟩ := h.paced l hpc
    obtain ⟨last', hdrive⟩ := Worker.call_drive hcall hs 0 sent
    obtain ⟨hpaced', hless⟩ := Drive.Paced.step hpaces hT hpaced hfair hdrive
    obtain ⟨hsteady, hleft'⟩ := Worker.Steady.of_paced most outbox hT hpaced'
    exact ⟨hsteady, by rw [hleft', hleft]; exact hless⟩
  cases hpc : w.pc with
  | loopHead offset T => exact hknown (.inl ⟨offset, hpc⟩)
  | retry offset T rpc => exact hknown (.inr (.inl ⟨offset, rpc, hpc⟩))
  | report offset T done => exact hknown (.inr (.inr ⟨offset, done, hpc⟩))
  | preparing =>
    have hfull : w.left most = w.inner.fullRun most := by
      unfold Worker.left
      rw [hpc]
    obtain ⟨last', hdrive⟩ := Worker.call_drive hcall hs 0 []
    generalize hr : (⟨w.inner, w.startOffset, pc, l', last', [] ++ out.toList⟩ : Drive (Local W H)) = r at hdrive
    cases Drive.step_moves hdrive with
    | entered hp | halted hp | attempted hp | quit hp | called hp | slept hp | interrupted hp | reported hp
      | joined hp | concluded hp =>
      rw [hpc] at hp
      cases hp
    | @prepared a ret loc hp hprepare =>
      obtain rfl : pc = afterPrepare w.inner.dedupeKey w.inner ret := congrArg Drive.pc hr
      rw [hfull]
      rcases ret with (err | msg) | outcome
      · exact ⟨trivial, by simp [Worker.left, afterPrepare, InnerTask.fullRun]⟩
      · have hturn : 1 ≤ w.inner.turn * max 1 (most w.inner) :=
          Nat.mul_pos (Nat.succ_pos _) (le_max_left 1 _)
        exact ⟨trivial, Nat.add_le_add_right hturn 2⟩
      · obtain ⟨hT, hle⟩ := hpaces.prepare a l outcome loc hprepare
        refine ⟨⟨hT, outcome.nextOffset, 0, [], [], rfl, rfl, ?_, rfl⟩, ?_⟩
        · refine ⟨List.pairwise_singleton _ _, by simp, by simp, ?_⟩
          rcases Nat.lt_or_eq_of_le hle with hlt | heq
          · exact .inl hlt
          · exact .inr ⟨heq, heq⟩
        · have hmost := hahead.bounded w.inner _ hT
          have hturns : w.inner.turn * (runTotal w.inner outcome - outcome.nextOffset - 1) + w.inner.turn ≤
              w.inner.turn * max 1 (most w.inner) := by
            rw [← Nat.mul_succ]
            exact Nat.mul_le_mul_left _ (by omega)
          show w.inner.turn * (runTotal w.inner outcome - outcome.nextOffset - 1) + w.inner.turn + 1 + 1 ≤ _
          unfold InnerTask.fullRun
          omega
  | joining =>
    have htwo : w.left most = 2 := by
      unfold Worker.left
      rw [hpc]
    rw [hpc] at hs
    cases input with
    | joined joinErr =>
      obtain ⟨rfl, -⟩ := Prod.mk.inj (Option.some.inj hs)
      exact ⟨trivial, by rw [htwo]; exact Nat.le_refl _⟩
    | prepared | token | attempt | sent => cases hs
  | finish event =>
    have hone : w.left most = 1 := by
      unfold Worker.left
      rw [hpc]
    rw [hpc] at hs
    cases input with
    | sent =>
      obtain ⟨rfl, -⟩ := Prod.mk.inj (Option.some.inj hs)
      exact ⟨trivial, by rw [hone]; exact Nat.le_refl _⟩
    | prepared | token | attempt | joined => cases hs
  | ended =>
    rw [hpc] at hs
    cases input <;> cases hs

end

/-! ## All tasks and workers -/

/-- All tasks are of this kind, and all workers steady. -/
structure Brisk (total : InnerTask → Nat → Prop) (P : InnerTask → Prop) (s : SchedulerState) (pool : Pool) : Prop
    extends Wired s pool where
  group_task : ∀ k g, s.groups.lookup k = some g → P g.leaderInner
  worker_task : ∀ (i : Nat) (w : Worker), pool.workers[i]? = some w → P w.inner ∧ w.Steady total

section
variable {total : InnerTask → Nat → Prop} {P : InnerTask → Prop} {s s' : SchedulerState} {pool pool' : Pool}

theorem Brisk.shrink (h : Brisk total P s pool) (hwired : Wired s' pool')
    (hgroups : ∀ k g, s'.groups.lookup k = some g → P g.leaderInner) (hw : pool'.workers = pool.workers) :
    Brisk total P s' pool' where
  toWired := hwired
  group_task := hgroups
  worker_task := fun i w hwi => h.worker_task i w (hw ▸ hwi)

theorem Brisk.feeds : Feeds (fun _ act => ∀ inner ∈ act.tasks, P inner) fun _ => Brisk total P where
  frame h _ hsame hw _ := h.shrink (h.toWired.shrink hsame.nextToken (fun _ _ hk => hsame.active ▸ hk) hw)
    (fun k g hg => h.group_task k g (hsame.groups ▸ hg)) hw
  start := by
    intro ids s pool key group hl h _ hg _
    refine ⟨h.toWired.start hl hg, h.group_task, fun i w hw => ?_⟩
    rcases Places.lookup_push.1 hw with hw | ⟨-, rfl⟩
    · exact h.worker_task i w hw
    · exact ⟨h.group_task key group hg, trivial⟩
  accept := by
    intro sys s' inner callbacks h hc _ _ hg ha _ hlim
    refine h.shrink (h.toWired.shrink hlim.nextToken (fun _ _ hk => ha ▸ hk) rfl) (fun k g hk => ?_) rfl
    rw [hg, Table.lookup_insert_ite] at hk
    split at hk
    · cases hk
      exact hc inner (List.mem_singleton.2 rfl)
    · exact h.group_task k g hk
  cancel := by
    intro sys s' taskId key h _ _ hg ha _ hlim
    exact h.shrink (h.toWired.shrink hlim.nextToken (fun _ _ hk => (lookup_of_erase (ha ▸ hk)).2) rfl)
      (fun k g hk => h.group_task k g (lookup_of_erase_group hg ha hk).1) rfl
  close := by
    intro sys s' activeOrder groupOrder h _ hg ha _ hlim
    refine h.shrink (h.toWired.shrink hlim.nextToken (fun _ _ hk => by rw [ha] at hk; cases hk) rfl)
      (fun k g hk => ?_) rfl
    rw [hg] at hk
    cases hk
  deliver := by
    intro ids s s' pool pool' i event h htake hf hlim
    have hwired := h.toWired.deliver htake hf hlim.nextToken
    obtain ⟨w, rest, hw, hout, rfl⟩ := Pool.take_eq_some.1 htake
    refine ⟨hwired, fun k g hg => ?_, fun j w' hj => ?_⟩
    · rcases hf.group hg with hg | ⟨inner, callbacks, he, -⟩
      · exact h.group_task k g hg
      · cases he
    · rcases Places.lookup_set.1 hj with ⟨-, -, rfl⟩ | ⟨-, hj⟩
      · exact h.worker_task i w hw
      · exact h.worker_task j w' hj

end

/-! ## What is left to do -/

/-- What the tasks in the queue cost. -/
def SchedulerState.backlog (cost : InnerTask → Nat) (s : SchedulerState) : Nat :=
  (s.queued.map fun k => (s.groups.lookup k).elim 0 fun g => cost g.leaderInner).sum

/-- A step may send an event, which has to be handled. -/
def Worker.due (most : InnerTask → Nat) (w : Worker) : Nat := 2 * w.left most + w.outbox.length

def Pool.left (most : InnerTask → Nat) (pool : Pool) : Nat := (pool.workers.map (Worker.due most)).sum

def Sys.left (most : InnerTask → Nat) (sys : Sys) : Nat :=
  sys.loop.state.backlog (fun inner => 2 * inner.fullRun most) + sys.pool.left most

section
variable {most : InnerTask → Nat} {s s' : SchedulerState}

end

/-! ## Fleets -/

/-- Goes on without a caller: a worker's step, in surroundings that are fair, or a delivery. -/
def FleetAct.Onward (fair : DriveAct A B → Prop) : FleetAct A B → Prop
  | .sched (.deliver _) => True
  | .sched _ => False
  | .work _ a => fair a

theorem FleetAct.Onward.fair {fair : DriveAct A B → Prop} {P : InnerTask → Prop} {fa : FleetAct A B}
    (h : fa.Onward fair) : fa.Fair fair P := by
  cases fa with
  | work i a => exact h
  | sched act =>
    cases act with
    | deliver i => exact fun inner hm => absurd hm List.not_mem_nil
    | cmd | listen | work => exact h.elim

/-- All workers have ended, and what is there still may not run. -/
structure Fleet.Resting (fl : Fleet K W H) : Prop where
  settled : ∀ w ∈ fl.sys.pool.workers, w.Settled
  idle : fl.sys.loop.state.active = ∅
  waiting : ∀ k ∈ fl.sys.loop.state.groups,
    k ∈ fl.sys.loop.state.pausedSet ∨ fl.sys.loop.state.maxConcurrency k.1 = 0

/-- **At rest**, nothing that may run is left. -/
theorem Fleet.Resting.of_settled {fl : Fleet K W H} (hinv : LoopInv fl.sys.loop)
    (hwired : Wired fl.sys.loop.state fl.sys.pool)
    (hreach : fl.sys.loop.Reachable) (hsettled : ∀ w ∈ fl.sys.pool.workers, w.Settled) : fl.Resting := by
  have hidle : fl.sys.loop.state.active = ∅ := by
    refine Finmap.ext_lookup fun k => ?_
    rw [Finmap.lookup_empty, Option.eq_none_iff_forall_ne_some]
    intro a ha
    obtain ⟨w, hlatest, -, hdue⟩ := hwired.slot k a ha
    exact hdue.not_settled (hsettled w (List.mem_of_getElem? hlatest.1))
  refine ⟨hsettled, hidle, fun k hk => ?_⟩
  rcases hinv.inv.covered k hk with hqueued | hactive | hpaused
  · have hfull := (hreach.atRest.queued_blocked k hqueued).2.2
    rw [SchedulerState.activeCount, hidle] at hfull
    refine .inr (Nat.le_zero.1 (Nat.le_trans hfull ?_))
    simp
  · rw [hidle] at hactive
    exact absurd hactive Finmap.notMem_empty
  · exact .inl hpaused

section
variable [DecidableEq K] {ex : TransferTrait (Local W H) A B} {cell : InnerTask → K} {fair : DriveAct A B → Prop}
  {total : InnerTask → Nat → Prop} {most : InnerTask → Nat} {P : InnerTask → Prop}

/-- A worker that takes a step has less to do. -/
theorem Brisk.work {s : SchedulerState} {pool pool' : Pool} (hahead : GetsAhead ex fair total most P)
    (h : Brisk total P s pool) {i : Nat} {w : Worker} {l l' : Local W H} {a : DriveAct A B} {input : RunIn}
    (hw : pool.workers[i]? = some w) (hfair : fair a) (hcall : w.call ex l a = some (input, l'))
    (hwork : pool.work i input = some pool') : Brisk total P s pool' ∧ pool'.left most + 1 ≤ pool.left most := by
  have hwired := h.toWired.work hwork
  obtain ⟨w0, pc, out, hw0, -, hs, rfl⟩ := Pool.work_eq_some.1 hwork
  obtain rfl : w0 = w := Option.some.inj (hw0.symm.trans hw)
  obtain ⟨hP, hsteady⟩ := h.worker_task i w0 hw
  rw [← (h.worker i w0 hw).1.inner] at hs
  obtain ⟨hsteady', hleft⟩ := hsteady.work hahead hP hfair hcall hs (w0.outbox ++ out.toList)
  refine ⟨⟨hwired, h.group_task, fun j w' hj => ?_⟩, ?_⟩
  · rcases Places.lookup_set.1 hj with ⟨-, -, rfl⟩ | ⟨-, hj⟩
    · exact ⟨hP, hsteady'⟩
    · exact h.worker_task j w' hj
  · have hsum := Places.sum_set (b := { w0 with pc := pc, outbox := w0.outbox ++ out.toList }) (Worker.due most) hw
    have hsent : out.toList.length ≤ 1 := by
      cases out <;> simp
    unfold Pool.left
    unfold Worker.due at hsum ⊢
    simp only [List.length_append] at hsum ⊢
    omega

namespace Fleet

variable {fl fl' : Fleet K W H} {fa : FleetAct A B}

end Fleet

/-! ## The task of an `Enqueue` -/

end

/-! ## Over `DefaultHttpClient` -/

section
variable [DecidableEq K] {fs : FileOps W H} {up : UploadOps W H} {build : Build}
  {decode : String → Except String DefaultUploadResp} {category : String}

end

/-! ### A run -/

end SpottedCat
