import Mathlib.Logic.Function.Basic
import SpottedCat.Http.FileOps
import SpottedCat.Joint.Ownership
import SpottedCat.Sched.Completion
import SpottedCat.Worker.Drive

/-!
# The scheduler with workers that do transfer something

In `System` a worker takes any result from its executor. Here the executor is there: a `TransferTrait` that
works on the resource of its task, which outlives the worker, and on the open file of its `TransferTask`, which
does not.

| here | there |
| --- | --- |
| `Fleet`, `Fleet.step` | `Sys` with the resources that the workers share |
| `cell`                | which resource a task works on; a parameter |
| `Worker.call`         | `executor.prepare` (exec.rs:159), `executor.transfer_chunk` (retry.rs:72), or no call |
| `Contract`            | what an executor makes of a resource: sound all along, how much of it is through, when it is whole |
| `Terms`               | what a run has to meet: fair surroundings, and each `Enqueue` accepted for a quiet key |

`Fleet.run_serves` composes the two sides: who owns a key (`Ownership`) and what one call keeps (`Keeps`). What a
worker reports then holds of the resource, from then on and whatever the other workers do.
-/

namespace SpottedCat

/-- What the calls of an executor make of one resource. -/
structure Contract (W H : Type) where
  /-- At any time. -/
  sound : W → Prop
  /-- The first `n` bytes are through. -/
  reached : W → Nat → Prop
  /-- All bytes are through. -/
  whole : W → Prop
  /-- Between two chunks of a run, at an offset and with a known total. -/
  between : Nat → Nat → Local W H → Prop
  /-- `prepare` relies on the offset that it is given. -/
  relies : Prop
  reached_zero : ∀ w, sound w → reached w 0
  between_reached : ∀ offset knownTotal l, between offset knownTotal l → reached l.world offset

/-- Nothing is said. -/
def Contract.unsaid (W H : Type) : Contract W H where
  sound _ := True
  reached _ _ := True
  whole _ := True
  between _ _ _ := True
  relies := False
  reached_zero := fun _ _ => trivial
  between_reached := fun _ _ _ _ => trivial

namespace Contract

variable {W H : Type} (C : Contract W H)

/-- The resource was `base` and is `w` now: nothing that was through is lost. -/
structure Since (base w : W) : Prop where
  sound : C.sound w
  reached : ∀ n, C.reached base n → C.reached w n
  whole : C.whole base → C.whole w

/-- For one run of a worker, on a resource that was `base` at some time. -/
def callInv (startOffset : Nat) (base : W) : CallInv (Local W H) where
  always l _ := C.Since base l.world
  ready l := l.slot = none ∧ (C.relies → C.reached l.world startOffset)
  between := C.between
  whole l := C.whole l.world

/-- What an event says of the resource of its task. -/
def Backs (w : W) : WorkerEvent → Prop
  | .progress _ nextOffset _ => C.reached w nextOffset
  | .completed .. => C.whole w
  | _ => True

variable {C} {base w w' : W}

theorem Since.refl (h : C.sound w) : C.Since w w := ⟨h, fun _ hn => hn, fun hw => hw⟩

theorem Since.trans (h : C.Since base w) (h' : C.Since w w') : C.Since base w' where
  sound := h'.sound
  reached := fun n hn => h'.reached n (h.reached n hn)
  whole := fun hw => h'.whole (h.whole hw)

theorem Since.backs (h : C.Since w w') {event : WorkerEvent} (he : C.Backs w event) : C.Backs w' event := by
  cases event with
  | progress key nextOffset total => exact h.reached nextOffset he
  | completed key total => exact h.whole he
  | failed | canceled => exact trivial

end Contract

structure Fleet (K W H : Type) where
  sys : Sys
  worlds : K → W
  /-- The open file of each worker's `TransferTask`; a new one has none. -/
  slots : Nat → Option H
  /-- The tasks of all `Enqueue` commands so far. -/
  tasks : List InnerTask

inductive FleetAct (A B : Type) where
  /-- A command, an edit of the listeners, or a delivery. -/
  | sched (act : Act)
  /-- Worker `i` takes a step. -/
  | work (i : Nat) (a : DriveAct A B)

def Act.isWork : Act → Bool
  | .work .. => true
  | _ => false

/-- The task that an action enqueues. -/
def Act.tasks : Act → List InnerTask
  | .cmd (.enqueue inner _) => [inner]
  | _ => []

section
variable {K W H A B : Type}

/-- What the machine of a worker gets back in a step, and what its executor leaves behind. -/
def Worker.call (ex : TransferTrait (Local W H) A B) (w : Worker) (l : Local W H) :
    DriveAct A B → Option (RunIn × Local W H)
  | .prepare a =>
    let (ret, l') := ex.prepare w.inner w.startOffset a l
    some (.prepared ret, l')
  | .chunk b =>
    match w.pc with
    | .retry offset knownTotal (.calling _) =>
      let (ret, l') := ex.transferChunk w.inner offset w.inner.chunkSize knownTotal b l
      some (.attempt (.chunk ret), l')
    | _ => none
  | .worker input => if input.ofCall then none else some (input, l)

namespace Fleet

def init (maxUpload maxDownload : Nat) (worlds : K → W) : Fleet K W H :=
  ⟨.init maxUpload maxDownload, worlds, fun _ => none, []⟩

/-- What worker `i` works on. -/
def place (cell : InnerTask → K) (fl : Fleet K W H) (i : Nat) (w : Worker) : Local W H :=
  ⟨fl.worlds (cell w.inner), fl.slots i⟩

def step [DecidableEq K] (ex : TransferTrait (Local W H) A B) (cell : InnerTask → K) (fl : Fleet K W H) :
    FleetAct A B → Option (Fleet K W H)
  | .sched act =>
    if act.isWork then none
    else (fl.sys.step act).map fun sys => { fl with sys := sys, tasks := fl.tasks ++ act.tasks }
  | .work i a =>
    match fl.sys.pool.workers[i]? with
    | none => none
    | some w =>
      (w.call ex (fl.place cell i w) a).bind fun (input, l) =>
        (fl.sys.step (.work i input)).map fun sys =>
          { fl with
            sys := sys
            worlds := Function.update fl.worlds (cell w.inner) l.world
            slots := Function.update fl.slots i l.slot }

end Fleet

/-! ## Steps -/

variable [DecidableEq K] {ex : TransferTrait (Local W H) A B} {cell : InnerTask → K} {fl fl' : Fleet K W H}

namespace Fleet

theorem step_sched {act : Act} (h : fl.step ex cell (.sched act) = some fl') :
    act.isWork = false ∧ ∃ sys, fl.sys.step act = some sys ∧
      fl' = { fl with sys := sys, tasks := fl.tasks ++ act.tasks } := by
  unfold Fleet.step at h
  simp only at h
  split at h
  · cases h
  · rename_i hwork
    obtain ⟨sys, hs, rfl⟩ := Option.map_eq_some_iff.1 h
    exact ⟨Bool.eq_false_iff.2 hwork, sys, hs, rfl⟩

theorem step_work {i : Nat} {a : DriveAct A B} (h : fl.step ex cell (.work i a) = some fl') :
    ∃ w input l sys, fl.sys.pool.workers[i]? = some w ∧ w.call ex (fl.place cell i w) a = some (input, l) ∧
      fl.sys.step (.work i input) = some sys ∧
      fl' = { fl with
        sys := sys
        worlds := Function.update fl.worlds (cell w.inner) l.world
        slots := Function.update fl.slots i l.slot } := by
  unfold Fleet.step at h
  simp only at h
  split at h
  · cases h
  · rename_i w hw
    obtain ⟨⟨input, l⟩, hcall, h⟩ := Option.bind_eq_some_iff.1 h
    obtain ⟨sys, hs, rfl⟩ := Option.map_eq_some_iff.1 h
    exact ⟨w, input, l, sys, hw, hcall, hs, rfl⟩

end Fleet

/-- The step of a worker is one of the loop that `Drive` runs, on the same state of the executor. -/
theorem Worker.call_drive {w : Worker} {l l' : Local W H} {a : DriveAct A B} {input : RunIn} {pc : RunPc}
    {out : Option WorkerEvent} (hcall : w.call ex l a = some (input, l'))
    (hs : runStep w.inner.dedupeKey w.inner w.pc input = some (pc, out)) (last : Nat)
    (sent : List WorkerEvent) :
    ∃ last', Drive.step ex ⟨w.inner, w.startOffset, w.pc, l, last, sent⟩ a =
      some ⟨w.inner, w.startOffset, pc, l', last', sent ++ out.toList⟩ := by
  cases a with
  | prepare a =>
    obtain ⟨rfl, rfl⟩ := Prod.mk.inj (Option.some.inj hcall)
    exact ⟨last, by simp [Drive.step, Drive.advance, hs]⟩
  | chunk b =>
    unfold Worker.call at hcall
    simp only at hcall
    split at hcall
    · rename_i offset knownTotal attempt hpc
      obtain ⟨rfl, rfl⟩ := Prod.mk.inj (Option.some.inj hcall)
      rw [hpc] at hs ⊢
      refine ⟨offsetAfter last (ex.transferChunk w.inner offset w.inner.chunkSize knownTotal b l).1, ?_⟩
      simp only [Drive.step, Drive.advance, hs, Option.map_some]
    · cases hcall
  | worker input' =>
    unfold Worker.call at hcall
    simp only at hcall
    split at hcall
    · cases hcall
    · rename_i hofCall
      obtain ⟨rfl, rfl⟩ := Prod.mk.inj (Option.some.inj hcall)
      exact ⟨last, by simp [Drive.step, Drive.advance, hofCall, hs]⟩

end

/-! ## What an executor has to keep -/

section
variable {W H A B : Type}

/-- **The calls of one task keep its contract**, as long as the world is `fair`. A call that fails may leave the
loop's offset behind only if it is not tried again. -/
structure Honours (ex : TransferTrait (Local W H) A B) (C : Contract W H) (fair : DriveAct A B → Prop)
    (inner : InnerTask) : Prop where
  prepare : ∀ a startOffset l, fair (.prepare a) → C.sound l.world → l.slot = none →
    (C.relies → C.reached l.world startOffset) →
    Triple (· = l) (ex.prepare inner startOffset a)
      (fun outcome l' => C.Since l.world l'.world ∧ C.between outcome.nextOffset
        (if outcome.totalSize > 0 then outcome.totalSize else inner.totalSize) l')
      (fun _ l' => C.Since l.world l'.world)
  chunk : ∀ b l offset knownTotal, fair (.chunk b) → C.sound l.world → C.between offset knownTotal l →
    Triple (· = l) (ex.transferChunk inner offset inner.chunkSize knownTotal b)
      (fun outcome l' => C.Since l.world l'.world ∧ C.between outcome.nextOffset
          (if outcome.totalSize > 0 then outcome.totalSize else knownTotal) l' ∧
        (outcome.done = true → C.whole l'.world))
      (fun e l' => C.Since l.world l'.world ∧ (¬ e.Final → C.between offset knownTotal l'))

theorem Honours.keeps {ex : TransferTrait (Local W H) A B} {C : Contract W H} {fair : DriveAct A B → Prop}
    {inner : InnerTask} (h : Honours ex C fair inner) (startOffset : Nat) (base : W) :
    Keeps ex (C.callInv startOffset base) fair inner startOffset where
  prepare := by
    rintro a l last hfair hl ⟨hslot, hrelies⟩
    refine (h.prepare a startOffset l hfair hl.sound hslot hrelies).mono (fun _ h => h) ?_ ?_
    · rintro outcome l' ⟨hsince, hbetween⟩
      exact ⟨hl.trans hsince, hsince.whole, hbetween⟩
    · rintro e l' hsince
      exact ⟨hl.trans hsince, hsince.whole⟩
  chunk := by
    rintro b l last offset knownTotal hfair hl hbetween
    refine (h.chunk b l offset knownTotal hfair hl.sound hbetween).mono (fun _ h => h) ?_ ?_
    · rintro outcome l' ⟨hsince, hbetween', hdone⟩
      exact ⟨hl.trans hsince, hsince.whole, hbetween', hdone⟩
    · rintro e l' ⟨hsince, hretry⟩
      exact ⟨hl.trans hsince, hsince.whole, hretry⟩

/-- Where nothing is said, nothing has to be kept. -/
theorem Honours.unsaid (ex : TransferTrait (Local W H) A B) (fair : DriveAct A B → Prop)
    (inner : InnerTask) : Honours ex (.unsaid W H) fair inner where
  prepare := by
    intro a startOffset l _ _ _ _ l' _
    rcases ex.prepare inner startOffset a l' with ⟨ret, l''⟩
    cases ret with
    | ok outcome => exact ⟨⟨trivial, fun _ _ => trivial, fun _ => trivial⟩, trivial⟩
    | error e => exact ⟨trivial, fun _ _ => trivial, fun _ => trivial⟩
  chunk := by
    intro b l offset knownTotal _ _ _ l' _
    rcases ex.transferChunk inner offset inner.chunkSize knownTotal b l' with ⟨ret, l''⟩
    cases ret with
    | ok outcome => exact ⟨⟨trivial, fun _ _ => trivial, fun _ => trivial⟩, trivial, fun _ => trivial⟩
    | error e => exact ⟨⟨trivial, fun _ _ => trivial, fun _ => trivial⟩, fun _ => trivial⟩

/-- **Which tasks may be enqueued**: each with calls that keep the contract of its resource; two that share a
resource share the key, and exclude one another; and where a start offset matters, those that share a key, and
with it the stored offset, share the resource. -/
structure Admits {K : Type} (ex : TransferTrait (Local W H) A B) (cell : InnerTask → K)
    (contract : K → Contract W H) (fair : InnerTask → DriveAct A B → Prop) (P : InnerTask → Prop) : Prop where
  honours : ∀ inner, P inner → Honours ex (contract (cell inner)) (fair inner) inner
  exclusive : ∀ inner inner', P inner → P inner' → cell inner = cell inner' →
    inner.dedupeKey = inner'.dedupeKey
  anchored : ∀ inner inner', P inner → P inner' → inner.dedupeKey = inner'.dedupeKey →
    (contract (cell inner)).relies → cell inner' = cell inner

/-- What a step of a run has to meet. -/
def Terms {K : Type} (fair : InnerTask → DriveAct A B → Prop) (P : InnerTask → Prop) (fl : Fleet K W H) :
    FleetAct A B → Prop
  | .sched act => CleanEnqueue fl.sys act ∧ ∀ inner ∈ act.tasks, P inner
  | .work i a => ∀ w, fl.sys.pool.workers[i]? = some w → fair w.inner a

/-- The part of it that looks at the state. -/
def Fleet.Clean {K : Type} (fl : Fleet K W H) : FleetAct A B → Prop
  | .sched act => CleanEnqueue fl.sys act
  | .work .. => True

instance {K : Type} (fl : Fleet K W H) (fa : FleetAct A B) : Decidable (fl.Clean fa) := by
  unfold Fleet.Clean
  split <;> infer_instance

/-- The rest, for surroundings that are fair to all. -/
def FleetAct.Fair (fair : DriveAct A B → Prop) (P : InnerTask → Prop) : FleetAct A B → Prop
  | .sched act => ∀ inner ∈ act.tasks, P inner
  | .work _ a => fair a

theorem Terms.of_actions {K : Type} {step : Fleet K W H → FleetAct A B → Option (Fleet K W H)}
    {fair : InnerTask → DriveAct A B → Prop} {fair' : DriveAct A B → Prop} {P : InnerTask → Prop}
    {fl : Fleet K W H} {acts : List (FleetAct A B)} (hclean : Lts.Meets step Fleet.Clean fl acts)
    (hacts : ∀ fa ∈ acts, fa.Fair fair' P) (hfair : ∀ inner a, fair' a → fair inner a) :
    Lts.Meets step (Terms fair P) fl acts := by
  refine (hclean.and (Lts.Meets.of_forall (C := fun _ fa => fa.Fair fair' P)
    fun fa hfa _ => hacts fa hfa)).mono fun fl fa hfa => ?_
  cases fa with
  | sched act => exact hfa
  | work i a => exact fun w _ => hfair w.inner a hfa.2

end

/-! ## The invariant -/

/-- Workers, stored offsets and everything sent agree with the resources. -/
structure Serves {K W H : Type} (cell : InnerTask → K) (contract : K → Contract W H) (worlds : K → W)
    (slots : Nat → Option H) (tasks : List InnerTask) (s : SchedulerState) (pool : Pool) : Prop
    extends Owned Worker.Settled s pool where
  group_task : ∀ k g, s.groups.lookup k = some g → g.leaderInner ∈ tasks
  worker_task : ∀ (i : Nat) (w : Worker), pool.workers[i]? = some w → w.inner ∈ tasks
  stored : ∀ key n, s.offsets.lookup key = some n →
    ∃ inner ∈ tasks, inner.dedupeKey = key ∧ (contract (cell inner)).reached (worlds (cell inner)) n
  unopened : ∀ i : Nat, pool.workers.length ≤ i → slots i = none
  sound : ∀ c, (contract c).sound (worlds c)
  stands : ∀ (i : Nat) (w : Worker), pool.workers[i]? = some w →
    w.pc.Stands ((contract (cell w.inner)).callInv w.startOffset (worlds (cell w.inner)))
      ⟨worlds (cell w.inner), slots i⟩
  pending : ∀ (i : Nat) (w : Worker), pool.workers[i]? = some w → ∀ event ∈ w.outbox,
    (contract (cell w.inner)).Backs (worlds (cell w.inner)) event
  sent_backed : ∀ m ∈ pool.sent, ∃ inner ∈ tasks, inner.taskId = m.1 ∧
    (contract (cell inner)).Backs (worlds (cell inner)) m.2

section
variable {K W H A B : Type} {cell : InnerTask → K} {contract : K → Contract W H} {worlds : K → W}
  {slots : Nat → Option H} {tasks : List InnerTask} {s s' : SchedulerState} {pool pool' : Pool}

/-- What the scheduler's part of the invariant needs, when the workers stay. -/
theorem Serves.shrink (h : Serves cell contract worlds slots tasks s pool)
    (howned : Owned Worker.Settled s' pool')
    (hgroups : ∀ k g, s'.groups.lookup k = some g → g.leaderInner ∈ tasks)
    (hoffsets : ∀ k n, s'.offsets.lookup k = some n → s.offsets.lookup k = some n)
    (hw : pool'.workers = pool.workers) (hsent : pool'.sent = pool.sent) :
    Serves cell contract worlds slots tasks s' pool' where
  toOwned := howned
  group_task := hgroups
  worker_task := fun i w hwi => h.worker_task i w (hw ▸ hwi)
  stored := fun key n hn => h.stored key n (hoffsets key n hn)
  unopened := fun i hi => h.unopened i (hw ▸ hi)
  sound := h.sound
  stands := fun i w hwi => h.stands i w (hw ▸ hwi)
  pending := fun i w hwi => h.pending i w (hw ▸ hwi)
  sent_backed := fun m hm => h.sent_backed m (hsent ▸ hm)

/-- A new worker may begin at the stored offset. -/
theorem Serves.ready (h : Serves cell contract worlds slots tasks s pool) {P : InnerTask → Prop}
    {ex : TransferTrait (Local W H) A B} {fair : InnerTask → DriveAct A B → Prop}
    (hadmits : Admits ex cell contract fair P) (htasks : ∀ inner ∈ tasks, P inner) {inner : InnerTask}
    (hinner : inner ∈ tasks) (hrelies : (contract (cell inner)).relies) :
    (contract (cell inner)).reached (worlds (cell inner)) (s.current inner.dedupeKey) := by
  unfold SchedulerState.current
  cases hn : s.offsets.lookup inner.dedupeKey with
  | none => exact (contract (cell inner)).reached_zero _ (h.sound _)
  | some n =>
    obtain ⟨inner', hmem, hkey, hreached⟩ := h.stored _ n hn
    have hcell := hadmits.anchored inner inner' (htasks _ hinner) (htasks _ hmem) hkey.symm hrelies
    rw [hcell] at hreached
    exact hreached

theorem Serves.start (h : Serves cell contract worlds slots tasks s pool) {P : InnerTask → Prop}
    {ex : TransferTrait (Local W H) A B} {fair : InnerTask → DriveAct A B → Prop}
    (hadmits : Admits ex cell contract fair P) (htasks : ∀ inner ∈ tasks, P inner) (hl : Loose s)
    {key : UniqueId} {group : GroupState} (ha : key ∉ s.active) (hg : s.groups.lookup key = some group) :
    Serves cell contract worlds slots tasks (s.activate key)
      (pool.spawn ⟨key, group.leaderInner, ⟨s.nextToken⟩, s.current key, .preparing, []⟩) where
  toOwned := h.toOwned.start hl ha hg
  group_task := h.group_task
  worker_task := fun i w hw => by
    rcases Places.lookup_push.1 hw with hw | ⟨-, rfl⟩
    · exact h.worker_task i w hw
    · exact h.group_task key group hg
  stored := h.stored
  unopened := fun i hi => by
    refine h.unopened i (Nat.le_trans ?_ hi)
    simp [Pool.spawn]
  sound := h.sound
  stands := fun i w hw => by
    rcases Places.lookup_push.1 hw with hw | ⟨rfl, rfl⟩
    · exact h.stands i w hw
    · refine ⟨h.unopened _ (Nat.le_refl _), fun hrelies => ?_⟩
      have hready := h.ready hadmits htasks (h.group_task key group hg) hrelies
      rw [hl.leader_key key group hg] at hready
      exact hready
  pending := fun i w hw => by
    rcases Places.lookup_push.1 hw with hw | ⟨-, rfl⟩
    · exact h.pending i w hw
    · exact fun event he => absurd he List.not_mem_nil
  sent_backed := h.sent_backed

theorem lookup_of_erase_offset {offsets offsets' : Table UniqueId Nat} {key k : UniqueId} {n : Nat}
    (ho : offsets' = offsets.erase key) (h : offsets'.lookup k = some n) : offsets.lookup k = some n := by
  rw [ho, Table.lookup_erase_ite] at h
  split at h
  · cases h
  · exact h

/-- **A delivery** stores an offset that its worker has reached. -/
theorem Serves.deliver (h : Serves cell contract worlds slots tasks s pool) {i : Nat} {event : WorkerEvent}
    (htake : pool.take i = some (event, pool')) (hf : Footprint s (.event event) s') (hlim : SameLimits s s') :
    Serves cell contract worlds slots tasks s' pool' := by
  have howned := h.toOwned.deliver .of_settled htake hf hlim
  have hgroups (k : UniqueId) (g : GroupState) (hg : s'.groups.lookup k = some g) : g.leaderInner ∈ tasks := by
    rcases hf.group hg with hg | ⟨inner, callbacks, he, -⟩
    · exact h.group_task k g hg
    · cases he
  obtain ⟨w, rest, hw, hout, rfl⟩ := Pool.take_eq_some.1 htake
  have hstored (key : UniqueId) (n : Nat) (hn : s'.offsets.lookup key = some n) :
      ∃ inner ∈ tasks, inner.dedupeKey = key ∧ (contract (cell inner)).reached (worlds (cell inner)) n := by
    cases hf with
    | keep hcmd => exact absurd rfl (hcmd event)
    | progress key' nextOffset totalSize _ _ ho =>
      rw [ho, Table.lookup_insert_ite] at hn
      split at hn
      · rename_i hk
        cases hn
        have hok := (h.worker i w hw).1
        have hkey := (hok.take hout).2.1
        have hbacked := h.pending i w hw _ (hout ▸ List.mem_cons_self)
        refine ⟨w.inner, h.worker_task i w hw, ?_, hbacked⟩
        rw [hok.inner, ← hkey, hk]
        rfl
      · exact h.stored key n hn
    | finish _ _ _ _ ho => exact h.stored key n (lookup_of_erase_offset ho hn)
    | stop _ _ _ _ ho => exact h.stored key n (ho ▸ hn)
  exact {
    toOwned := howned
    group_task := hgroups
    worker_task := fun j w' hj => by
      rcases Places.lookup_set.1 hj with ⟨-, -, rfl⟩ | ⟨-, hj⟩
      · exact h.worker_task i w hw
      · exact h.worker_task j w' hj
    stored := hstored
    unopened := fun j hj => h.unopened j (by simpa using hj)
    sound := h.sound
    stands := fun j w' hj => by
      rcases Places.lookup_set.1 hj with ⟨rfl, -, rfl⟩ | ⟨-, hj⟩
      · exact h.stands j w hw
      · exact h.stands j w' hj
    pending := fun j w' hj e he => by
      rcases Places.lookup_set.1 hj with ⟨rfl, -, rfl⟩ | ⟨-, hj⟩
      · exact h.pending j w hw e (hout ▸ List.mem_cons_of_mem _ he)
      · exact h.pending j w' hj e he
    sent_backed := h.sent_backed }

/-- **The loop's part of a run.** -/
theorem Serves.feeds {P : InnerTask → Prop} {ex : TransferTrait (Local W H) A B}
    {fair : InnerTask → DriveAct A B → Prop} (hadmits : Admits ex cell contract fair P)
    (htasks : ∀ inner ∈ tasks, P inner) :
    Feeds (fun sys act => CleanEnqueue sys act ∧ ∀ inner ∈ act.tasks, inner ∈ tasks)
      (fun _ => Serves cell contract worlds slots tasks) where
  frame h _ hsame hw hsent :=
    h.shrink (h.toOwned.frame hsame hw) (fun k g hg => h.group_task k g (hsame.groups ▸ hg))
      (fun k n hn => hsame.offsets ▸ hn) hw hsent
  start hl h ha hg _ := h.start hadmits htasks hl ha hg
  accept := by
    intro sys s' inner callbacks h hc _ hv hg ha ho hlim
    refine h.shrink (h.toOwned.accept (hc.1 hv) hg ha hlim) (fun k g hk => ?_) (fun k n hn => ho ▸ hn) rfl rfl
    rw [hg, Table.lookup_insert_ite] at hk
    split at hk
    · cases hk
      exact hc.2 inner (List.mem_singleton.2 rfl)
    · exact h.group_task k g hk
  cancel := by
    intro sys s' taskId key h _ _ hg ha ho hlim
    exact h.shrink (h.toOwned.cancel hg ha hlim)
      (fun k g hk => h.group_task k g (lookup_of_erase_group hg ha hk).1) (fun k n hn => ho ▸ hn) rfl rfl
  close := by
    intro sys s' activeOrder groupOrder h _ hg ha ho hlim
    refine h.shrink (h.toOwned.close hg ha hlim) (fun k g hk => ?_) (fun k n hn => ?_) rfl rfl
    · rw [hg] at hk
      cases hk
    · rw [ho] at hn
      cases hn
  deliver h htake hf hlim := h.deliver htake hf hlim

/-- A worker that works on the resource of an unsettled one is that one, or has settled. -/
theorem Serves.alone (h : Serves cell contract worlds slots tasks s pool) {P : InnerTask → Prop}
    {ex : TransferTrait (Local W H) A B} {fair : InnerTask → DriveAct A B → Prop}
    (hadmits : Admits ex cell contract fair P) (htasks : ∀ inner ∈ tasks, P inner) {i j : Nat} {w w' : Worker}
    (hw : pool.workers[i]? = some w) (hw' : pool.workers[j]? = some w') (hs : ¬ w.Settled) (hne : j ≠ i)
    (hcell : cell w'.inner = cell w.inner) : w'.Settled := by
  by_contra hs'
  have hkey := hadmits.exclusive w'.inner w.inner (htasks _ (h.worker_task j w' hw'))
    (htasks _ (h.worker_task i w hw)) hcell
  rw [(h.worker j w' hw').1.inner, (h.worker i w hw).1.inner] at hkey
  exact hne (h.single j i w' w hw' hw hs' hs hkey)

/-- A `Progress` is sent where the loop reports it. -/
theorem runStep_progress {key k : UniqueId} {inner : InnerTask} {pc pc' : RunPc} {input : RunIn} {n total : Nat}
    (hok : pc.Ok key) (h : runStep key inner pc input = some (pc', some (.progress k n total))) :
    ∃ done, pc = .report n total done := by
  unfold runStep at h
  split at h
  · cases h
  · cases h
  · cases h
  · obtain ⟨o, -, he⟩ := Option.map_eq_some_iff.1 h
    cases he
  · rename_i done
    cases h
    exact ⟨done, rfl⟩
  · cases h
  · cases h
    -- a last event is none
    cases hok.2
  · cases h

/-- **A step of a worker**: what it makes of its resource, and what it then says of it. -/
theorem Serves.call (h : Serves cell contract worlds slots tasks s pool) {P : InnerTask → Prop}
    {ex : TransferTrait (Local W H) A B} {fair : InnerTask → DriveAct A B → Prop}
    (hadmits : Admits ex cell contract fair P) (htasks : ∀ inner ∈ tasks, P inner) {i : Nat} {w : Worker}
    {a : DriveAct A B} {input : RunIn} {l : Local W H} {pc : RunPc} {out : Option WorkerEvent}
    (hw : pool.workers[i]? = some w) (hfair : fair w.inner a)
    (hcall : w.call ex ⟨worlds (cell w.inner), slots i⟩ a = some (input, l))
    (hs : runStep w.key w.inner w.pc input = some (pc, out)) :
    (contract (cell w.inner)).Since (worlds (cell w.inner)) l.world ∧
      pc.Stands ((contract (cell w.inner)).callInv w.startOffset l.world) l ∧
      ∀ event ∈ out, (contract (cell w.inner)).Backs l.world event := by
  have hinner := htasks _ (h.worker_task i w hw)
  have hok := (h.worker i w hw).1
  rw [← hok.inner] at hs
  obtain ⟨last', hdrive⟩ := Worker.call_drive hcall hs 0 []
  have hgood : Drive.Good
      ((contract (cell w.inner)).callInv w.startOffset (worlds (cell w.inner)))
      (⟨w.inner, w.startOffset, w.pc, ⟨worlds (cell w.inner), slots i⟩, 0, []⟩ : Drive (Local W H)) :=
    ⟨.refl (h.sound _), h.stands i w hw, fun _ _ hm => absurd hm List.not_mem_nil⟩
  obtain ⟨hgood', -, -⟩ :=
    hgood.step ((hadmits.honours w.inner hinner).keeps w.startOffset (worlds (cell w.inner))) hfair hdrive
  refine ⟨hgood'.always, ?_, fun event he => ?_⟩
  · -- the base of a contract plays no part in where a worker stands
    exact hgood'.stands
  · obtain rfl := he
    cases event with
    | completed key total =>
      exact hgood'.completed key total (by simp)
    | failed | canceled => exact trivial
    | progress key nextOffset total =>
      obtain ⟨done, hpc⟩ := runStep_progress (hok.inner.symm ▸ hok.pc) hs
      have hstands := h.stands i w hw
      rw [hpc] at hstands
      exact hgood'.always.reached nextOffset
        ((contract (cell w.inner)).between_reached nextOffset total _ hstands.1)

/-- Every resource is what it was, or what the call made of it. -/
theorem Serves.since [DecidableEq K] (h : Serves cell contract worlds slots tasks s pool) {w : Worker}
    {l : Local W H} (hown : (contract (cell w.inner)).Since (worlds (cell w.inner)) l.world) (c : K) :
    (contract c).Since (worlds c) (Function.update worlds (cell w.inner) l.world c) := by
  by_cases hc : c = cell w.inner
  · rw [hc, Function.update_self]
    exact hown
  · rw [Function.update_of_ne hc]
    exact .refl (h.sound c)

theorem Serves.work [DecidableEq K] (h : Serves cell contract worlds slots tasks s pool) {P : InnerTask → Prop}
    {ex : TransferTrait (Local W H) A B} {fair : InnerTask → DriveAct A B → Prop}
    (hadmits : Admits ex cell contract fair P) (htasks : ∀ inner ∈ tasks, P inner) {i : Nat} {w : Worker}
    {a : DriveAct A B} {input : RunIn} {l : Local W H} (hw : pool.workers[i]? = some w) (hfair : fair w.inner a)
    (hcall : w.call ex ⟨worlds (cell w.inner), slots i⟩ a = some (input, l))
    (hwork : pool.work i input = some pool') :
    Serves cell contract (Function.update worlds (cell w.inner) l.world) (Function.update slots i l.slot) tasks s
      pool' := by
  have howned := h.toOwned.work .of_settled hwork
  obtain ⟨w0, pc, out, hw0, -, hs, rfl⟩ := Pool.work_eq_some.1 hwork
  obtain rfl : w0 = w := Option.some.inj (hw0.symm.trans hw)
  obtain ⟨hown, hstands, hout⟩ := h.call hadmits htasks hw hfair hcall hs
  have hrun : ¬ w0.Settled := fun hset => ((h.worker i w0 hw).1.work hs).2.1 hset.1
  have hsince := h.since hown
  have hother (j : Nat) (w' : Worker) (hne : j ≠ i) (hj : pool.workers[j]? = some w') (hs' : ¬ w'.Settled) :
      Function.update worlds (cell w0.inner) l.world (cell w'.inner) = worlds (cell w'.inner) :=
    Function.update_of_ne (fun hc => hs' (h.alone hadmits htasks hw hj hrun hne hc)) _ _
  exact {
    toOwned := howned
    group_task := h.group_task
    worker_task := fun j w' hj => by
      rcases Places.lookup_set.1 hj with ⟨-, -, rfl⟩ | ⟨-, hj⟩
      · exact h.worker_task i w0 hw
      · exact h.worker_task j w' hj
    stored := fun key n hn => by
      obtain ⟨inner, hmem, hkey, hreached⟩ := h.stored key n hn
      exact ⟨inner, hmem, hkey, (hsince _).reached n hreached⟩
    unopened := fun j hj => by
      have hlen : pool.workers.length ≤ j := by simpa using hj
      have hi := (List.getElem?_eq_some_iff.1 hw).1
      rw [Function.update_of_ne (by omega)]
      exact h.unopened j hlen
    sound := fun c => (hsince c).sound
    stands := fun j w' hj => by
      rcases Places.lookup_set.1 hj with ⟨rfl, -, rfl⟩ | ⟨hne, hj⟩
      · simp only [Function.update_self]
        exact hstands
      · by_cases hs' : w'.Settled
        · rw [hs'.1]
          exact trivial
        · rw [hother j w' hne hj hs', Function.update_of_ne hne]
          exact h.stands j w' hj
    pending := fun j w' hj e he => by
      rcases Places.lookup_set.1 hj with ⟨rfl, -, rfl⟩ | ⟨hne, hj⟩
      · simp only [Function.update_self]
        rcases List.mem_append.1 he with he | he
        · exact hown.backs (h.pending j w0 hw e he)
        · exact hout e (Option.mem_toList.1 he)
      · exact (hsince _).backs (h.pending j w' hj e he)
    sent_backed := fun m hm => by
      rcases List.mem_append.1 hm with hm | hm
      · obtain ⟨inner, hmem, hid, hbacks⟩ := h.sent_backed m hm
        exact ⟨inner, hmem, hid, (hsince _).backs hbacks⟩
      · obtain ⟨e, he, rfl⟩ := List.mem_map.1 hm
        refine ⟨w0.inner, h.worker_task i w0 hw, rfl, ?_⟩
        rw [Function.update_self]
        exact hout e (Option.mem_toList.1 he) }

/-- More tasks may be enqueued. -/
theorem Serves.more {tasks' : List InnerTask} (h : Serves cell contract worlds slots tasks s pool)
    (hsub : ∀ inner ∈ tasks, inner ∈ tasks') : Serves cell contract worlds slots tasks' s pool where
  toOwned := h.toOwned
  group_task := fun k g hg => hsub _ (h.group_task k g hg)
  worker_task := fun i w hw => hsub _ (h.worker_task i w hw)
  stored := fun key n hn => by
    obtain ⟨inner, hmem, hrest⟩ := h.stored key n hn
    exact ⟨inner, hsub _ hmem, hrest⟩
  unopened := h.unopened
  sound := h.sound
  stands := h.stands
  pending := h.pending
  sent_backed := fun m hm => by
    obtain ⟨inner, hmem, hrest⟩ := h.sent_backed m hm
    exact ⟨inner, hsub _ hmem, hrest⟩

end

/-! ## Whole runs -/

namespace Fleet

/-- What holds of a fleet at any time, where `P` says which tasks are enqueued. -/
structure Sound {K W H : Type} (cell : InnerTask → K) (contract : K → Contract W H) (P : InnerTask → Prop)
    (fl : Fleet K W H) : Prop where
  loop : LoopInv fl.sys.loop
  serves : Serves cell contract fl.worlds fl.slots fl.tasks fl.sys.loop.state fl.sys.pool
  admitted : ∀ inner ∈ fl.tasks, P inner
  ids : fl.tasks.map InnerTask.taskId = fl.sys.loop.issued
  ids_nodup : fl.sys.loop.issued.Nodup
  complete : ∀ e ∈ fl.sys.loop.log, ∀ dto, e.record = some dto → dto.status = .complete →
    ∃ inner ∈ fl.tasks, inner.taskId = dto.taskId ∧ (contract (cell inner)).whole (fl.worlds (cell inner))

variable {K W H A B : Type} {ex : TransferTrait (Local W H) A B} {cell : InnerTask → K}
  {contract : K → Contract W H} {fair : InnerTask → DriveAct A B → Prop} {P : InnerTask → Prop}
  {fl fl' : Fleet K W H}

theorem Sound.init (maxUpload maxDownload : Nat) {worlds : K → W}
    (hworlds : ∀ c, (contract c).sound (worlds c)) :
    Sound cell contract P (Fleet.init maxUpload maxDownload worlds : Fleet K W H) where
  loop := .init maxUpload maxDownload
  serves := {
    toOwned := .init Worker.Settled maxUpload maxDownload
    group_task := fun k g hg => nomatch hg
    worker_task := fun i w hw => by simp [Fleet.init, Sys.init] at hw
    stored := fun key n hn => nomatch hn
    unopened := fun _ _ => rfl
    sound := hworlds
    stands := fun i w hw => by simp [Fleet.init, Sys.init] at hw
    pending := fun i w hw => by simp [Fleet.init, Sys.init] at hw
    sent_backed := fun m hm => by simp [Fleet.init, Sys.init] at hm }
  admitted := fun inner hmem => absurd hmem List.not_mem_nil
  ids := rfl
  ids_nodup := List.nodup_nil
  complete := fun e he => by simp [Fleet.init, Sys.init, Loop.init] at he

theorem issues_tasks (act : Act) : act.issues = act.tasks.map InnerTask.taskId := by
  cases act with
  | cmd c => cases c <;> rfl
  | listen | deliver | work => rfl

/-- No id names two tasks. -/
theorem Sound.task_unique (h : fl.Sound cell contract P) {inner inner' : InnerTask} (hi : inner ∈ fl.tasks)
    (hi' : inner' ∈ fl.tasks) (hid : inner.taskId = inner'.taskId) : inner = inner' :=
  List.inj_on_of_nodup_map (h.ids.symm ▸ h.ids_nodup) hi hi' hid

/-- An event in the channel speaks of the task that holds its key. -/
theorem Sound.take (h : fl.Sound cell contract P) {i : Nat} {event : WorkerEvent} {pool : Pool}
    (htake : fl.sys.pool.take i = some (event, pool)) {group : GroupState}
    (hg : fl.sys.loop.state.groups.lookup event.key = some group) :
    group.entry.inner ∈ fl.tasks ∧
      (contract (cell group.entry.inner)).Backs (fl.worlds (cell group.entry.inner)) event := by
  obtain ⟨w, rest, hw, hout, -⟩ := Pool.take_eq_some.1 htake
  have hs : ¬ w.Settled := Worker.not_settled hout
  have hkey := ((h.serves.worker i w hw).1.take hout).2.1
  have hleader := (h.serves.own i w group hw hs (hkey ▸ hg)).2
  rw [h.loop.inv.entry_inner _ group hg, hleader]
  exact ⟨h.serves.worker_task i w hw, h.serves.pending i w hw event (hout ▸ List.mem_cons_self)⟩

theorem Sound.sched (hadmits : Admits ex cell contract fair P) (h : fl.Sound cell contract P) {act : Act}
    {sys : Sys} (hwork : act.isWork = false) (hclean : CleanEnqueue fl.sys act)
    (hP : ∀ inner ∈ act.tasks, P inner) (hs : fl.sys.step act = some sys) :
    Sound cell contract P { fl with sys := sys, tasks := fl.tasks ++ act.tasks } := by
  have hadmitted : ∀ inner ∈ fl.tasks ++ act.tasks, P inner := by
    intro inner hmem
    rcases List.mem_append.1 hmem with hmem | hmem
    · exact h.admitted inner hmem
    · exact hP inner hmem
  have hserves : Serves cell contract fl.worlds fl.slots (fl.tasks ++ act.tasks) fl.sys.loop.state fl.sys.pool :=
    h.serves.more fun inner => List.mem_append_left _
  obtain ⟨hissued, hfresh⟩ := Sys.step_issued hs
  obtain ⟨input, pool, hin, hfeed⟩ | ⟨i, input, pool, rfl, -, -⟩ := Sys.step_cases hs
  · obtain ⟨hloop, hserves'⟩ := (Serves.feeds hadmits hadmitted).feed ⟨h.loop, hserves⟩
      ⟨hclean, fun inner => List.mem_append_right _⟩ hin hfeed
    refine ⟨hloop, hserves', hadmitted, ?_, ?_, fun e he dto hdto hcomplete => ?_⟩
    · rw [hissued, List.map_append, h.ids, issues_tasks]
    · rw [hissued]
      refine h.ids_nodup.append ?_ fun id hid hid' => hfresh id hid' hid
      rw [issues_tasks]
      unfold Act.tasks
      split <;> simp
    · obtain ⟨hstep, -⟩ := Sys.feed_eq_some.1 hfeed
      obtain ⟨-, -, hlog⟩ := Loop.step_eq_some.1 hstep
      simp only [hlog] at he
      rcases List.mem_append.1 he with he | he
      · obtain ⟨inner, hmem, hrest⟩ := h.complete e he dto hdto hcomplete
        exact ⟨inner, List.mem_append_left _ hmem, hrest⟩
      · obtain ⟨key, total, group, rfl, hg, rfl⟩ := react_complete he hdto hcomplete
        cases act with
        | cmd | listen => cases hin
        | work => cases hwork
        | deliver i =>
          obtain ⟨⟨event, pool'⟩, htake, heq⟩ := Option.map_eq_some_iff.1 hin
          cases heq
          obtain ⟨hmem, hwhole⟩ := h.take htake hg
          exact ⟨group.entry.inner, List.mem_append_left _ hmem, rfl, hwhole⟩
  · cases hwork

/-- **One step of the fleet.** -/
theorem Sound.step [DecidableEq K] (hadmits : Admits ex cell contract fair P) (h : fl.Sound cell contract P)
    {fa : FleetAct A B} (hterms : Terms fair P fl fa) (hs : fl.step ex cell fa = some fl') :
    fl'.Sound cell contract P := by
  cases fa with
  | sched act =>
    obtain ⟨hwork, sys, hsys, rfl⟩ := step_sched hs
    exact h.sched hadmits hwork hterms.1 hterms.2 hsys
  | work i a =>
    obtain ⟨w, input, l, sys, hw, hcall, hsys, rfl⟩ := step_work hs
    obtain ⟨pool, hwork, rfl⟩ := Option.map_eq_some_iff.1 hsys
    have hserves := h.serves.work hadmits h.admitted hw (hterms w hw) hcall hwork
    obtain ⟨w0, pc, out, hw0, -, hrun, -⟩ := Pool.work_eq_some.1 hwork
    obtain rfl : w0 = w := Option.some.inj (hw0.symm.trans hw)
    obtain ⟨hown, -, -⟩ := h.serves.call hadmits h.admitted hw (hterms w0 hw) hcall hrun
    refine ⟨h.loop, hserves, h.admitted, h.ids, h.ids_nodup, fun e he dto hdto hcomplete => ?_⟩
    obtain ⟨inner, hmem, hid, hwhole⟩ := h.complete e he dto hdto hcomplete
    exact ⟨inner, hmem, hid, (h.serves.since hown _).whole hwhole⟩

/-- **A whole run.** -/
theorem Sound.run [DecidableEq K] (hadmits : Admits ex cell contract fair P) {maxUpload maxDownload : Nat}
    {worlds : K → W} (hworlds : ∀ c, (contract c).sound (worlds c)) {acts : List (FleetAct A B)}
    (hrun : Lts.run (Fleet.step ex cell) (Fleet.init maxUpload maxDownload worlds) acts = some fl)
    (hterms : Lts.Meets (Fleet.step ex cell) (Terms fair P) (Fleet.init maxUpload maxDownload worlds) acts) :
    fl.Sound cell contract P :=
  Lts.run_invariant_of_meets (fun _ _ _ hi hc hs => hi.step hadmits hc hs)
    (Sound.init maxUpload maxDownload hworlds) hterms hrun

/-- **What the callers are told is so**: of the task that it is told of, a `Progress` has that many bytes through,
and a `Complete` all of them, from then on. -/
theorem Sound.told (h : fl.Sound cell contract P) {inner : InnerTask} (hinner : inner ∈ fl.tasks) :
    (contract (cell inner)).sound (fl.worlds (cell inner)) ∧
      (∀ key n total, (inner.taskId, .progress key n total) ∈ fl.sys.pool.sent →
        (contract (cell inner)).reached (fl.worlds (cell inner)) n) ∧
      ∀ e ∈ fl.sys.loop.log, ∀ dto, e.record = some dto → dto.taskId = inner.taskId →
        dto.status = .complete → (contract (cell inner)).whole (fl.worlds (cell inner)) := by
  refine ⟨h.serves.sound _, fun key n total hm => ?_, fun e he dto hdto hid hcomplete => ?_⟩
  · obtain ⟨inner', hmem, hid, hbacks⟩ := h.serves.sent_backed _ hm
    obtain rfl := h.task_unique hmem hinner hid
    exact hbacks
  · obtain ⟨inner', hmem, hid', hwhole⟩ := h.complete e he dto hdto hcomplete
    obtain rfl := h.task_unique hmem hinner (hid'.trans hid)
    exact hwhole

end Fleet

end SpottedCat
