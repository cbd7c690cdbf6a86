import SpottedCat.Sched.Board
import SpottedCat.Sched.Lifecycle

/-!
# Uploads and downloads do not interfere

The two directions share one queue, one loop and one channel. `try_start_next` steps over a key whose direction is
full (exec.rs:30-66), and nothing else looks at a key of the other direction. So what the tasks of one direction
see is what they would see alone, whatever the limit of the other direction is:

| of the run             | alone |
| ---------------------- | --- |
| a board                | its keys of the direction, with their offsets (`Board.only`) |
| an input               | the same, if it is about the direction (`LoopInput.only`); a `Close` lists those keys only |
| what is told, answered, started | the same record, answer, task and offset, if it is about the direction (`Output.isOf`) |

A command is about the direction of the task whose id it carries, also before that task comes and after it has
gone. Snapshots count both directions, and are left out.
-/

namespace SpottedCat

open Admission

def Board.only (d : Direction) (b : Board) : Board where
  job k := if k.1 = d then b.job k else none
  line := b.line.filter fun k => k.1 = d
  offset k := if k.1 = d then b.offset k else none

/-- The ids of the tasks of one direction. -/
def idsOf (d : Direction) (inputs : List LoopInput) : List TaskId :=
  inputs.filterMap fun
    | .cmd (.enqueue inner _) => if inner.direction = d then some inner.taskId else none
    | _ => none

def LoopInput.only (d : Direction) (ids : List TaskId) : LoopInput → Option LoopInput
  | .cmd (.enqueue inner callbacks) => if inner.direction = d then some (.cmd (.enqueue inner callbacks)) else none
  | .cmd (.pause id) => if id ∈ ids then some (.cmd (.pause id)) else none
  | .cmd (.resume id) => if id ∈ ids then some (.cmd (.resume id)) else none
  | .cmd (.cancel id) => if id ∈ ids then some (.cmd (.cancel id)) else none
  | .cmd .snapshot => none
  | .cmd (.close activeOrder groupOrder) =>
    some (.cmd (.close (activeOrder.filter fun k => k.1 = d) (groupOrder.filter fun k => k.1 = d)))
  | .event ev => if ev.key.1 = d then some (.event ev) else none
  | .listen op => some (.listen op)

def Output.isOf (d : Direction) (ids : List TaskId) : Output → Bool
  | .told _ dto => dto.direction = d
  | .answered (some id) _ => id ∈ ids
  | .answered none _ => true
  | .counted .. => false
  | .started key _ _ => key.1 = d

/-- The tasks of a board go in the direction of their keys. -/
def Board.Sided (b : Board) : Prop :=
  ∀ k j, b.job k = some j → j.group.leaderInner.direction = k.1 ∧ j.group.entry.inner.direction = k.1

/-- No two tasks have one id. -/
def Board.Single (b : Board) : Prop :=
  ∀ k k' j j', b.job k = some j → b.job k' = some j' →
    j.group.leaderInner.taskId = j'.group.leaderInner.taskId → k = k'

section
variable {d : Direction} {ids : List TaskId} {b b' : Board} {key k : UniqueId} {limit limit' : Direction → Nat}

theorem only_job_of (h : k.1 = d) : (b.only d).job k = b.job k := if_pos h

theorem only_job_of_ne (h : k.1 ≠ d) : (b.only d).job k = none := if_neg h

theorem only_current (h : k.1 = d) : (b.only d).current k = b.current k :=
  congrArg (Option.getD · 0) (if_pos h)

/-- Board and outputs of one direction. -/
def onlyOf (d : Direction) (ids : List TaskId) (x : Board × List Output) : Board × List Output :=
  (x.1.only d, x.2.filter (Output.isOf d ids))

/-! ## What one key is told -/

theorem toldTo_isOf (callbacks : TaskCallbacks) (inner : InnerTask) (status : TransferStatus)
    (transferred total : Nat) :
    (Board.toldTo callbacks inner status transferred total).filter (Output.isOf d ids) =
      if inner.direction = d then Board.toldTo callbacks inner status transferred total else [] := by
  unfold Board.toldTo
  cases callbacks.progressCb with
  | none => simp
  | some cb =>
    by_cases hd : inner.direction = d <;> simp [Output.isOf, toRecordInner, hd]

theorem Board.Sided.tell_isOf (h : b.Sided) (k : UniqueId) (status : TransferStatus) (transferred : Nat)
    (total : GroupState → Nat) : (b.tell k status transferred total).filter (Output.isOf d ids) =
      (b.only d).tell k status transferred total := by
  unfold Board.tell
  by_cases hk : k.1 = d
  · rw [only_job_of hk]
    cases hj : b.job k with
    | none => rfl
    | some j =>
      have hside := (h k j hj).2
      simp only [toldTo_isOf, hside, hk, if_true]
  · rw [only_job_of_ne hk]
    cases hj : b.job k with
    | none => rfl
    | some j =>
      have hside := (h k j hj).2
      simp only [toldTo_isOf, hside, hk, if_false]

theorem tell_only_of_ne (h : k.1 ≠ d) (status : TransferStatus) (transferred : Nat) (total : GroupState → Nat) :
    (b.only d).tell k status transferred total = [] := by
  rw [Board.tell, only_job_of_ne h]

theorem Board.Sided.report_isOf (h : b.Sided) (k : UniqueId) (status : TransferStatus) :
    (b.report k status).filter (Output.isOf d ids) = (b.only d).report k status := by
  rw [Board.report, h.tell_isOf, Board.report]
  by_cases hk : k.1 = d
  · rw [only_current hk]
  · rw [tell_only_of_ne hk, tell_only_of_ne hk]

theorem report_only_of_ne (h : k.1 ≠ d) (status : TransferStatus) : (b.only d).report k status = [] :=
  tell_only_of_ne h _ _ _

theorem start_isOf (k : UniqueId) : (b.start k).filter (Output.isOf d ids) = (b.only d).start k := by
  unfold Board.start
  by_cases hk : k.1 = d
  · rw [only_job_of hk, only_current hk]
    cases b.job k <;> simp [Output.isOf, hk]
  · rw [only_job_of_ne hk]
    cases b.job k <;> simp [Output.isOf, hk]

theorem start_only_of_ne (h : k.1 ≠ d) : (b.only d).start k = [] := by
  rw [Board.start, only_job_of_ne h]
  rfl

/-! ## Admission -/

theorem flatMap_of_filter {α β : Type} {p : α → Prop} [DecidablePred p] {f g : α → List β} (l : List α)
    (hp : ∀ a, p a → f a = g a) (hn : ∀ a, ¬ p a → f a = []) : l.flatMap f = (l.filter p).flatMap g := by
  induction l with
  | nil => rfl
  | cons a l ih =>
    by_cases ha : p a
    · rw [List.filter_cons_of_pos (by simpa using ha), List.flatMap_cons, List.flatMap_cons, ih, hp a ha]
    · rw [List.filter_cons_of_neg (by simpa using ha), List.flatMap_cons, ih, hn a ha, List.nil_append]

theorem free_only (hlimit : limit d = limit' d) : b.free limit d = (b.only d).free limit' d := by
  have hholding : {k ∈ (b.only d).holding | k.1 = d} = {k ∈ b.holding | k.1 = d} := by
    ext k
    constructor
    · rintro ⟨⟨j, hj, hslot⟩, hk⟩
      rw [only_job_of hk] at hj
      exact ⟨⟨j, hj, hslot⟩, hk⟩
    · rintro ⟨⟨j, hj, hslot⟩, hk⟩
      rw [← only_job_of hk] at hj
      exact ⟨⟨j, hj, hslot⟩, hk⟩
  rw [Board.free, Board.free, hholding, hlimit]

theorem admitted_only (hlimit : limit d = limit' d) :
    (b.admitted limit).filter (fun k => k.1 = d) = (b.only d).admitted limit' :=
  started_class (free_only hlimit)

/-- **Admission of one direction** is the same with the other and without. -/
theorem onlyOf_refill {os : List Output} (h : b.Sided) (hlimit : limit d = limit' d) :
    onlyOf d ids (Board.refill limit (b, os)) =
      Board.refill limit' (b.only d, os.filter (Output.isOf d ids)) := by
  have hadmitted := @admitted_only d b limit limit' hlimit
  refine Prod.ext (Board.eq_of_fields (fun k => ?_) ?_ fun _ => rfl) ?_
  · by_cases hk : k.1 = d
    · have hmem : k ∈ (b.only d).admitted limit' ↔ k ∈ b.admitted limit := by
        rw [← hadmitted, List.mem_filter]
        simp [hk]
      simp only [onlyOf, Board.refill, only_job_of hk]
      by_cases hin : k ∈ b.admitted limit
      · simp only [hin, hmem.2 hin, if_true]
      · simp only [hin, mt hmem.1 hin, if_false]
    · simp only [onlyOf, Board.refill, only_job_of_ne hk, Option.map_none]
  · exact kept_class (free_only hlimit)
  · show List.filter _ (os ++ _) = os.filter _ ++ (Board.admitted limit' (b.only d)).flatMap _
    rw [List.filter_append, List.filter_flatMap, ← hadmitted]
    congr 1
    apply flatMap_of_filter
    · intro k _
      rw [List.filter_append, h.report_isOf, start_isOf]
    · intro k hk
      rw [List.filter_append, h.report_isOf, start_isOf, report_only_of_ne hk, start_only_of_ne hk, List.append_nil]

/-- Where nobody waits beside a free slot there is nothing to admit. -/
theorem refill_full {os : List Output} (h : ∀ k ∈ b.line, b.free limit k.1 = 0) :
    Board.refill limit (b, os) = (b, os) := by
  have hadmitted : b.admitted limit = [] := by
    rw [Board.admitted, List.eq_nil_iff_forall_not_mem]
    intro k hk
    have hpos := free_pos_of_started hk
    have hzero := h k (started_sublist.subset hk)
    omega
  refine Prod.ext (Board.eq_of_fields (fun k => ?_) ?_ fun _ => rfl) ?_
  · simp [Board.refill, hadmitted]
  · exact kept_full h
  · simp [Board.refill, hadmitted]

theorem Board.Orderly.refill_only (h : b.Orderly limit) (hlimit : limit d = limit' d) (os : List Output) :
    Board.refill limit' (b.only d, os) = (b.only d, os) := by
  apply refill_full
  intro k hk
  obtain ⟨hline, hside⟩ := List.mem_filter.1 hk
  have hside : k.1 = d := by simpa using hside
  have hfull := h.full k hline
  rw [hside, ← free_only hlimit, Board.free, ← hside, hfull, Nat.sub_self]

/-! ## Edits of one key -/

theorem only_alter (h : key.1 = d) (f : Mode → Mode) : (b.alter key f).only d = (b.only d).alter key f := by
  refine Board.eq_of_fields (fun k => ?_) rfl fun _ => rfl
  simp only [Board.only, Board.alter, Function.update_apply]
  by_cases hk : k = key
  · simp [hk, h]
  · simp [hk]

theorem only_alter_ne (h : key.1 ≠ d) (f : Mode → Mode) : (b.alter key f).only d = b.only d := by
  refine Board.eq_of_fields (fun k => ?_) rfl fun _ => rfl
  simp only [Board.only, Board.alter, Function.update_apply]
  by_cases hk : k = key
  · simp [hk, h]
  · simp [hk]

theorem only_quit : (b.quit key).only d = (b.only d).quit key := by
  refine Board.eq_of_fields (fun _ => rfl) ?_ fun _ => rfl
  simp only [Board.only, Board.quit, List.filter_filter, Bool.and_comm]

theorem quit_only_ne (h : key.1 ≠ d) : (b.only d).quit key = b.only d := by
  refine Board.eq_of_fields (fun _ => rfl) ?_ fun _ => rfl
  apply List.filter_eq_self.2
  intro k hk
  have hside := (List.mem_filter.1 hk).2
  simp only [decide_eq_true_eq] at hside ⊢
  intro heq
  exact h (heq ▸ hside)

theorem only_join (h : key.1 = d) : (b.join key).only d = (b.only d).join key := by
  refine Board.eq_of_fields (fun _ => rfl) ?_ fun _ => rfl
  simp [Board.only, Board.join, List.filter_append, h]

theorem only_join_ne (h : key.1 ≠ d) : (b.join key).only d = b.only d := by
  refine Board.eq_of_fields (fun _ => rfl) ?_ fun _ => rfl
  simp [Board.only, Board.join, List.filter_append, h]

theorem only_drop : (b.drop key).only d = (b.only d).drop key := by
  refine Board.eq_of_fields (fun k => ?_) ?_ fun _ => rfl
  · simp only [Board.only, Board.drop, Board.quit, Function.update_apply]
    by_cases hk : k = key
    · simp [hk]
    · simp [hk]
  · have hline := congrArg Board.line (@only_quit d b key)
    exact hline

theorem only_drop_ne (h : key.1 ≠ d) : (b.drop key).only d = b.only d := by
  refine Board.eq_of_fields (fun k => ?_) ?_ fun _ => rfl
  · simp only [Board.only, Board.drop, Board.quit, Function.update_apply]
    by_cases hk : k = key
    · simp [hk, h]
    · simp [hk]
  · have hline := congrArg Board.line ((@only_quit d b key).trans (quit_only_ne h))
    exact hline

theorem only_setOffset (h : key.1 = d) (offset : Option Nat) :
    (b.setOffset key offset).only d = (b.only d).setOffset key offset := by
  refine Board.eq_of_fields (fun _ => rfl) rfl fun k => ?_
  rw [Board.setOffset_offset]
  simp only [Board.only, Board.setOffset_offset]
  by_cases hk : k = key
  · simp [hk, h]
  · simp [hk]

theorem only_setOffset_ne (h : key.1 ≠ d) (offset : Option Nat) : (b.setOffset key offset).only d = b.only d := by
  refine Board.eq_of_fields (fun _ => rfl) rfl fun k => ?_
  simp only [Board.only, Board.setOffset_offset]
  by_cases hk : k = key
  · simp [hk, h]
  · simp [hk]

theorem dedupeKey_fst (inner : InnerTask) : inner.dedupeKey.1 = inner.direction := by
  unfold InnerTask.dedupeKey
  cases hd : inner.direction <;> simp

theorem only_add {inner : InnerTask} (h : inner.direction = d) (callbacks : TaskCallbacks) :
    (b.add inner callbacks).only d = (b.only d).add inner callbacks := by
  have hkey : inner.dedupeKey.1 = d := (dedupeKey_fst inner).trans h
  refine Board.eq_of_fields (fun k => ?_) ?_ fun _ => rfl
  · simp only [Board.only, Board.add, Board.join, Function.update_apply]
    by_cases hk : k = inner.dedupeKey
    · simp [hk, hkey]
    · simp [hk]
  · have hline := congrArg Board.line (@only_join d b inner.dedupeKey hkey)
    exact hline

theorem only_add_ne {inner : InnerTask} (h : inner.direction ≠ d) (callbacks : TaskCallbacks) :
    (b.add inner callbacks).only d = b.only d := by
  have hkey : inner.dedupeKey.1 ≠ d := fun heq => h ((dedupeKey_fst inner).symm.trans heq)
  refine Board.eq_of_fields (fun k => ?_) ?_ fun _ => rfl
  · simp only [Board.only, Board.add, Board.join, Function.update_apply]
    by_cases hk : k = inner.dedupeKey
    · simp [hk, hkey]
    · simp [hk]
  · have hline := congrArg Board.line (@only_join_ne d b inner.dedupeKey hkey)
    exact hline

theorem Board.Sided.alter (h : b.Sided) (f : Mode → Mode) : (b.alter key f).Sided := by
  intro k j hj
  simp only [Board.alter, Function.update_apply] at hj
  split at hj
  · rename_i hk
    obtain ⟨j0, hj0, rfl⟩ := Option.map_eq_some_iff.1 hj
    exact h k j0 (hk ▸ hj0)
  · exact h k j hj

theorem Board.Sided.quit (h : b.Sided) : (b.quit key).Sided := h

theorem Board.Sided.join (h : b.Sided) : (b.join key).Sided := h

theorem Board.Sided.setOffset (h : b.Sided) (offset : Option Nat) : (b.setOffset key offset).Sided := h

theorem Board.Sided.drop (h : b.Sided) : (b.drop key).Sided := by
  intro k j hj
  simp only [Board.drop, Board.quit, Function.update_apply] at hj
  split at hj
  · cases hj
  · exact h k j hj

theorem Board.Sided.add (h : b.Sided) (inner : InnerTask) (callbacks : TaskCallbacks) :
    (b.add inner callbacks).Sided := by
  intro k j hj
  simp only [Board.add, Board.join, Function.update_apply] at hj
  split at hj
  · rename_i hk
    cases hj
    rw [hk, dedupeKey_fst]
    exact ⟨rfl, rfl⟩
  · exact h k j hj

/-! ## Ids -/

theorem Board.Single.find_eq_some (h : b.Single) {id : TaskId} :
    b.find id = some k ↔ ∃ j, b.job k = some j ∧ j.group.leaderInner.taskId = id := by
  unfold Board.find
  split
  · rename_i hex
    obtain ⟨j, hj, hid⟩ := hex.choose_spec
    constructor
    · intro hk
      cases hk
      exact ⟨j, hj, hid⟩
    · rintro ⟨j', hj', hid'⟩
      rw [h _ _ j j' hj hj' (hid.trans hid'.symm)]
  · rename_i hnone
    simp only [reduceCtorEq, false_iff]
    rintro ⟨j, hj, hid⟩
    exact hnone ⟨k, j, hj, hid⟩

theorem Board.Single.only (h : b.Single) : (b.only d).Single := by
  intro k k' j j' hj hj' hid
  by_cases hk : k.1 = d
  · by_cases hk' : k'.1 = d
    · rw [only_job_of hk] at hj
      rw [only_job_of hk'] at hj'
      exact h k k' j j' hj hj' hid
    · rw [only_job_of_ne hk'] at hj'
      cases hj'
  · rw [only_job_of_ne hk] at hj
    cases hj

theorem Board.Single.find_only (h : b.Single) {id : TaskId} (hk : b.find id = some k) (hside : k.1 = d) :
    (b.only d).find id = some k := by
  rw [h.find_eq_some] at hk
  rw [h.only.find_eq_some, only_job_of hside]
  exact hk

theorem Board.Single.find_only_none (h : b.Single) {id : TaskId} (hk : b.find id = none) :
    (b.only d).find id = none := by
  rw [Option.eq_none_iff_forall_ne_some]
  intro k hfind
  obtain ⟨j, hj, hid⟩ := h.only.find_eq_some.1 hfind
  by_cases hside : k.1 = d
  · rw [only_job_of hside] at hj
    rw [h.find_eq_some.2 ⟨j, hj, hid⟩] at hk
    cases hk
  · rw [only_job_of_ne hside] at hj
    cases hj

/-! ## One input -/

/-- What a step needs to know of the board. -/
structure Board.Parted (d : Direction) (ids : List TaskId) (limit : Direction → Nat) (b : Board) : Prop where
  sided : b.Sided
  single : b.Single
  ids : ∀ k j, b.job k = some j → (j.group.leaderInner.taskId ∈ ids ↔ k.1 = d)
  orderly : b.Orderly limit

theorem mode_only (h : key.1 = d) : (b.only d).mode key = b.mode key := by
  rw [Board.mode, Board.mode, only_job_of h]

theorem Board.Parted.hear (h : b.Parted d ids limit) (hlimit : limit d = limit' d) {event : WorkerEvent}
    (hside : event.key.1 = d) : onlyOf d ids (b.hear limit event) = (b.only d).hear limit' event := by
  have hended : ((b.drop event.key).setOffset event.key none).only d =
      ((b.only d).drop event.key).setOffset event.key none := by
    rw [only_setOffset hside, only_drop]
  cases event with
  | progress key nextOffset totalSize =>
    rw [Board.hear, onlyOf, h.sided.tell_isOf]
    exact congrArg (·, _) (only_setOffset hside _)
  | completed key totalSize =>
    rw [Board.hear, onlyOf_refill (h.sided.drop.setOffset _) hlimit, h.sided.tell_isOf]
    exact congrArg (fun b' => Board.refill limit' (b', _)) hended
  | failed key error =>
    rw [Board.hear, onlyOf_refill (h.sided.drop.setOffset _) hlimit, h.sided.report_isOf]
    exact congrArg (fun b' => Board.refill limit' (b', _)) hended
  | canceled key =>
    have hside : key.1 = d := hside
    simp only [Board.hear, mode_only hside]
    split
    · rw [onlyOf_refill (h.sided.alter _) hlimit, only_alter hside]
      rfl
    · rw [onlyOf_refill (h.sided.alter _) hlimit, only_alter hside]
      rfl
    · rw [onlyOf_refill (h.sided.drop.setOffset _) hlimit, h.sided.report_isOf]
      exact congrArg (fun b' => Board.refill limit' (b', _)) hended

theorem Board.Parted.hear_ne (h : b.Parted d ids limit) {event : WorkerEvent} (hside : event.key.1 ≠ d) :
    onlyOf d ids (b.hear limit event) = (b.only d, []) := by
  have hrefill := h.orderly.refill_only (d := d) rfl []
  have hended : ((b.drop event.key).setOffset event.key none).only d = b.only d := by
    rw [only_setOffset_ne hside, only_drop_ne hside]
  cases event with
  | progress key nextOffset totalSize =>
    have hside : key.1 ≠ d := hside
    rw [Board.hear, onlyOf, h.sided.tell_isOf, tell_only_of_ne hside, only_setOffset_ne hside]
  | completed key totalSize =>
    simp only [WorkerEvent.key] at hside hended
    rw [Board.hear, onlyOf_refill (h.sided.drop.setOffset _) rfl, h.sided.tell_isOf, tell_only_of_ne hside, hended,
      hrefill]
  | failed key error =>
    simp only [WorkerEvent.key] at hside hended
    rw [Board.hear, onlyOf_refill (h.sided.drop.setOffset _) rfl, h.sided.report_isOf, report_only_of_ne hside, hended,
      hrefill]
  | canceled key =>
    simp only [WorkerEvent.key] at hside hended
    simp only [Board.hear]
    split
    · rw [onlyOf_refill (h.sided.alter _) rfl, only_alter_ne hside]
      exact hrefill
    · rw [onlyOf_refill (h.sided.alter _) rfl, only_alter_ne hside]
      exact hrefill
    · rw [onlyOf_refill (h.sided.drop.setOffset _) rfl, h.sided.report_isOf, report_only_of_ne hside, hended, hrefill]

/-- A control command finds its task in both, or in neither. -/
theorem Board.Parted.find (h : b.Parted d ids limit) {id : TaskId} (hid : id ∈ ids) :
    (b.only d).find id = b.find id ∧ ∀ key, b.find id = some key → key.1 = d := by
  cases hfind : b.find id with
  | none => exact ⟨h.single.find_only_none hfind, fun key hkey => by cases hkey⟩
  | some key =>
    obtain ⟨j, hj, htask⟩ := h.single.find_eq_some.1 hfind
    have hside : key.1 = d := (h.ids key j hj).1 (htask ▸ hid)
    refine ⟨h.single.find_only hfind hside, fun key' hkey' => ?_⟩
    cases hkey'
    exact hside

theorem Board.Parted.find_ne (h : b.Parted d ids limit) {id : TaskId} (hid : id ∉ ids)
    (hfind : b.find id = some key) : key.1 ≠ d := by
  obtain ⟨j, hj, htask⟩ := h.single.find_eq_some.1 hfind
  intro hside
  exact hid (htask ▸ (h.ids key j hj).2 hside)

theorem Board.Parted.obey (h : b.Parted d ids limit) (hlimit : limit d = limit' d) {cmd : TransferCmd}
    {input : LoopInput} (hin : LoopInput.only d ids (.cmd cmd) = some input) :
    onlyOf d ids (b.obey limit cmd) = (b.only d).step limit' input := by
  cases cmd with
  | enqueue inner callbacks =>
    obtain ⟨hside, hinput⟩ := Option.ite_none_right_eq_some.1 hin
    cases hinput
    have hkey : inner.dedupeKey.1 = d := (dedupeKey_fst inner).trans hside
    simp only [Board.step, Board.obey, only_job_of hkey]
    cases hj : b.job inner.dedupeKey with
    | some j =>
      have hleader := (h.sided _ j hj).1.trans hkey
      simp only [onlyOf, toldTo_isOf, hleader, if_true]
    | none =>
      simp only
      rw [onlyOf_refill (h.sided.add inner callbacks) hlimit, only_add hside, toldTo_isOf, if_pos hside,
        only_current hkey]
  | pause id =>
    obtain ⟨hid, hinput⟩ := Option.ite_none_right_eq_some.1 hin
    cases hinput
    obtain ⟨hfind, hside⟩ := h.find hid
    simp only [Board.step, Board.obey, hfind]
    cases hkey : b.find id with
    | none => simp [onlyOf, Output.isOf, hid]
    | some key =>
      have hside := hside key hkey
      simp only
      rw [onlyOf_refill (h.sided.alter _).quit hlimit, only_quit, only_alter hside, List.filter_append,
        h.sided.report_isOf]
      simp [Output.isOf, hid]
  | resume id =>
    obtain ⟨hid, hinput⟩ := Option.ite_none_right_eq_some.1 hin
    cases hinput
    obtain ⟨hfind, hside⟩ := h.find hid
    simp only [Board.step, Board.obey, hfind]
    cases hkey : b.find id with
    | none => simp [onlyOf, Output.isOf, hid]
    | some key =>
      have hside := hside key hkey
      simp only [mode_only hside]
      split
      · rw [onlyOf_refill (h.sided.alter _).join hlimit, only_join hside, only_alter hside, List.filter_append,
          h.sided.report_isOf]
        simp [Output.isOf, hid]
      · simp [onlyOf, Output.isOf, hid]
      · simp [onlyOf, Output.isOf, hid]
  | cancel id =>
    obtain ⟨hid, hinput⟩ := Option.ite_none_right_eq_some.1 hin
    cases hinput
    obtain ⟨hfind, hside⟩ := h.find hid
    simp only [Board.step, Board.obey, hfind]
    cases hkey : b.find id with
    | none => simp [onlyOf, Output.isOf, hid]
    | some key =>
      simp only
      rw [onlyOf_refill h.sided.drop hlimit, only_drop, List.filter_append, h.sided.report_isOf]
      simp [Output.isOf, hid]
  | snapshot => cases hin
  | close activeOrder groupOrder =>
    cases hin
    refine Prod.ext ?_ ?_
    · exact Board.eq_of_fields (fun k => ite_self _) rfl fun k => ite_self _
    · show List.filter _ (_ ++ _) = _
      rw [List.filter_append, List.filter_flatMap]
      show _ = List.flatMap _ _ ++ _
      congr 1
      apply flatMap_of_filter
      · exact fun k _ => h.sided.report_isOf k _
      · exact fun k hk => (h.sided.report_isOf k _).trans (report_only_of_ne hk _)

theorem Board.Parted.obey_none (h : b.Parted d ids limit) {cmd : TransferCmd}
    (hin : LoopInput.only d ids (.cmd cmd) = none) : onlyOf d ids (b.obey limit cmd) = (b.only d, []) := by
  have hrefill := h.orderly.refill_only (d := d) rfl []
  cases cmd with
  | enqueue inner callbacks =>
    have hside : inner.direction ≠ d := fun hside => by simp [LoopInput.only, hside] at hin
    have hkey : inner.dedupeKey.1 ≠ d := fun heq => hside ((dedupeKey_fst inner).symm.trans heq)
    simp only [Board.obey]
    cases hj : b.job inner.dedupeKey with
    | some j =>
      have hleader : j.group.leaderInner.direction ≠ d := fun heq => hkey ((h.sided _ j hj).1.symm.trans heq)
      simp only [onlyOf, toldTo_isOf, hleader, if_false]
    | none =>
      simp only
      rw [onlyOf_refill (h.sided.add inner callbacks) rfl, only_add_ne hside, toldTo_isOf, if_neg hside, hrefill]
  | pause id =>
    have hid : id ∉ ids := fun hid => by simp [LoopInput.only, hid] at hin
    simp only [Board.obey]
    cases hkey : b.find id with
    | none => simp [onlyOf, Output.isOf, hid]
    | some key =>
      have hside := h.find_ne hid hkey
      simp only
      rw [onlyOf_refill (h.sided.alter _).quit rfl, only_quit, only_alter_ne hside, quit_only_ne hside,
        List.filter_append, h.sided.report_isOf, report_only_of_ne hside]
      simp only [List.nil_append]
      rw [List.filter_cons_of_neg (by simp [Output.isOf, hid]), List.filter_nil, hrefill]
  | resume id =>
    have hid : id ∉ ids := fun hid => by simp [LoopInput.only, hid] at hin
    simp only [Board.obey]
    cases hkey : b.find id with
    | none => simp [onlyOf, Output.isOf, hid]
    | some key =>
      have hside := h.find_ne hid hkey
      simp only
      split
      · rw [onlyOf_refill (h.sided.alter _).join rfl, only_join_ne hside, only_alter_ne hside, List.filter_append,
          h.sided.report_isOf, report_only_of_ne hside]
        simp only [List.nil_append]
        rw [List.filter_cons_of_neg (by simp [Output.isOf, hid]), List.filter_nil, hrefill]
      · simp [onlyOf, Output.isOf, hid]
      · simp [onlyOf, Output.isOf, hid]
  | cancel id =>
    have hid : id ∉ ids := fun hid => by simp [LoopInput.only, hid] at hin
    simp only [Board.obey]
    cases hkey : b.find id with
    | none => simp [onlyOf, Output.isOf, hid]
    | some key =>
      have hside := h.find_ne hid hkey
      simp only
      rw [onlyOf_refill h.sided.drop rfl, only_drop_ne hside, List.filter_append, h.sided.report_isOf,
        report_only_of_ne hside]
      simp only [List.nil_append]
      rw [List.filter_cons_of_neg (by simp [Output.isOf, hid]), List.filter_nil, hrefill]
  | snapshot => simp [Board.obey, onlyOf, Output.isOf]
  | close activeOrder groupOrder => cases hin

/-- **An input of the direction** does the same without the other direction. -/
theorem Board.Parted.step (h : b.Parted d ids limit) (hlimit : limit d = limit' d) {input input' : LoopInput}
    (hin : input.only d ids = some input') : onlyOf d ids (b.step limit input) = (b.only d).step limit' input' := by
  cases input with
  | cmd cmd => exact h.obey hlimit hin
  | event event =>
    obtain ⟨hside, hinput⟩ := Option.ite_none_right_eq_some.1 hin
    cases hinput
    exact h.hear hlimit hside
  | listen op =>
    cases hin
    rfl

/-- **Any other input** does nothing to the direction. -/
theorem Board.Parted.step_none (h : b.Parted d ids limit) {input : LoopInput} (hin : input.only d ids = none) :
    onlyOf d ids (b.step limit input) = (b.only d, []) := by
  cases input with
  | cmd cmd => exact h.obey_none hin
  | event event =>
    have hside : event.key.1 ≠ d := fun hside => by simp [LoopInput.only, hside] at hin
    exact h.hear_ne hside
  | listen op => cases hin

end

/-! ## Runs -/

theorem issued_nodup {maxUpload maxDownload : Nat} {inputs : List LoopInput} {loop : Loop}
    (hrun : Lts.run Loop.step (.init maxUpload maxDownload) inputs = some loop) : loop.issued.Nodup := by
  refine Lts.run_invariant (I := fun l => l.issued.Nodup) ?_ List.nodup_nil hrun
  intro l input l' hl hs
  obtain ⟨-, harrives, rfl⟩ := Loop.step_eq_some.1 hs
  refine hl.append ?_ fun id hid hid' => harrives.fresh id hid' hid
  unfold LoopInput.issues
  split <;> simp

/-- Two `Enqueue`s of a run have different ids. -/
def OneEach (inputs : List LoopInput) : Prop :=
  ∀ inner callbacks inner' callbacks', .cmd (.enqueue inner callbacks) ∈ inputs →
    .cmd (.enqueue inner' callbacks') ∈ inputs → inner.taskId = inner'.taskId → inner = inner'

theorem OneEach.of_run {maxUpload maxDownload : Nat} {inputs : List LoopInput} {loop : Loop}
    (hrun : Lts.run Loop.step (.init maxUpload maxDownload) inputs = some loop) : OneEach inputs := by
  have hnodup := issued_nodup hrun
  rw [issued_run hrun] at hnodup
  have hdisjoint := (List.nodup_flatMap.1 hnodup).2
  intro inner callbacks inner' callbacks' h h' hid
  by_contra hne
  have hdiff : (LoopInput.cmd (.enqueue inner callbacks)) ≠ .cmd (.enqueue inner' callbacks') := by
    intro heq
    cases heq
    exact hne rfl
  have hsymm : Std.Symm (Function.onFun List.Disjoint LoopInput.issues) := ⟨fun _ _ h => h.symm⟩
  have hapart := hdisjoint.forall h h' hdiff
  exact hapart (List.mem_singleton.2 rfl) (List.mem_singleton.2 hid)

section
variable {d : Direction} {all : List LoopInput} {s t : Loop}

theorem mem_idsOf {id : TaskId} : id ∈ idsOf d all ↔
    ∃ inner callbacks, .cmd (.enqueue inner callbacks) ∈ all ∧ inner.direction = d ∧ inner.taskId = id := by
  rw [idsOf, List.mem_filterMap]
  constructor
  · rintro ⟨input, hin, hid⟩
    split at hid
    · rename_i inner callbacks
      obtain ⟨hd, hid⟩ := Option.ite_none_right_eq_some.1 hid
      exact ⟨inner, callbacks, hin, hd, Option.some.inj hid⟩
    · cases hid
  · rintro ⟨inner, callbacks, hin, hd, hid⟩
    exact ⟨_, hin, by simp [hd, hid]⟩

/-- `t` has run on what `all` has for `d`, where `s` has run on all of it. -/
structure Alone (d : Direction) (all : List LoopInput) (s t : Loop) : Prop where
  inv : LoopInv s
  rest : AtRest s.state
  inv' : LoopInv t
  rest' : AtRest t.state
  board : t.state.board = s.state.board.only d
  limit : s.state.maxConcurrency d = t.state.maxConcurrency d
  closed : t.closed = s.closed
  issued : ∀ id ∈ t.issued, id ∈ s.issued
  source : ∀ k g, s.state.groups.lookup k = some g → ∃ callbacks, .cmd (.enqueue g.leaderInner callbacks) ∈ all
  log : outputs t.log = (outputs s.log).filter (Output.isOf d (idsOf d all))

theorem Alone.parted (h : Alone d all s t) (hall : OneEach all) :
    s.state.board.Parted d (idsOf d all) s.state.maxConcurrency := by
  have hleader : ∀ k g, s.state.groups.lookup k = some g → g.leaderInner.direction = k.1 := by
    intro k g hg
    rw [← dedupeKey_fst, h.rest.leader_key k g hg]
  constructor
  · intro k j hj
    obtain ⟨g, hg, rfl⟩ := Option.map_eq_some_iff.1 hj
    refine ⟨hleader k g hg, ?_⟩
    rw [h.rest.entry_inner k g hg]
    exact hleader k g hg
  · intro k k' j j' hj hj' hid
    obtain ⟨g, hg, rfl⟩ := Option.map_eq_some_iff.1 hj
    obtain ⟨g', hg', rfl⟩ := Option.map_eq_some_iff.1 hj'
    have hk := (h.rest.id_map _ k).2 ⟨g, hg, rfl⟩
    have hk' := (h.rest.id_map _ k').2 ⟨g', hg', hid.symm⟩
    exact Option.some.inj (hk.symm.trans hk')
  · intro k j hj
    obtain ⟨g, hg, rfl⟩ := Option.map_eq_some_iff.1 hj
    obtain ⟨callbacks, hin⟩ := h.source k g hg
    rw [mem_idsOf, ← hleader k g hg]
    constructor
    · rintro ⟨inner, callbacks', hin', hd, hid⟩
      rw [← hall _ _ _ _ hin' hin hid]
      exact hd
    · intro hd
      exact ⟨_, callbacks, hin, hd, rfl⟩
  · exact h.rest.orderly

/-- The state after an input. -/
def Loop.after (loop : Loop) (input : LoopInput) : Loop :=
  ⟨(react loop.state input).1, loop.issued ++ input.issues, loop.log ++ (react loop.state input).2, input.closes⟩

theorem Alone.source_step (h : Alone d all s t) {input : LoopInput} (hin : input ∈ all) :
    ∀ k g, (react s.state input).1.groups.lookup k = some g →
      ∃ callbacks, .cmd (.enqueue g.leaderInner callbacks) ∈ all := by
  intro k g hg
  rcases react_group hg with hg | ⟨inner, callbacks, rfl, rfl, rfl⟩
  · exact h.source k g hg
  · exact ⟨callbacks, hin⟩

/-- The keys of one direction. -/
theorem Alone.active_keys (h : Alone d all s t) :
    t.state.active.keys = s.state.active.keys.filter fun k => k.1 = d := by
  have hkeys : (t.state.active.keys : Set UniqueId) = (s.state.board.only d).holding := by
    rw [← h.rest'.holding, h.board]
  ext k
  have hk : k ∈ t.state.active.keys ↔ k ∈ (s.state.board.only d).holding := by
    rw [← hkeys, Finset.mem_coe]
  have hs : k ∈ s.state.active.keys ↔ k ∈ s.state.board.holding := by
    rw [h.rest.holding, Finset.mem_coe]
  rw [hk, Finset.mem_filter, hs]
  by_cases hside : k.1 = d
  · simp [Board.holding, only_job_of hside, hside]
  · simp [Board.holding, only_job_of_ne hside, hside]

theorem Alone.group_keys (h : Alone d all s t) :
    t.state.groups.keys = s.state.groups.keys.filter fun k => k.1 = d := by
  have hmem (st : SchedulerState) (k : UniqueId) : k ∈ st.groups.keys ↔ (st.board.job k).isSome := by
    rw [board_job, Option.isSome_map, Finmap.mem_keys, Finmap.lookup_isSome]
  ext k
  rw [hmem, h.board, Finset.mem_filter, hmem]
  by_cases hside : k.1 = d
  · simp [only_job_of hside, hside]
  · simp [only_job_of_ne hside, hside]

/-- What arrives there arrives here. -/
theorem Alone.arrives (h : Alone d all s t) {input input' : LoopInput} (hin : input.Arrives s)
    (honly : input.only d (idsOf d all) = some input') : input'.Arrives t := by
  cases input with
  | cmd cmd =>
    cases cmd with
    | enqueue inner callbacks =>
      obtain ⟨-, hinput⟩ := Option.ite_none_right_eq_some.1 honly
      cases hinput
      exact fun hid => hin (h.issued _ hid)
    | pause id | resume id | cancel id =>
      obtain ⟨-, hinput⟩ := Option.ite_none_right_eq_some.1 honly
      cases hinput
      trivial
    | snapshot => cases honly
    | close activeOrder groupOrder =>
      cases honly
      obtain ⟨⟨hactive, hkeys⟩, hgroup, hgroups⟩ := hin
      refine ⟨⟨hactive.filter _, ?_⟩, hgroup.filter _, ?_⟩
      · rw [List.toFinset_filter, hkeys, h.active_keys]
        simp
      · rw [List.toFinset_filter, hgroups, h.group_keys]
        simp
  | event event =>
    obtain ⟨-, hinput⟩ := Option.ite_none_right_eq_some.1 honly
    cases hinput
    trivial
  | listen op =>
    cases honly
    trivial

/-- The id and the end of an input are left as they are. -/
theorem only_same {input input' : LoopInput} {ids : List TaskId} (honly : input.only d ids = some input') :
    input'.issues = input.issues ∧ input'.closes = input.closes := by
  unfold LoopInput.only at honly
  split at honly
  case h_5 => cases honly
  case h_6 | h_8 =>
    cases honly
    exact ⟨rfl, rfl⟩
  all_goals
    obtain ⟨-, hinput⟩ := Option.ite_none_right_eq_some.1 honly
    cases hinput
    exact ⟨rfl, rfl⟩

theorem only_none_closes {input : LoopInput} {ids : List TaskId} (honly : input.only d ids = none) :
    input.closes = false := by
  unfold LoopInput.closes
  split
  · cases honly
  · rfl

theorem Alone.keep (h : Alone d all s t) (hall : OneEach all) {input input' : LoopInput} (hin : input ∈ all)
    (honly : input.only d (idsOf d all) = some input') {s' : Loop} (hs : s.step input = some s') :
    ∃ t', t.step input' = some t' ∧ Alone d all s' t' := by
  have hinv := h.inv.step hs
  obtain ⟨hopen, harrives, rfl⟩ := Loop.step_eq_some.1 hs
  have harrives' := h.arrives harrives honly
  have ht : t.step input' = some (t.after input') := Loop.step_eq_some.2 ⟨h.closed.trans hopen, harrives', rfl⟩
  have hf : Fresh s.state input := fun inner callbacks hi => h.inv.fresh harrives hi
  have hf' : Fresh t.state input' := fun inner callbacks hi => h.inv'.fresh harrives' hi
  obtain ⟨hissues, hcloses⟩ := only_same honly
  -- the two boards take the same step
  have hstep := (h.parted hall).step h.limit honly
  rw [← board_react h.rest hf, ← h.board, ← board_react h.rest' hf'] at hstep
  obtain ⟨hboard, hlog⟩ := Prod.mk.inj hstep
  refine ⟨_, ht, ?_⟩
  exact {
    inv := hinv
    rest := h.rest.react hf
    inv' := h.inv'.step ht
    rest' := h.rest'.react hf'
    board := hboard.symm
    limit := by
      show (react s.state input).1.maxConcurrency d = (react t.state input').1.maxConcurrency d
      rw [react_limits, react_limits, h.limit]
    closed := hcloses
    issued := fun id hid => by
      rcases List.mem_append.1 hid with hid | hid
      · exact List.mem_append.2 (.inl (h.issued id hid))
      · exact List.mem_append.2 (.inr (hissues ▸ hid))
    source := h.source_step hin
    log := by
      show outputs (t.log ++ _) = List.filter _ (outputs (s.log ++ _))
      rw [outputs_append, outputs_append, List.filter_append, h.log, ← hlog] }

theorem Alone.drop (h : Alone d all s t) (hall : OneEach all) {input : LoopInput} (hin : input ∈ all)
    (honly : input.only d (idsOf d all) = none) {s' : Loop} (hs : s.step input = some s') : Alone d all s' t := by
  have hinv := h.inv.step hs
  obtain ⟨hopen, harrives, rfl⟩ := Loop.step_eq_some.1 hs
  have hf : Fresh s.state input := fun inner callbacks hi => h.inv.fresh harrives hi
  -- the board of the direction stands still
  have hstep := (h.parted hall).step_none honly
  rw [← board_react h.rest hf, ← h.board] at hstep
  obtain ⟨hboard, hlog⟩ := Prod.mk.inj hstep
  exact {
    inv := hinv
    rest := h.rest.react hf
    inv' := h.inv'
    rest' := h.rest'
    board := hboard.symm
    limit := by
      show (react s.state input).1.maxConcurrency d = _
      rw [react_limits, h.limit]
    closed := (h.closed.trans hopen).trans (only_none_closes honly).symm
    issued := fun id hid => List.mem_append.2 (.inl (h.issued id hid))
    source := h.source_step hin
    log := by
      show outputs t.log = List.filter _ (outputs (s.log ++ _))
      rw [outputs_append, List.filter_append, h.log, hlog, List.append_nil] }

theorem Alone.init {maxUpload maxDownload maxUpload' maxDownload' : Nat}
    (hlimit : limits maxUpload maxDownload d = limits maxUpload' maxDownload' d) :
    Alone d all (.init maxUpload maxDownload) (.init maxUpload' maxDownload') where
  inv := .init _ _
  rest := ⟨(LoopInv.init _ _).inv, fun k hk => absurd hk List.not_mem_nil⟩
  inv' := .init _ _
  rest' := ⟨(LoopInv.init _ _).inv, fun k hk => absurd hk List.not_mem_nil⟩
  board := Board.eq_of_fields (fun k => (ite_self _).symm) rfl fun k => (ite_self _).symm
  limit := by
    cases d <;> exact hlimit
  closed := rfl
  issued := fun id hid => hid
  source := fun k g hg => by cases hg
  log := rfl

end

/-- **The directions do not interfere.** Take any run, and of its inputs those about one direction only, with any
limit for the other. The loop takes them as well, its board is then what the first board has of that direction, and
all it has told, answered and started is what the first run has told, answered and started of that direction, in the
same order. -/
theorem directions_isolated (d : Direction) {maxUpload maxDownload maxUpload' maxDownload' : Nat}
    (hlimit : limits maxUpload maxDownload d = limits maxUpload' maxDownload' d) {inputs : List LoopInput} {loop : Loop}
    (hrun : Lts.run Loop.step (.init maxUpload maxDownload) inputs = some loop) :
    ∃ alone, Lts.run Loop.step (.init maxUpload' maxDownload')
        (inputs.filterMap (LoopInput.only d (idsOf d inputs))) = some alone ∧
      alone.state.board = loop.state.board.only d ∧
      outputs alone.log = (outputs loop.log).filter (Output.isOf d (idsOf d inputs)) := by
  have hall := OneEach.of_run hrun
  obtain ⟨alone, halone, h⟩ := Lts.run_filterMap (R := Alone d inputs) (f := LoopInput.only d (idsOf d inputs))
    (fun input hin input' _ _ _ honly h hs => h.keep hall hin honly hs)
    (fun input hin _ _ _ honly h hs => h.drop hall hin honly hs) (.init hlimit) hrun
  exact ⟨alone, halone, h.board, h.log⟩

/-- Downloads that come and go around an upload. -/
def mixedRun : List LoopInput :=
  [.cmd (sampleEnqueue 0), .cmd (.enqueue { sampleTask 1 with direction := .upload } ⟨some ⟨1⟩⟩),
    .cmd (.enqueue { sampleTask 2 with url := "b" } ⟨some ⟨2⟩⟩), .cmd (.pause ⟨0⟩),
    .event (.progress (.upload, "sign") 3 8), .cmd (.pause ⟨1⟩), .event (.canceled (.upload, "sign")), .cmd .snapshot,
    .cmd (.resume ⟨1⟩)]

/-- The upload in it, with no slot for downloads at all. -/
theorem directions_isolated_upload : ∃ loop alone, Lts.run Loop.step (.init 1 1) mixedRun = some loop ∧
    Lts.run Loop.step (.init 1 0) (mixedRun.filterMap (LoopInput.only .upload (idsOf .upload mixedRun))) =
      some alone ∧
    alone.state.board = loop.state.board.only .upload ∧
    outputs alone.log = (outputs loop.log).filter (Output.isOf .upload (idsOf .upload mixedRun)) := by
  have hrun : Lts.run Loop.step (.init 1 1) mixedRun = some _ := Lts.run_final (by decide)
  obtain ⟨alone, h⟩ := directions_isolated .upload (show limits 1 1 .upload = limits 1 0 .upload from rfl) hrun
  exact ⟨_, alone, hrun, h⟩

end SpottedCat
