import SpottedCat.Joint.Offsets

/-!
# What a server that keeps the range protocol gives

The executor of a task whose server keeps the range protocol returns offsets that never go back and one
total (`Obeys`). `Steady` carries this from the executor through the worker and its channel into the stored
offset of the task's key: the events that are still in the channel, and the offset at which the worker
stands, lead up from the stored offset and stay within the total. It rests on the earlier workers of the key being
outrun when the task is enqueued: they have ended, and what they have on its way is a `Failed` at most, or a
`Completed` of the same total. So every other worker of the key is the task's own.
-/

namespace SpottedCat

/-- What `prepare` and `transfer_chunk` return under the range protocol: an offset between the one they
were given and the total, which the worker ends up knowing. -/
def RunPc.Obeys (total : Nat) (inner : InnerTask) (startOffset : Nat) : RunPc → RunIn → Prop
  | .preparing, .prepared (.ok outcome) =>
    startOffset ≤ outcome.nextOffset ∧ outcome.nextOffset ≤ total ∧
      (if outcome.totalSize > 0 then outcome.totalSize else inner.totalSize) = total
  | .retry offset _ _, .attempt (.chunk (.ok outcome)) =>
    offset ≤ outcome.nextOffset ∧ outcome.nextOffset ≤ total ∧
      (outcome.totalSize = 0 ∨ outcome.totalSize = total)
  | _, _ => True

instance (total : Nat) (inner : InnerTask) (startOffset : Nat) (pc : RunPc) (input : RunIn) :
    Decidable (pc.Obeys total inner startOffset input) := by
  unfold RunPc.Obeys
  split <;> infer_instance

/-- The workers of the task do. -/
def Obeys (id : TaskId) (total : Nat) (sys : Sys) : Act → Prop
  | .work i input =>
    ∀ w ∈ sys.pool.workers[i]?, w.inner.taskId = id → w.pc.Obeys total w.inner w.startOffset input
  | _ => True

instance (id : TaskId) (total : Nat) (sys : Sys) (act : Act) : Decidable (Obeys id total sys act) := by
  unfold Obeys
  split <;> infer_instance

/-- The events lead up from the offset and keep within the total. -/
def Rising (total : Nat) : Nat → List WorkerEvent → Prop
  | _, [] => True
  | offset, .progress _ nextOffset totalSize :: es =>
    (offset ≤ nextOffset ∧ nextOffset ≤ total ∧ totalSize = total) ∧ Rising total nextOffset es
  | offset, .completed _ totalSize :: es => totalSize = total ∧ Rising total offset es
  | offset, _ :: es => Rising total offset es

/-- Where the worker stands, `sent` being the last offset it has sent. -/
def RunPc.Ahead (total sent startOffset : Nat) : RunPc → Prop
  | .preparing => sent ≤ startOffset
  | .loopHead offset knownTotal | .retry offset knownTotal _ | .report offset knownTotal _ =>
    sent ≤ offset ∧ offset ≤ total ∧ knownTotal = total
  | .finish event => Rising total sent [event]
  | .joining | .ended => True

/-- The worker's events in the channel lead up from the stored offset, and the worker goes on from there. -/
structure Worker.Ahead (total stored : Nat) (w : Worker) : Prop where
  outbox : Rising total stored w.outbox
  pc : w.pc.Ahead total (lastProgress stored w.outbox) w.startOffset

/-- The report of such an event fits any task with this total. -/
def WorkerEvent.fits (total : Nat) : WorkerEvent → Bool
  | .failed .. => true
  | .completed _ totalSize => totalSize == total
  | _ => false

/-- The worker has ended, and no other event of it is on its way. -/
abbrev Worker.Outrun (total : Nat) : Worker → Prop := Worker.Past (WorkerEvent.fits total)

theorem WorkerEvent.drops_of_fits {total : Nat} {event : WorkerEvent} (h : event.fits total = true) :
    event.drops = true := by
  cases event with
  | progress | canceled => cases h
  | completed | failed => rfl

theorem Rising.of_fits {total stored : Nat} {event : WorkerEvent} (h : event.fits total = true) :
    Rising total stored [event] := by
  cases event with
  | progress | canceled => cases h
  | failed => trivial
  | completed key totalSize => exact ⟨beq_iff_eq.1 h, trivial⟩

/-- A worker of the task is under way, or all of its key are outrun; the stored offset is within the total. -/
structure Steady (id : TaskId) (key : UniqueId) (total : Nat) (s : SchedulerState) (pool : Pool) : Prop
    extends Wired s pool where
  own : ∀ g, s.groups.lookup key = some g → g.leaderInner.taskId = id →
    ∀ (i : Nat) (w : Worker), pool.workers[i]? = some w → w.key = key → ¬ w.Outrun total →
      s.active.lookup key = some ⟨w.cancel⟩ ∧ w.inner = g.leaderInner ∧ w.Ahead total (s.current key)
  within : ∀ g, s.groups.lookup key = some g → g.leaderInner.taskId = id → s.current key ≤ total

/-! ## One worker -/

section
variable {total stored : Nat} {es es' : List WorkerEvent}

theorem Rising.append :
    Rising total stored (es ++ es') ↔ Rising total stored es ∧ Rising total (lastProgress stored es) es' := by
  induction es generalizing stored with
  | nil => simp [Rising, lastProgress]
  | cons e es ih => cases e <;> simp [Rising, lastProgress, ih, and_assoc]

theorem Rising.last_le (h : Rising total stored es) (hs : stored ≤ total) : lastProgress stored es ≤ total := by
  induction es generalizing stored with
  | nil => exact hs
  | cons e es ih =>
    cases e with
    | progress key nextOffset totalSize => exact ih h.2 h.1.2.1
    | completed key totalSize => exact ih h.2 hs
    | failed | canceled => exact ih h hs

/-- The worker's next input: the offset is handed on, and sent before the next chunk. -/
theorem RunPc.Ahead.step {key : UniqueId} {inner : InnerTask} {startOffset : Nat} {pc pc' : RunPc}
    {input : RunIn} {out : Option WorkerEvent} (h : pc.Ahead total stored startOffset)
    (hobeys : pc.Obeys total inner startOffset input)
    (hs : runStep key inner pc input = some (pc', out)) :
    Rising total stored out.toList ∧
      pc'.Ahead total (lastProgress stored out.toList) startOffset := by
  unfold runStep at hs
  split at hs
  · -- `prepare` has returned
    rename_i ret
    cases hs
    refine ⟨trivial, ?_⟩
    rcases ret with (err | msg) | outcome
    · exact trivial
    · exact trivial
    · obtain ⟨hstart, hwithin, htotal⟩ := hobeys
      exact ⟨le_trans h hstart, hwithin, htotal⟩
  · cases hs
    exact ⟨trivial, trivial⟩
  · cases hs
    exact ⟨trivial, h⟩
  · rename_i offset knownTotal rpc rin
    obtain ⟨o, hretry, ho⟩ := Option.map_eq_some_iff.1 hs
    cases ho
    refine ⟨trivial, ?_⟩
    cases o with
    | more rpc' => exact h
    | panicked msg => exact trivial
    | finished result =>
      cases result with
      | cancelled => exact trivial
      | failed e => exact trivial
      | done outcome =>
        -- only a chunk that was transferred ends the retries so
        have hin : rin = .chunk (.ok outcome) := by
          unfold retryStep at hretry
          split at hretry
          · cases hretry
          · cases hretry
          · cases hretry
            rfl
          · split at hretry <;> cases hretry
          · cases hretry
          · cases hretry
          · cases hretry
          · cases hretry
        subst hin
        obtain ⟨hnext, hwithin, htotal⟩ := hobeys
        obtain ⟨hsent, _, hknown⟩ := h
        refine ⟨le_trans hsent hnext, hwithin, ?_⟩
        rcases htotal with h0 | ht
        · simp [h0, hknown]
        · simp only [ht, hknown, ite_self]
  · rename_i offset knownTotal done
    cases hs
    obtain ⟨hsent, hwithin, hknown⟩ := h
    refine ⟨⟨⟨hsent, hwithin, hknown⟩, trivial⟩, ?_⟩
    cases done with
    | false => exact ⟨le_refl _, hwithin, hknown⟩
    | true => exact ⟨hknown, trivial⟩
  · cases hs
    exact ⟨trivial, trivial⟩
  · cases hs
    exact ⟨h, trivial⟩
  · cases hs

theorem Worker.Ahead.work {w : Worker} {pc : RunPc} {input : RunIn} {out : Option WorkerEvent}
    (h : w.Ahead total stored) (hobeys : w.pc.Obeys total w.inner w.startOffset input)
    (hs : runStep w.key w.inner w.pc input = some (pc, out)) :
    Worker.Ahead total stored { w with pc := pc, outbox := w.outbox ++ out.toList } := by
  obtain ⟨hrising, hpc⟩ := h.pc.step hobeys hs
  refine ⟨Rising.append.2 ⟨h.outbox, hrising⟩, ?_⟩
  simp only [lastProgress_append]
  exact hpc

/-- A delivery moves the stored offset to where the event leads. -/
theorem Worker.Ahead.take {w : Worker} {event : WorkerEvent} {rest : List WorkerEvent}
    (h : w.Ahead total stored) (ho : w.outbox = event :: rest) :
    Rising total stored [event] ∧
      Worker.Ahead total (lastProgress stored [event]) { w with outbox := rest } := by
  have hout := h.outbox
  have hpc := h.pc
  rw [ho, ← List.singleton_append] at hout hpc
  obtain ⟨hevent, hrest⟩ := Rising.append.1 hout
  rw [lastProgress_append] at hpc
  exact ⟨hevent, hrest, hpc⟩

end

/-! ## Invariance -/

section
variable {id : TaskId} {key : UniqueId} {total : Nat} {s s' : SchedulerState} {pool pool' : Pool}

/-- No two workers of the task are under way: both would hold the slot. -/
theorem Steady.single {g : GroupState} {i j : Nat} {w w' : Worker} (h : Steady id key total s pool)
    (hg : s.groups.lookup key = some g) (hid : g.leaderInner.taskId = id) (hw : pool.workers[i]? = some w)
    (hw' : pool.workers[j]? = some w') (hk : w.key = key) (hk' : w'.key = key) (hs : ¬ w.Outrun total)
    (hs' : ¬ w'.Outrun total) : i = j := by
  have hslot := (h.own g hg hid i w hw hk hs).1
  rw [(h.own g hg hid j w' hw' hk' hs').1] at hslot
  have hcancel : w'.cancel = w.cancel := ActiveState.mk.inj (Option.some.inj hslot)
  rw [(h.worker i w hw).2, (h.worker j w' hw').2] at hcancel
  cases hcancel
  rfl

/-- Nothing changes for the key, unless its group goes. -/
theorem Steady.keep (h : Steady id key total s pool) (hwired : Wired s' pool')
    (hkey : ∀ g, s'.groups.lookup key = some g → s.groups.lookup key = some g ∧
      s'.active.lookup key = s.active.lookup key ∧ s'.current key = s.current key)
    (hw : pool'.workers = pool.workers) : Steady id key total s' pool' where
  toWired := hwired
  own := fun g hg hid i w hi hk hs => by
    obtain ⟨hg, ha, hc⟩ := hkey g hg
    rw [ha, hc]
    exact h.own g hg hid i w (hw ▸ hi) hk hs
  within := fun g hg hid => by
    obtain ⟨hg, _, hc⟩ := hkey g hg
    rw [hc]
    exact h.within g hg hid

theorem Steady.start {k : UniqueId} {group : GroupState} (hl : Loose s) (h : Steady id key total s pool)
    (ha : k ∉ s.active) (hg : s.groups.lookup k = some group) :
    Steady id key total (s.activate k)
      (pool.spawn ⟨k, group.leaderInner, ⟨s.nextToken⟩, s.current k, .preparing, []⟩) where
  toWired := h.toWired.start hl hg
  own := fun g hgk hid i w hi hk hs => by
    simp only [SchedulerState.activate, Table.lookup_insert_ite] at hgk ⊢
    rcases Places.lookup_push.1 hi with hi | ⟨_, rfl⟩
    · have hown := h.own g hgk hid i w hi hk hs
      have hne : key ≠ k := fun he => ha (Finmap.mem_iff.2 ⟨_, he ▸ hown.1⟩)
      rw [if_neg hne]
      exact hown
    · subst hk
      rw [hg] at hgk
      cases hgk
      exact ⟨if_pos rfl, rfl, trivial, le_refl _⟩
  within := h.within

theorem Steady.accept {inner : InnerTask} {callbacks : TaskCallbacks} (h : Steady id key total s pool)
    (hnew : inner.taskId = id → inner.dedupeKey = key →
      (∀ w ∈ pool.workers, w.key = key → w.Outrun total) ∧ s.current key ≤ total)
    (hg : s'.groups = s.groups.insert inner.dedupeKey ⟨inner, ⟨inner, callbacks⟩⟩)
    (ha : s'.active = s.active) (ho : s'.offsets = s.offsets) (hlim : SameLimits s s') :
    Steady id key total s' pool := by
  have hcur : s'.current key = s.current key := by
    rw [SchedulerState.current, SchedulerState.current, ho]
  refine ⟨h.toWired.shrink hlim.nextToken (fun _ _ hk => ha ▸ hk) rfl, fun g hgk hid i w hi hk hs => ?_,
    fun g hgk hid => ?_⟩
  · rw [hg, Table.lookup_insert_ite] at hgk
    split at hgk
    · rename_i he
      cases hgk
      exact absurd ((hnew hid he.symm).1 w (List.mem_of_getElem? hi) hk) hs
    · rw [ha, hcur]
      exact h.own g hgk hid i w hi hk hs
  · rw [hg, Table.lookup_insert_ite] at hgk
    rw [hcur]
    split at hgk
    · rename_i he
      cases hgk
      exact (hnew hid he.symm).2
    · exact h.within g hgk hid

theorem Steady.deliver {i : Nat} {event : WorkerEvent} (h : Steady id key total s pool)
    (htake : pool.take i = some (event, pool')) (hf : Footprint s (.event event) s')
    (hlim : SameLimits s s') : Steady id key total s' pool' := by
  have hwired := h.toWired.deliver htake hf hlim.nextToken
  obtain ⟨w, rest, hw, hout, rfl⟩ := Pool.take_eq_some.1 htake
  obtain ⟨_, hwkey, hend⟩ := (h.worker i w hw).1.take hout
  -- the event of a worker that is outrun leaves no group
  have hs : ∀ g, s'.groups.lookup event.key = some g → ¬ w.Outrun total := by
    intro g hg houtrun
    have hdrops := WorkerEvent.drops_of_fits (houtrun.2 event (hout ▸ List.mem_cons_self))
    cases hg.symm.trans (hf.group_of_drops hdrops)
  by_cases hk : key = event.key
  · subst hk
    -- an event of the task: its worker is the only one under way
    have hmine : ∀ g, s'.groups.lookup event.key = some g → g.leaderInner.taskId = id →
        s.groups.lookup event.key = some g ∧ w.Ahead total (s.current event.key) ∧
          s'.current event.key = lastProgress (s.current event.key) [event] := by
      intro g hg hid
      obtain ⟨hg0, hc⟩ := hf.current hg
      exact ⟨hg0, (h.own g hg0 hid i w hw hwkey.symm (hs g hg)).2.2, hc⟩
    refine ⟨hwired, fun g hg hid j w' hj hk' hs' => ?_, fun g hg hid => ?_⟩
    · obtain ⟨hg0, hahead, hc⟩ := hmine g hg hid
      rcases Places.lookup_set.1 hj with ⟨rfl, _, rfl⟩ | ⟨hne, hj⟩
      · obtain ⟨hslot, hinner, _⟩ := h.own g hg0 hid j w hw hwkey.symm (hs g hg)
        refine ⟨?_, hinner, hc ▸ (hahead.take hout).2⟩
        cases hf with
        | keep hcmd => exact absurd rfl (hcmd event)
        | progress k n t _ ha => exact ha ▸ hslot
        | finish _ _ hgroups => simp [hgroups] at hg
        | stop k =>
          obtain ⟨hended, rfl⟩ := hend rfl
          exact absurd ⟨hended, fun _ hm => (by cases hm)⟩ hs'
      · exact absurd (h.single hg0 hid hj hw hk' hwkey.symm hs' (hs g hg)) hne
    · obtain ⟨hg0, hahead, hc⟩ := hmine g hg hid
      rw [hc]
      exact (hahead.take hout).1.last_le (h.within g hg0 hid)
  · obtain ⟨hgroups, hactive, hoffsets⟩ := hf.event_frame hk
    have hcur : s'.current key = s.current key := by
      rw [SchedulerState.current, SchedulerState.current, hoffsets]
    refine ⟨hwired, fun g hg hid j w' hj hk' hs' => ?_, fun g hg hid => ?_⟩
    · rw [hactive, hcur]
      rcases Places.lookup_set.1 hj with ⟨_, _, rfl⟩ | ⟨_, hj⟩
      · exact absurd (hk'.symm.trans hwkey.symm) hk
      · exact h.own g (hgroups ▸ hg) hid j w' hj hk' hs'
    · rw [hcur]
      exact h.within g (hgroups ▸ hg) hid

theorem Steady.work {i : Nat} {input : RunIn} (h : Steady id key total s pool)
    (hwork : pool.work i input = some pool')
    (hobeys : ∀ w ∈ pool.workers[i]?, w.inner.taskId = id → w.pc.Obeys total w.inner w.startOffset input) :
    Steady id key total s pool' := by
  have hwired := h.toWired.work hwork
  obtain ⟨w, pc, out, hw, _, hstep, rfl⟩ := Pool.work_eq_some.1 hwork
  obtain ⟨_, hrun, _⟩ := (h.worker i w hw).1.work hstep
  refine ⟨hwired, fun g hg hid j w' hj hk hs => ?_, h.within⟩
  rcases Places.lookup_set.1 hj with ⟨_, _, rfl⟩ | ⟨_, hj⟩
  · obtain ⟨hslot, hinner, hahead⟩ := h.own g hg hid i w hw hk fun houtrun => hrun houtrun.1
    exact ⟨hslot, hinner, hahead.work (hobeys w hw (by rw [hinner, hid])) hstep⟩
  · exact h.own g hg hid j w' hj hk hs

end

end SpottedCat
