import Mathlib.Algebra.Order.Field.Rat
import Mathlib.Tactic.NormNum
import SpottedCat.Joint.Rising
import SpottedCat.Sched.Records

/-!
# The progress a caller sees

`emit_status` gets its total from two places: a `Progress` or `Completed` event brings the total that the
worker knows, every other status is reported against the task's own `total_size`. The download builder
leaves that at 0, so a download that has made progress is reported at 0 again when it is paused
(`unsizedPause_falls_back`), though `pause_group` says that it keeps the visible progress continuous.

`Level` is what an iteration needs for its reports to fit: the statuses that restate the task find its
stored offset at 0, or its own total right. In runs whose steps meet it the progress delivered to the
task's callback never goes back and stays within 1, and what is neither a `Progress` nor a `Completed`
repeats the last one (`progress_is_continuous`).
-/

namespace SpottedCat

/-- The own total is the right one, or nothing depends on it yet. -/
def Fits (total stored own : Nat) : Prop := stored = 0 ∨ own = total

instance (total stored own : Nat) : Decidable (Fits total stored own) := inferInstanceAs (Decidable (_ ∨ _))

/-- The task's stored offset is restated only where its own total fits; when the task is accepted, the earlier
workers of its key are outrun, and the offset it takes over is within the total. -/
def Level (id : TaskId) (total : Nat) (sys : Sys) : Act → Prop
  | .cmd (.enqueue inner _) =>
    inner.taskId = id → sys.loop.state.groups.lookup inner.dedupeKey = none →
      (∀ w ∈ sys.pool.workers, w.key = inner.dedupeKey → w.Outrun total) ∧
        sys.loop.state.current inner.dedupeKey ≤ total ∧
        Fits total (sys.loop.state.current inner.dedupeKey) inner.totalSize
  | act =>
    ∀ m ∈ sys.intake act, ∀ key ∈ m.1.restates sys.loop.state, ∀ g ∈ sys.loop.state.groups.lookup key,
      g.leaderInner.taskId = id → Fits total (sys.loop.state.current key) g.ownTotal

instance (id : TaskId) (total : Nat) (sys : Sys) : ∀ act, Decidable (Level id total sys act)
  | .cmd (.enqueue ..) | .cmd (.pause _) | .cmd (.resume _) | .cmd (.cancel _) | .cmd .snapshot
  | .cmd (.close ..) | .listen _ | .deliver _ | .work .. => by
    unfold Level
    infer_instance

/-- `Progress` and `Completed` bring the total that the worker knows. -/
def WorkerEvent.sized : WorkerEvent → Bool
  | .progress .. | .completed .. => true
  | _ => false

/-- The step handles such an event of the key. -/
def Advances (key : UniqueId) (sys : Sys) : Act → Prop
  | .deliver i => ∃ m ∈ sys.pool.take i, m.1.key = key ∧ m.1.sized = true
  | _ => False

/-- Where an input takes the stored offset of the key. -/
def LoopInput.reaches (key : UniqueId) (stored : Nat) : LoopInput → Nat
  | .event (.progress k nextOffset _) => if k = key then nextOffset else stored
  | .event (.completed k totalSize) => if k = key then totalSize else stored
  | _ => stored

/-! ## Fractions -/

theorem progressOf_mono {m n total : Nat} (h : m ≤ n) : progressOf m total ≤ progressOf n total := by
  unfold progressOf
  split
  · exact le_refl _
  · have hle : (m : ℚ) ≤ n := by exact_mod_cast h
    exact div_le_div_of_nonneg_right hle (Nat.cast_nonneg total)

theorem progressOf_le_one {n total : Nat} (h : n ≤ total) : progressOf n total ≤ 1 := by
  unfold progressOf
  split
  · exact zero_le_one
  · have hle : (n : ℚ) ≤ total := by exact_mod_cast h
    exact div_le_one_of_le₀ hle (Nat.cast_nonneg total)

theorem Fits.progressOf {total stored own : Nat} (h : Fits total stored own) :
    progressOf stored own = SpottedCat.progressOf stored total := by
  rcases h with rfl | rfl
  · simp [SpottedCat.progressOf]
  · rfl

/-! ## One iteration -/

section
variable {s : SchedulerState} {input : LoopInput} {key k : UniqueId} {g : GroupState} {stored : Nat}

/-- What restates a group moves no offset. -/
theorem LoopInput.reaches_of_restates (h : k ∈ input.restates s) : input.reaches key stored = stored := by
  cases input with
  | listen | cmd => rfl
  | event event =>
    cases event with
    | progress | completed => cases h
    | failed | canceled => rfl

/-- Rising events take it up, within the total. -/
theorem LoopInput.reaches_within {total : Nat} (hw : stored ≤ total)
    (hr : ∀ event, input = .event event → event.key = key → Rising total stored [event]) :
    stored ≤ input.reaches key stored ∧ input.reaches key stored ≤ total := by
  have hkeep : input.reaches key stored = stored →
      stored ≤ input.reaches key stored ∧ input.reaches key stored ≤ total := by
    intro hsame
    rw [hsame]
    exact ⟨le_refl _, hw⟩
  cases input with
  | listen | cmd => exact hkeep rfl
  | event event =>
    cases event with
    | failed | canceled => exact hkeep rfl
    | progress k n t =>
      by_cases hk : k = key
      · obtain ⟨⟨hup, hn, _⟩, _⟩ := hr _ rfl hk
        rw [show (LoopInput.event (.progress k n t)).reaches key stored = n from if_pos hk]
        exact ⟨hup, hn⟩
      · exact hkeep (if_neg hk)
    | completed k t =>
      by_cases hk : k = key
      · obtain ⟨ht, _⟩ := hr _ rfl hk
        rw [show (LoopInput.event (.completed k t)).reaches key stored = t from if_pos hk, ht]
        exact ⟨hw, le_refl _⟩
      · exact hkeep (if_neg hk)

/-- The offset of a group that is still there. -/
theorem react_current (hg : (react s input).1.groups.lookup k = some g) :
    (react s input).1.current k = input.reaches k (s.current k) := by
  obtain ⟨x, hx, hreact⟩ := react_before s input
  have hsame : (react s input).1.groups = x.1.groups ∧ (react s input).1.offsets = x.1.offsets := by
    rcases hreact with hreact | hreact
    · rw [hreact]
      exact ⟨rfl, rfl⟩
    · rw [hreact]
      exact ⟨(tryStartNext_same x.1).groups, (tryStartNext_same x.1).offsets⟩
  rw [hsame.1] at hg
  have hoffsets : x.1.offsets = s.offsets → (react s input).1.current k = s.current k := by
    intro ho
    rw [SchedulerState.current, SchedulerState.current, hsame.2, ho]
  have hf := hx.footprint
  generalize x.1 = s' at hf hg hsame hoffsets
  cases hf with
  | keep hcmd _ _ ho =>
    rw [hoffsets ho]
    cases input with
    | listen | cmd => rfl
    | event event => exact absurd rfl (hcmd event)
  | accept _ _ _ _ _ ho | cancel _ _ _ _ _ ho => exact hoffsets ho
  | close _ _ hgroups => simp [hgroups] at hg
  | stop _ _ _ _ ho => exact hoffsets ho
  | progress key n t _ _ ho =>
    rw [SchedulerState.current, hsame.2, ho, Table.lookup_insert_ite, LoopInput.reaches]
    by_cases he : k = key
    · simp [he]
    · rw [if_neg he, if_neg (Ne.symm he)]
      rfl
  | finish event _ hgroups _ ho =>
    rw [hgroups, Table.lookup_erase_ite] at hg
    have hne : k ≠ event.key := by
      intro he
      rw [if_pos he] at hg
      cases hg
    have hcur : (react s (.event event)).1.current k = s.current k := by
      rw [SchedulerState.current, SchedulerState.current, hsame.2, ho, Table.lookup_erase_ite, if_neg hne]
    rw [hcur]
    cases event with
    | progress | completed => exact (if_neg (Ne.symm hne)).symm
    | failed | canceled => rfl

theorem react_group_of_drops {event : WorkerEvent} (hdrops : event.drops = true) :
    (react s (.event event)).1.groups.lookup event.key = none := by
  obtain ⟨x, hx, hreact⟩ := react_before s (.event event)
  have hnone := hx.footprint.group_of_drops hdrops
  rcases hreact with hreact | hreact
  · rw [hreact]
    exact hnone
  · rw [hreact, show (thenStart x).1.groups = x.1.groups from (tryStartNext_same x.1).groups]
    exact hnone

/-- An offset does not move unseen. -/
theorem recordsTo_react_ne_nil {cb : ProgressCb} (hg : s.groups.lookup k = some g)
    (hcb : g.entry.callbacks.progressCb = some cb) (hmoves : input.reaches k (s.current k) ≠ s.current k) :
    recordsTo cb (react s input).2 ≠ [] := by
  cases input with
  | listen | cmd => exact absurd rfl hmoves
  | event event =>
    have hshown : ∀ transferred total status, recordsTo cb (groupStatus s k status transferred total) ≠ [] := by
      intro transferred total status
      rw [groupStatus, hg]
      simp only [recordsTo_emitStatus, if_pos hcb]
      simp
    have hthen : ∀ x, recordsTo cb x.2 ≠ [] → recordsTo cb (thenStart x).2 ≠ [] := by
      intro x hx hnil
      rw [thenStart, recordsTo_append] at hnil
      exact hx (List.append_eq_nil_iff.1 hnil).1
    cases event with
    | failed | canceled => exact absurd rfl hmoves
    | progress key n t =>
      by_cases he : key = k
      · subst he
        exact hthen _ (hshown _ _ _)
      · exact absurd (if_neg he) hmoves
    | completed key t =>
      by_cases he : key = k
      · subst he
        exact hthen _ (hshown _ _ _)
      · exact absurd (if_neg he) hmoves

/-- The accepted call is told so. -/
theorem recordsTo_accept_ne_nil {cb : ProgressCb} {inner : InnerTask} {callbacks : TaskCallbacks}
    (hg : s.groups.lookup inner.dedupeKey = none) (hcb : callbacks.progressCb = some cb) :
    recordsTo cb (react s (.cmd (.enqueue inner callbacks))).2 ≠ [] := by
  simp only [react, handleCmd, hg, thenStart, acceptTask, recordsTo_append, recordsTo_emitStatus, if_pos hcb]
  simp

end

/-! ## The system -/

/-- What has been delivered to the task's callback so far; the last of it fits the stored offset. -/
structure Smooth (id : TaskId) (cb : ProgressCb) (key : UniqueId) (total : Nat) (sys : Sys) : Prop where
  base : LoopInv sys.loop
  steady : Steady id key total sys.loop.state sys.pool
  paired : Paired id cb sys.loop.state
  at_key : ∀ k g, sys.loop.state.groups.lookup k = some g → g.leaderInner.taskId = id → k = key
  waiting : key ∈ sys.loop.state.queued → ∀ g, sys.loop.state.groups.lookup key = some g →
    g.leaderInner.taskId = id → Fits total (sys.loop.state.current key) g.ownTotal
  unheard : id ∉ sys.loop.issued → recordsTo cb sys.loop.log = []
  rising : ((recordsTo cb sys.loop.log).map (·.progress)).Pairwise (· ≤ ·)
  bounded : ∀ dto ∈ recordsTo cb sys.loop.log, dto.progress ≤ 1
  last : ∀ g, sys.loop.state.groups.lookup key = some g → g.leaderInner.taskId = id →
    ∃ dto, (recordsTo cb sys.loop.log).getLast? = some dto ∧
      dto.progress = progressOf (sys.loop.state.current key) total

/-- An `Enqueue` brings both the id and the callback, under the key and accepted, or neither of them. -/
structure Brings (id : TaskId) (cb : ProgressCb) (key : UniqueId) (s : SchedulerState)
    (input : LoopInput) : Prop where
  pairs : input.Pairs id cb
  accepted : ∀ inner callbacks, input = .cmd (.enqueue inner callbacks) → inner.taskId = id →
    inner.dedupeKey = key ∧ s.groups.lookup key = none

section
variable {id : TaskId} {cb : ProgressCb} {key : UniqueId} {total : Nat} {sys sys' : Sys} {act : Act}
  {input : LoopInput} {pool : Pool} {g : GroupState}

/-- A restated group fits. -/
theorem Level.standing (h : Level id total sys act) (hin : sys.intake act = some (input, pool))
    {k : UniqueId} (hk : k ∈ input.restates sys.loop.state) (hg : sys.loop.state.groups.lookup k = some g)
    (hid : g.leaderInner.taskId = id) : Fits total (sys.loop.state.current k) g.ownTotal := by
  cases act with
  | work => cases hin
  | listen op =>
    cases hin
    cases hk
  | deliver i => exact h _ hin k hk g hg hid
  | cmd c =>
    cases c with
    | enqueue inner callbacks =>
      cases hin
      cases hk
    | pause | resume | cancel | snapshot | close => exact h _ hin k hk g hg hid

/-- An event under the key of the task is its own worker's, and the task has a slot; or it is the last of an earlier
worker, and takes the group with it. In both cases the offset rises. -/
theorem Steady.rises (h : Steady id key total sys.loop.state sys.pool)
    (hin : sys.intake act = some (input, pool)) (hg : sys.loop.state.groups.lookup key = some g)
    (hid : g.leaderInner.taskId = id) {event : WorkerEvent} (he : input = .event event)
    (hk : event.key = key) :
    (key ∈ sys.loop.state.active ∨ event.drops = true) ∧ Rising total (sys.loop.state.current key) [event] := by
  subst he
  cases act with
  | work | listen | cmd => cases hin
  | deliver i =>
    obtain ⟨⟨event', pool'⟩, htake, he⟩ := Option.map_eq_some_iff.1 hin
    cases he
    obtain ⟨w, rest, hw, hout, rfl⟩ := Pool.take_eq_some.1 htake
    obtain ⟨_, hwkey, _⟩ := (h.worker i w hw).1.take hout
    by_cases hs : w.Outrun total
    · have hfits := hs.2 event (hout ▸ List.mem_cons_self)
      exact ⟨.inr (WorkerEvent.drops_of_fits hfits), .of_fits hfits⟩
    · obtain ⟨hslot, _, hahead⟩ := h.own g hg hid i w hw (hwkey.symm.trans hk) hs
      exact ⟨.inl (Finmap.mem_of_lookup_eq_some hslot), (hahead.take hout).1⟩

/-- A task in the queue has no worker whose events could move its offset and leave it there. -/
theorem Steady.queued_still (h : Steady id key total sys.loop.state sys.pool) (hinv : Inv sys.loop.state)
    (hin : sys.intake act = some (input, pool)) (hq : key ∈ sys.loop.state.queued)
    (hg : sys.loop.state.groups.lookup key = some g) (hid : g.leaderInner.taskId = id)
    (hstays : (react sys.loop.state input).1.groups.lookup key = some g) :
    input.reaches key (sys.loop.state.current key) = sys.loop.state.current key := by
  cases input with
  | listen | cmd => rfl
  | event event =>
    have hne : event.key ≠ key := by
      intro hk
      rcases (h.rises hin hg hid rfl hk).1 with hactive | hdrops
      · exact hinv.queued_active key hq hactive
      · subst hk
        cases hstays.symm.trans (react_group_of_drops hdrops)
    cases event with
    | progress | completed => exact if_neg hne
    | failed | canceled => rfl

/-- **A task that was waiting** fits, and its offset has not moved. -/
theorem Smooth.waited (h : Smooth id cb key total sys) (hlevel : Level id total sys act)
    (hin : sys.intake act = some (input, pool)) (hbrings : Brings id cb key sys.loop.state input)
    (hwaited : key ∈ sys.loop.state.queued ∨ key ∈ input.queues sys.loop.state)
    (hg : (react sys.loop.state input).1.groups.lookup key = some g) (hid : g.leaderInner.taskId = id) :
    input.reaches key (sys.loop.state.current key) = sys.loop.state.current key ∧
      Fits total (sys.loop.state.current key) g.ownTotal := by
  rcases react_group hg with hold | ⟨inner, callbacks, rfl, hk, rfl⟩
  · rcases hwaited with hq | hq
    · exact ⟨h.steady.queued_still h.base.inv hin hq hold hid hg, h.waiting hq g hold hid⟩
    · cases input with
      | listen | event => cases hq
      | cmd c =>
        refine ⟨rfl, ?_⟩
        cases c with
        | enqueue inner callbacks =>
          -- a live key is not queued again
          simp only [LoopInput.queues] at hq
          split at hq
          · cases hq
          · rename_i hno
            rw [List.mem_singleton.1 hq] at hold
            exact absurd (Finmap.mem_of_lookup_eq_some hold) hno
        | resume taskId => exact hlevel.standing hin hq hold hid
        | pause | cancel | snapshot | close => cases hq
  · obtain ⟨rfl, hvacant⟩ := hbrings.accepted inner callbacks rfl hid
    obtain rfl := Sys.intake_cmd hin
    exact ⟨rfl, (hlevel hid hvacant).2.2⟩

/-- **What an iteration tells the callback** is where the input takes the stored offset, against the total.
The task was there before, or has just come in. -/
theorem Smooth.told (h : Smooth id cb key total sys) (hlevel : Level id total sys act)
    (hin : sys.intake act = some (input, pool)) (hbrings : Brings id cb key sys.loop.state input)
    {dto : FileTransferRecord} (hdto : dto ∈ recordsTo cb (react sys.loop.state input).2) :
    dto.progress = progressOf (input.reaches key (sys.loop.state.current key)) total ∧
      ((∃ g, sys.loop.state.groups.lookup key = some g ∧ g.leaderInner.taskId = id) ∨
        ∃ inner callbacks, input = .cmd (.enqueue inner callbacks) ∧ inner.taskId = id) := by
  have hnew : input.Unrepeated sys.loop.state ∨ ∀ inner callbacks,
      input = .cmd (.enqueue inner callbacks) → callbacks.progressCb ≠ some cb := by
    rw [or_iff_not_imp_right]
    intro hno
    push Not at hno
    obtain ⟨inner, callbacks, rfl, hcb⟩ := hno
    obtain ⟨hkey, hvacant⟩ := hbrings.accepted inner callbacks rfl ((hbrings.pairs _ _ rfl).2 hcb)
    rw [← hkey] at hvacant
    exact Finmap.lookup_eq_none.1 hvacant
  obtain ⟨entry, status, transferred, own, hnotice, hcb, rfl⟩ := mem_recordsTo_react hnew hdto
  have hid : entry.inner.taskId = id := (hnotice.pairs h.paired hbrings.pairs).2 hcb
  -- the groups of the task, before the input and after it
  have hgroup : ∀ k g, sys.loop.state.groups.lookup k = some g → g.entry.inner.taskId = id →
      k = key ∧ g.leaderInner.taskId = id := by
    intro k g hg hid
    rw [h.base.inv.entry_inner k g hg] at hid
    exact ⟨h.at_key k g hg hid, hid⟩
  cases hnotice with
  | accepted inner callbacks hvacant =>
    obtain ⟨rfl, _⟩ := hbrings.accepted inner callbacks rfl hid
    obtain rfl := Sys.intake_cmd hin
    exact ⟨(hlevel hid hvacant).2.2.progressOf, .inr ⟨inner, callbacks, rfl, hid⟩⟩
  | standing k g hg _ _ hrestated =>
    obtain ⟨rfl, hid⟩ := hgroup k g hg hid
    rw [LoopInput.reaches_of_restates hrestated]
    exact ⟨(hlevel.standing hin hrestated hg hid).progressOf, .inl ⟨g, hg, hid⟩⟩
  | progress k n t g hg =>
    obtain ⟨rfl, hid⟩ := hgroup k g hg hid
    obtain ⟨_, ⟨_, _, ht⟩, _⟩ := h.steady.rises hin hg hid rfl rfl
    rw [LoopInput.reaches, if_pos rfl]
    exact ⟨by rw [ht]; rfl, .inl ⟨g, hg, hid⟩⟩
  | completed k t g hg =>
    obtain ⟨rfl, hid⟩ := hgroup k g hg hid
    obtain ⟨_, ht, _⟩ := h.steady.rises hin hg hid rfl rfl
    rw [LoopInput.reaches, if_pos rfl]
    exact ⟨by rw [ht]; rfl, .inl ⟨g, hg, hid⟩⟩
  | started k g hg hwaited =>
    rcases react_group hg with hold | ⟨inner, callbacks, rfl, rfl, rfl⟩
    · obtain ⟨rfl, hid⟩ := hgroup k g hold hid
      obtain ⟨hstill, hfits⟩ := h.waited hlevel hin hbrings hwaited hg hid
      rw [hstill]
      refine ⟨?_, .inl ⟨g, hold, hid⟩⟩
      rw [react_current hg, hstill]
      exact hfits.progressOf
    · obtain ⟨rfl, _⟩ := hbrings.accepted inner callbacks rfl hid
      obtain ⟨hstill, hfits⟩ := h.waited hlevel hin hbrings hwaited hg hid
      refine ⟨?_, .inr ⟨inner, callbacks, rfl, hid⟩⟩
      rw [react_current hg, hstill]
      exact hfits.progressOf

theorem Steady.feeds : Feeds (Level id total) fun _ => Steady id key total where
  frame h _ hsame hw _ :=
    h.keep (h.toWired.shrink hsame.nextToken (fun _ _ hk => hsame.active ▸ hk) hw)
      (fun g hg => ⟨hsame.groups ▸ hg, by rw [hsame.active], by
        rw [SchedulerState.current, SchedulerState.current, hsame.offsets]⟩) hw
  start hl h ha hg _ := h.start hl ha hg
  accept h hc _ hv hg ha ho hlim :=
    h.accept (fun hid hkey => by
      subst hkey
      obtain ⟨houtrun, hwithin, _⟩ := hc hid hv
      exact ⟨houtrun, hwithin⟩) hg ha ho hlim
  cancel h _ _ hg ha ho hlim :=
    h.keep (h.toWired.shrink hlim.nextToken (fun _ _ hk => (lookup_of_erase (ha ▸ hk)).2) rfl)
      (fun g hk => ⟨(lookup_of_erase_group hg ha hk).1, (lookup_of_erase_group hg ha hk).2, by
        rw [SchedulerState.current, SchedulerState.current, ho]⟩) rfl
  close h _ hg ha _ hlim :=
    h.keep (h.toWired.shrink hlim.nextToken (fun _ _ hk => by rw [ha] at hk; cases hk) rfl)
      (fun g hk => by rw [hg] at hk; cases hk) rfl
  deliver h htake hf hlim := h.deliver htake hf hlim

/-- The last of a rising list is its highest. -/
theorem le_of_getLast? {l : List ℚ} {a b : ℚ} (h : l.Pairwise (· ≤ ·)) (hb : l.getLast? = some b)
    (ha : a ∈ l) : a ≤ b := by
  obtain ⟨init, rfl⟩ := List.getLast?_eq_some_iff.1 hb
  rcases List.mem_append.1 ha with ha | ha
  · exact (List.pairwise_append.1 h).2.2 a ha b List.mem_cons_self
  · rw [List.mem_singleton.1 ha]

/-- **A new record** is within 1, and none of the old ones is above it. -/
theorem Smooth.told_bounded (h : Smooth id cb key total sys) (hlevel : Level id total sys act)
    (hin : sys.intake act = some (input, pool)) (harrives : input.Arrives sys.loop)
    (hbrings : Brings id cb key sys.loop.state input) {dto : FileTransferRecord}
    (hdto : dto ∈ recordsTo cb (react sys.loop.state input).2) :
    dto.progress ≤ 1 ∧ ∀ old ∈ recordsTo cb sys.loop.log, old.progress ≤ dto.progress := by
  obtain ⟨hp, ⟨g, hg, hid⟩ | ⟨inner, callbacks, rfl, hid⟩⟩ := h.told hlevel hin hbrings hdto
  · obtain ⟨hup, hwithin⟩ := LoopInput.reaches_within (h.steady.within g hg hid)
      fun event he hk => (h.steady.rises hin hg hid he hk).2
    rw [hp]
    refine ⟨progressOf_le_one hwithin, fun old hold => ?_⟩
    obtain ⟨last, hlast, heq⟩ := h.last g hg hid
    have hle : old.progress ≤ last.progress := by
      refine le_of_getLast? h.rising ?_ (List.mem_map_of_mem hold)
      rw [List.getLast?_map, hlast]
      rfl
    exact hle.trans (heq ▸ progressOf_mono hup)
  · -- a task that comes in with this input has been told nothing yet
    obtain ⟨rfl, hvacant⟩ := hbrings.accepted inner callbacks rfl hid
    obtain rfl := Sys.intake_cmd hin
    have hissue : inner.taskId ∉ sys.loop.issued := harrives
    rw [hp]
    refine ⟨progressOf_le_one (hlevel hid hvacant).2.1, fun old hold => ?_⟩
    rw [h.unheard (hid ▸ hissue)] at hold
    cases hold

/-- **The last record** is at the stored offset. If nothing was said, the offset has not moved. -/
theorem Smooth.last_told (h : Smooth id cb key total sys) (hlevel : Level id total sys act)
    (hin : sys.intake act = some (input, pool)) (hbrings : Brings id cb key sys.loop.state input)
    (hg : (react sys.loop.state input).1.groups.lookup key = some g) (hid : g.leaderInner.taskId = id) :
    ∃ dto, (recordsTo cb sys.loop.log ++ recordsTo cb (react sys.loop.state input).2).getLast? = some dto ∧
      dto.progress = progressOf ((react sys.loop.state input).1.current key) total := by
  rw [react_current hg]
  by_cases hnil : recordsTo cb (react sys.loop.state input).2 = []
  · rw [hnil, List.append_nil]
    rcases react_group hg with hold | ⟨inner, callbacks, rfl, hk, rfl⟩
    · have hcb : g.entry.callbacks.progressCb = some cb := by
        refine (h.paired key g hold).1 ?_
        rw [h.base.inv.entry_inner key g hold]
        exact hid
      have hstill : input.reaches key (sys.loop.state.current key) = sys.loop.state.current key := by
        by_contra hmoves
        exact recordsTo_react_ne_nil hold hcb hmoves hnil
      rw [hstill]
      exact h.last g hold hid
    · obtain ⟨rfl, hvacant⟩ := hbrings.accepted inner callbacks rfl hid
      have hcb := (hbrings.pairs inner callbacks rfl).1 hid
      exact absurd hnil (recordsTo_accept_ne_nil hvacant hcb)
  · obtain ⟨dto, hdto⟩ := Option.isSome_iff_exists.1 (List.getLast?_isSome.2 hnil)
    refine ⟨dto, ?_, (h.told hlevel hin hbrings (List.mem_of_getLast? hdto)).1⟩
    rw [List.getLast?_append_of_ne_nil _ hnil]
    exact hdto

/-- **One iteration of the loop.** -/
theorem Smooth.feed (h : Smooth id cb key total sys) (hlevel : Level id total sys act)
    (hin : sys.intake act = some (input, pool)) (hfeed : Sys.feed sys.loop pool input = some sys')
    (hbrings : Brings id cb key sys.loop.state input) : Smooth id cb key total sys' := by
  obtain ⟨hbase, hsteady⟩ := Steady.feeds.feed ⟨h.base, h.steady⟩ hlevel hin hfeed
  obtain ⟨hstep, _⟩ := Sys.feed_eq_some.1 hfeed
  obtain ⟨_, harrives, hloop⟩ := Loop.step_eq_some.1 hstep
  obtain ⟨loop, pool'⟩ := sys'
  obtain rfl : loop = _ := hloop
  have htold (dto : FileTransferRecord) (hdto : dto ∈ recordsTo cb (react sys.loop.state input).2) :=
    h.told hlevel hin hbrings hdto
  have hbounded (dto : FileTransferRecord) (hdto : dto ∈ recordsTo cb (react sys.loop.state input).2) :=
    h.told_bounded hlevel hin harrives hbrings hdto
  refine ⟨hbase, hsteady, h.paired.react hbrings.pairs, fun k g hg hid => ?_, fun hqueued g hg hid => ?_,
    fun hid => ?_, ?_, fun dto hdto => ?_, fun g hg hid => ?_⟩
  · rcases react_group hg with hold | ⟨inner, callbacks, rfl, hk, rfl⟩
    · exact h.at_key k g hold hid
    · rw [hk]
      exact (hbrings.accepted inner callbacks rfl hid).1
  · obtain ⟨hstill, hfits⟩ := h.waited hlevel hin hbrings (react_queued hqueued) hg hid
    rw [react_current hg, hstill]
    exact hfits
  · have hids : id ∉ sys.loop.issued ∧ id ∉ input.issues := by simpa using hid
    rw [recordsTo_append, h.unheard hids.1, List.nil_append]
    refine List.eq_nil_iff_forall_not_mem.2 fun dto hdto => ?_
    obtain ⟨_, ⟨g, hg, hgid⟩ | ⟨inner, callbacks, rfl, hinner⟩⟩ := htold dto hdto
    · have hm := (h.base.inv.id_map id key).2 ⟨g, hg, hgid⟩
      exact hids.1 (h.base.issued id (Finmap.mem_of_lookup_eq_some hm))
    · exact hids.2 (hinner ▸ List.mem_cons_self)
  · rw [recordsTo_append, List.map_append, List.pairwise_append]
    refine ⟨h.rising, ?_, ?_⟩
    · refine List.pairwise_map.2 (List.pairwise_of_forall_mem_list fun a ha b hb => ?_)
      rw [(htold a ha).1, (htold b hb).1]
    · intro a ha b hb
      obtain ⟨old, hold, rfl⟩ := List.mem_map.1 ha
      obtain ⟨dto, hdto, rfl⟩ := List.mem_map.1 hb
      exact (hbounded dto hdto).2 old hold
  · rw [recordsTo_append] at hdto
    rcases List.mem_append.1 hdto with hdto | hdto
    · exact h.bounded dto hdto
    · exact (hbounded dto hdto).1
  · rw [recordsTo_append]
    exact h.last_told hlevel hin hbrings hg hid

/-- **One step of the system.** -/
theorem Smooth.step (h : Smooth id cb key total sys) (hs : sys.step act = some sys')
    (hobeys : Obeys id total sys act) (hlevel : Level id total sys act)
    (hbrings : ∀ input pool, sys.intake act = some (input, pool) → Brings id cb key sys.loop.state input) :
    Smooth id cb key total sys' := by
  obtain ⟨input, pool, hin, hfeed⟩ | ⟨i, input, pool, rfl, hwork, rfl⟩ := Sys.step_cases hs
  · exact h.feed hlevel hin hfeed (hbrings input pool hin)
  · exact { h with steady := h.steady.work hwork hobeys }

/-! ## Runs -/

/-- Another call's `Enqueue`. -/
def Act.Other (id : TaskId) (cb : ProgressCb) (act : Act) : Prop :=
  ∀ inner callbacks, act = .cmd (.enqueue inner callbacks) →
    inner.taskId ≠ id ∧ callbacks.progressCb ≠ some cb

theorem Act.Other.brings (h : act.Other id cb) (hin : sys.intake act = some (input, pool)) :
    Brings id cb key sys.loop.state input := by
  have hother : ∀ inner callbacks, input = .cmd (.enqueue inner callbacks) →
      inner.taskId ≠ id ∧ callbacks.progressCb ≠ some cb := by
    rintro inner callbacks rfl
    exact h inner callbacks (Sys.intake_cmd hin)
  constructor
  · intro inner callbacks he
    obtain ⟨hid, hcb⟩ := hother inner callbacks he
    exact iff_of_false hid hcb
  · intro inner callbacks he hid
    exact absurd hid (hother inner callbacks he).1

/-- **A run without the task's own `Enqueue`.** -/
theorem Smooth.run {acts : List Act} (h : Smooth id cb key total sys)
    (hrun : Lts.run Sys.step sys acts = some sys') (hother : ∀ act ∈ acts, act.Other id cb)
    (hobeys : Lts.Meets Sys.step (Obeys id total) sys acts)
    (hlevel : Lts.Meets Sys.step (Level id total) sys acts) : Smooth id cb key total sys' := by
  have hmeets : Lts.Meets Sys.step (fun _ act => act.Other id cb) sys acts :=
    .of_forall fun act ha _ => hother act ha
  refine Lts.run_invariant_of_meets (I := Smooth id cb key total) ?_ h (hmeets.and (hobeys.and hlevel)) hrun
  rintro sys act sys' h ⟨hother, hobeys, hlevel⟩ hs
  exact h.step hs hobeys hlevel fun _ _ hin => hother.brings hin

theorem Smooth.init (maxUpload maxDownload : Nat) :
    Smooth id cb key total (.init maxUpload maxDownload) where
  base := .init maxUpload maxDownload
  steady := ⟨.init maxUpload maxDownload, fun g hg => by simp [Sys.init, Loop.init, SchedulerState.new] at hg,
    fun g hg => by simp [Sys.init, Loop.init, SchedulerState.new] at hg⟩
  paired := fun k g hg => by simp [Sys.init, Loop.init, SchedulerState.new] at hg
  at_key := fun k g hg => by simp [Sys.init, Loop.init, SchedulerState.new] at hg
  waiting := fun hk => absurd hk List.not_mem_nil
  unheard := fun _ => rfl
  rising := List.Pairwise.nil
  bounded := fun dto hdto => absurd hdto List.not_mem_nil
  last := fun g hg => by simp [Sys.init, Loop.init, SchedulerState.new] at hg

theorem LoopInput.reaches_of_not_advances (hin : sys.intake act = some (input, pool))
    (hno : ¬ Advances key sys act) (stored : Nat) : input.reaches key stored = stored := by
  cases act with
  | work => cases hin
  | listen | cmd =>
    cases hin
    rfl
  | deliver i =>
    obtain ⟨⟨event, pool'⟩, htake, he⟩ := Option.map_eq_some_iff.1 hin
    cases he
    cases event with
    | failed | canceled => rfl
    | progress k n t => exact if_neg fun hk => hno ⟨_, htake, hk, rfl⟩
    | completed k t => exact if_neg fun hk => hno ⟨_, htake, hk, rfl⟩

/-- What a step tells the callback, if it advances the task by no event, is the last record's progress. -/
theorem Smooth.repeats (h : Smooth id cb key total sys) (hs : sys.step act = some sys')
    (hlevel : Level id total sys act) (hother : act.Other id cb) (hno : ¬ Advances key sys act)
    {dto : FileTransferRecord}
    (hdto : dto ∈ recordsTo cb (sys'.loop.log.drop sys.loop.log.length)) :
    ∃ last, (recordsTo cb sys.loop.log).getLast? = some last ∧ dto.progress = last.progress := by
  obtain ⟨input, pool, hin, hfeed⟩ | ⟨i, input, pool, rfl, _, rfl⟩ := Sys.step_cases hs
  · obtain ⟨_, _, hloop⟩ := Loop.step_eq_some.1 (Sys.feed_eq_some.1 hfeed).1
    rw [hloop, List.drop_left] at hdto
    obtain ⟨hp, hsource⟩ := h.told hlevel hin (hother.brings hin) hdto
    rw [LoopInput.reaches_of_not_advances hin hno] at hp
    obtain ⟨g, hg, hid⟩ | ⟨inner, callbacks, he, hid⟩ := hsource
    · obtain ⟨last, hlast, heq⟩ := h.last g hg hid
      exact ⟨last, hlast, hp.trans heq.symm⟩
    · subst he
      exact absurd hid (hother inner callbacks (Sys.intake_cmd hin)).1
  · rw [List.drop_length] at hdto
    cases hdto

end

/-- **Continuous progress.** Take any run with an accepted `Enqueue` whose callback is its own, in which the
executor of the task keeps the range protocol for some total. While every step finds the task level with that
total, the progress delivered to the callback never goes back and stays within 1; and the records of any
step that handles neither a `Progress` nor a `Completed` of the task repeat the last one. -/
theorem progress_is_continuous {maxUpload maxDownload total : Nat} {before after : List Act}
    {inner : InnerTask} {cb : ProgressCb} {sys0 sys : Sys}
    (hbefore : Lts.run Sys.step (.init maxUpload maxDownload) before = some sys0)
    (haccepted : inner.dedupeKey ∉ sys0.loop.state.groups)
    (hrun : Lts.run Sys.step sys0 (.cmd (.enqueue inner ⟨some cb⟩) :: after) = some sys)
    (hown : ∀ inner' callbacks, .cmd (.enqueue inner' callbacks) ∈ before ++ after →
      callbacks.progressCb ≠ some cb)
    (hobeys : Lts.Meets Sys.step (Obeys inner.taskId total) (.init maxUpload maxDownload)
      (before ++ .cmd (.enqueue inner ⟨some cb⟩) :: after))
    (hlevel : Lts.Meets Sys.step (Level inner.taskId total) (.init maxUpload maxDownload)
      (before ++ .cmd (.enqueue inner ⟨some cb⟩) :: after)) :
    ((recordsTo cb sys.loop.log).map (·.progress)).Pairwise (· ≤ ·) ∧
    (∀ dto ∈ recordsTo cb sys.loop.log, dto.progress ≤ 1) ∧
    ∀ pre act post point point', after = pre ++ act :: post →
      Lts.run Sys.step sys0 (.cmd (.enqueue inner ⟨some cb⟩) :: pre) = some point →
      point.step act = some point' → ¬ Advances inner.dedupeKey point act →
      ∀ dto ∈ recordsTo cb (point'.loop.log.drop point.loop.log.length),
        ∃ last, (recordsTo cb point.loop.log).getLast? = some last ∧ dto.progress = last.progress := by
  obtain ⟨sys1, hs, hafter⟩ := Lts.run_cons.1 hrun
  obtain ⟨hissued, hfresh⟩ := Sys.step_issued hs
  have hid : inner.taskId ∉ sys0.loop.issued := hfresh _ List.mem_cons_self
  -- nobody else has the id or the callback
  have hbeforeOther : ∀ act ∈ before, act.Other inner.taskId cb := by
    rintro act ha inner' callbacks rfl
    refine ⟨fun he => hid ?_, hown inner' callbacks (List.mem_append_left _ ha)⟩
    rw [(Sys.run_issued hbefore).1]
    refine List.mem_append_right _ (List.mem_flatMap.2 ⟨_, ha, ?_⟩)
    rw [← he]
    exact List.mem_cons_self
  have hafterOther : ∀ act ∈ after, act.Other inner.taskId cb := by
    rintro act ha inner' callbacks rfl
    refine ⟨fun he => (Sys.run_issued hafter).2 inner'.taskId ?_ ?_,
      hown inner' callbacks (List.mem_append_right _ ha)⟩
    · exact List.mem_flatMap.2 ⟨_, ha, List.mem_cons_self⟩
    · rw [hissued, he]
      exact List.mem_append_right _ List.mem_cons_self
  have hobeys0 := hobeys.right hbefore
  have hlevel0 := hlevel.right hbefore
  have h0 : Smooth inner.taskId cb inner.dedupeKey total sys0 :=
    (Smooth.init maxUpload maxDownload).run hbefore hbeforeOther hobeys.left hlevel.left
  have h1 : Smooth inner.taskId cb inner.dedupeKey total sys1 := by
    refine h0.step hs hobeys0.1 hlevel0.1 fun input pool hin => ?_
    cases hin
    refine ⟨fun inner' callbacks he => ?_, fun inner' callbacks he _ => ?_⟩
    · cases he
      exact iff_of_true rfl rfl
    · cases he
      exact ⟨rfl, Finmap.lookup_eq_none.2 haccepted⟩
  have h := h1.run hafter hafterOther (hobeys0.2 sys1 hs) (hlevel0.2 sys1 hs)
  refine ⟨h.rising, h.bounded, ?_⟩
  rintro pre act post point point' rfl hpre hstep hno dto hdto
  obtain ⟨sys1', hs', hpre⟩ := Lts.run_cons.1 hpre
  rw [hs] at hs'
  cases hs'
  have hpoint := h1.run hpre (fun act ha => hafterOther act (List.mem_append_left _ ha))
    (hobeys0.2 sys1 hs).left (hlevel0.2 sys1 hs).left
  have hlevelPoint := (hlevel0.2 sys1 hs).right hpre
  exact hpoint.repeats hstep hlevelPoint.1 (hafterOther act (List.mem_append_right _ List.mem_cons_self))
    hno hdto

/-- A pause and a resume of a task that knows its size. -/
def pauseThenResume : List Act := pauseAfterProgress.tail ++ [.cmd (.resume ⟨0⟩)]

theorem progress_is_continuous_resumed : ∃ sys,
    Lts.run Sys.step (.init 1 1) (.cmd (sampleEnqueue 0) :: pauseThenResume) = some sys ∧
      ((recordsTo ⟨0⟩ sys.loop.log).map (·.progress)).Pairwise (· ≤ ·) := by
  have hrun : Lts.run Sys.step (.init 1 1) (.cmd (sampleEnqueue 0) :: pauseThenResume) = some _ :=
    Lts.run_final (by decide)
  refine ⟨_, hrun, (@progress_is_continuous 1 1 8 [] pauseThenResume (sampleTask 0) ⟨0⟩ _ _ rfl
    Finmap.notMem_empty hrun ?_ (by decide) (by decide)).1⟩
  intro inner callbacks hm
  simp [pauseThenResume, pauseAfterProgress] at hm

/-- The same download as the builder makes it, up to its pause. -/
def unsizedPause : List Act :=
  [.cmd (.enqueue { sampleTask 0 with totalSize := 0 } ⟨some ⟨0⟩⟩), .work 0 (.prepared (.ok ⟨0, 8⟩)),
    .work 0 (.token false), .work 0 (.attempt (.token false)), .work 0 (.attempt (.chunk (.ok ⟨4, 8, false⟩))),
    .work 0 .sent, .deliver 0, .cmd (.pause ⟨0⟩)]

/-- **A paused download falls back to 0.** The server keeps the range protocol, and the only task there has
been told of a half. -/
theorem unsizedPause_falls_back : ∃ sys,
    Lts.run Sys.step (.init 1 1) unsizedPause = some sys ∧
      Lts.Meets Sys.step (Obeys ⟨0⟩ 8) (.init 1 1) unsizedPause ∧
      (recordsTo ⟨0⟩ sys.loop.log).map (fun dto => (dto.status, dto.progress)) =
        [(.pending, 0), (.transmission, 0), (.transmission, 1 / 2), (.paused, 0)] ∧
      ¬ ((recordsTo ⟨0⟩ sys.loop.log).map (·.progress)).Pairwise (· ≤ ·) := by
  have hrun : Lts.run Sys.step (.init 1 1) unsizedPause = some _ := Lts.run_final (by decide)
  have htold : (recordsTo ⟨0⟩ (Lts.final Sys.step (.init 1 1) unsizedPause).loop.log).map
      (fun dto => (dto.status, dto.progress)) =
        [(.pending, progressOf 0 0), (.transmission, progressOf 0 0), (.transmission, progressOf 4 8),
          (.paused, progressOf 4 0)] := rfl
  have hvalues : (recordsTo ⟨0⟩ (Lts.final Sys.step (.init 1 1) unsizedPause).loop.log).map
      (fun dto => (dto.status, dto.progress)) =
        [(.pending, 0), (.transmission, 0), (.transmission, 1 / 2), (.paused, 0)] := by
    rw [htold]
    norm_num [progressOf]
  refine ⟨_, hrun, by decide, hvalues, fun h => ?_⟩
  have hfst : (recordsTo ⟨0⟩ (Lts.final Sys.step (.init 1 1) unsizedPause).loop.log).map (·.progress) =
      [0, 0, 1 / 2, 0] := List.map_map.symm.trans (congrArg (List.map Prod.snd) hvalues)
  rw [hfst] at h
  norm_num [List.pairwise_cons] at h

end SpottedCat
