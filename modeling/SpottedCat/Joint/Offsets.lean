import SpottedCat.Joint.Ownership

/-!
# Where a worker starts

Offsets are kept per dedupe key and outlive the group: every terminal event drops the key's offset,
`cancel_group` does not. A task that is cancelled while it is paused leaves its offset to whoever is
enqueued under the key next (`cancelWhilePaused_inherits`).

In runs in which every accepted `Enqueue` finds its key's workers spent and its offset at 0, `Remembered`
says where the offset of a group stands: applying the worker's events that are still in the channel to
it gives the last `Progress` the task has sent. So a worker starts exactly there
(`start_offset_is_last_progress`). A worker is spent when it has ended and has at most a `Completed` or a
`Failed` on its way, which takes the offset with the group.
-/

namespace SpottedCat

/-- The `next_offset` of the last `Progress` among the events, `start` if there is none. -/
def lastProgress (start : Nat) : List WorkerEvent → Nat
  | [] => start
  | .progress _ nextOffset _ :: es => lastProgress nextOffset es
  | _ :: es => lastProgress start es

/-- The events sent so far by the workers of a task. -/
def Pool.sentBy (pool : Pool) (id : TaskId) : List WorkerEvent :=
  pool.sent.filterMap fun m => if m.1 = id then some m.2 else none

/-- The group goes with such an event, and its offset with it. -/
def WorkerEvent.drops : WorkerEvent → Bool
  | .completed .. | .failed .. => true
  | _ => false

/-- The worker has ended, with neither a `Progress` nor a `Canceled` on its way. -/
abbrev Worker.Spent : Worker → Prop := Worker.Past WorkerEvent.drops

theorem Worker.Spent.passes : Passes Worker.Spent := .of_harmless fun _ => rfl

def Pool.Spent (pool : Pool) (key : UniqueId) : Prop := ∀ w ∈ pool.workers, w.key = key → w.Spent

instance (pool : Pool) (key : UniqueId) : Decidable (pool.Spent key) :=
  inferInstanceAs (Decidable (∀ w ∈ pool.workers, _))

/-- An `Enqueue` that is accepted finds the workers of its key spent, and its offset at 0. -/
def CleanOffset (sys : Sys) : Act → Prop
  | .cmd (.enqueue inner _) =>
    sys.loop.state.groups.lookup inner.dedupeKey = none →
      sys.pool.Spent inner.dedupeKey ∧ sys.loop.state.current inner.dedupeKey = 0
  | _ => True

instance (sys : Sys) : ∀ act, Decidable (CleanOffset sys act)
  | .cmd (.enqueue ..) => inferInstanceAs (Decidable (_ = none → _ ∧ _ = 0))
  | .cmd (.pause _) | .cmd (.resume _) | .cmd (.cancel _) | .cmd .snapshot | .cmd (.close ..) | .listen _
  | .deliver _ | .work .. => isTrue trivial

/-- Every worker started in a step starts where the last `Progress` of its task left off. -/
def StartsAtLastProgress (sys sys' : Sys) : Prop :=
  ∀ (i : Nat) (w : Worker), sys.pool.workers.length ≤ i → sys'.pool.workers[i]? = some w →
    w.startOffset = lastProgress 0 (sys.pool.sentBy w.inner.taskId)

structure Remembered (ids : List TaskId) (s : SchedulerState) (pool : Pool) : Prop
    extends Owned Worker.Spent s pool where
  leader_issued : ∀ k g, s.groups.lookup k = some g → g.leaderInner.taskId ∈ ids
  worker_issued : ∀ (i : Nat) (w : Worker), pool.workers[i]? = some w → w.inner.taskId ∈ ids
  sent_issued : ∀ m ∈ pool.sent, m.1 ∈ ids
  same_task : ∀ k g (i : Nat) (w : Worker), s.groups.lookup k = some g → pool.workers[i]? = some w →
    w.inner.taskId = g.leaderInner.taskId → w.key = k
  /-- The events in flight lead from the stored offset to the last one sent. -/
  flight : ∀ k g (i : Nat) (w : Worker), s.groups.lookup k = some g → pool.workers[i]? = some w →
    w.key = k → ¬ w.Spent →
      lastProgress (s.current k) w.outbox = lastProgress 0 (pool.sentBy g.leaderInner.taskId)
  spent : ∀ k g, s.groups.lookup k = some g → pool.Spent k →
    s.current k = lastProgress 0 (pool.sentBy g.leaderInner.taskId)

/-! ## `lastProgress` -/

theorem lastProgress_append (start : Nat) (es es' : List WorkerEvent) :
    lastProgress start (es ++ es') = lastProgress (lastProgress start es) es' := by
  induction es generalizing start with
  | nil => rfl
  | cons e es ih => cases e <;> exact ih _

theorem lastProgress_of_drops {start : Nat} {es : List WorkerEvent} (h : ∀ e ∈ es, e.drops = true) :
    lastProgress start es = start := by
  induction es with
  | nil => rfl
  | cons e es ih =>
    have hrest := ih fun e' he' => h e' (List.mem_cons_of_mem _ he')
    have hdrops := h e List.mem_cons_self
    cases e with
    | progress | canceled => cases hdrops
    | completed | failed => exact hrest

theorem sentBy_append (pool : Pool) (id id' : TaskId) (out : List WorkerEvent) (workers : List Worker) :
    Pool.sentBy { pool with workers := workers, sent := pool.sent ++ out.map fun e => (id', e) } id =
      pool.sentBy id ++ if id' = id then out else [] := by
  simp only [Pool.sentBy, List.filterMap_append, List.filterMap_map]
  congr 1
  by_cases h : id' = id <;> simp [h]

/-- Nothing was sent under an id that was never issued. -/
theorem Remembered.sentBy_fresh {ids : List TaskId} {s : SchedulerState} {pool : Pool} {id : TaskId}
    (h : Remembered ids s pool) (hid : id ∉ ids) : pool.sentBy id = [] := by
  rw [Pool.sentBy, List.filterMap_eq_nil_iff]
  intro m hm
  rw [if_neg]
  rintro rfl
  exact hid (h.sent_issued m hm)

/-! ## Invariance -/

section
variable {ids : List TaskId} {s s' : SchedulerState} {pool pool' : Pool}

theorem Pool.Spent.of_lookup {key : UniqueId}
    (h : ∀ (i : Nat) (w : Worker), pool.workers[i]? = some w → w.key = key → w.Spent) :
    pool.Spent key := by
  intro w hw hk
  obtain ⟨i, hi⟩ := List.mem_iff_getElem?.1 hw
  exact h i w hi hk

theorem Pool.Spent.lookup {key : UniqueId} (h : pool.Spent key) {i : Nat} {w : Worker}
    (hw : pool.workers[i]? = some w) (hk : w.key = key) : w.Spent :=
  h w (List.mem_of_getElem? hw) hk

/-- Some groups go; workers, and the offsets of what is left, stay. -/
theorem Remembered.shrink {ids' : List TaskId} (h : Remembered ids s pool)
    (howned : Owned Worker.Spent s' pool') (hids : ids ⊆ ids')
    (hgroups : ∀ k g, s'.groups.lookup k = some g →
      s.groups.lookup k = some g ∧ s'.offsets.lookup k = s.offsets.lookup k)
    (hw : pool'.workers = pool.workers) (hsent : pool'.sent = pool.sent) :
    Remembered ids' s' pool' := by
  have hcur : ∀ k g, s'.groups.lookup k = some g → s'.current k = s.current k := fun k g hg => by
    rw [SchedulerState.current, SchedulerState.current, (hgroups k g hg).2]
  have hby : ∀ id, pool'.sentBy id = pool.sentBy id := fun id => by rw [Pool.sentBy, Pool.sentBy, hsent]
  refine ⟨howned, fun k g hg => hids (h.leader_issued k g (hgroups k g hg).1),
    fun i w hi => hids (h.worker_issued i w (hw ▸ hi)), fun m hm => hids (h.sent_issued m (hsent ▸ hm)),
    fun k g i w hg hi => h.same_task k g i w (hgroups k g hg).1 (hw ▸ hi),
    fun k g i w hg hi hk hs => ?_, fun k g hg hq => ?_⟩
  · rw [hcur k g hg, hby]
    exact h.flight k g i w (hgroups k g hg).1 (hw ▸ hi) hk hs
  · rw [hcur k g hg, hby]
    exact h.spent k g (hgroups k g hg).1 fun w hm => hq w (hw ▸ hm)

theorem Remembered.spent_of_free {key : UniqueId} {group : GroupState} (h : Remembered ids s pool)
    (ha : key ∉ s.active) (hg : s.groups.lookup key = some group) : pool.Spent key :=
  .of_lookup fun _ _ hw hk => h.toOwned.past_of_free ha hg hw hk

theorem Remembered.start {key : UniqueId} {group : GroupState} (hl : Loose s)
    (h : Remembered ids s pool) (ha : key ∉ s.active) (hg : s.groups.lookup key = some group) :
    Remembered ids (s.activate key)
      (pool.spawn ⟨key, group.leaderInner, ⟨s.nextToken⟩, s.current key, .preparing, []⟩) := by
  have hspent : pool.Spent key := h.spent_of_free ha hg
  refine ⟨h.toOwned.start hl ha hg, h.leader_issued, fun i w hi => ?_, h.sent_issued,
    fun k g i w hgk hi hid => ?_, fun k g i w hgk hi hk hs => ?_, fun k g hgk hq => ?_⟩
  · rcases Places.lookup_push.1 hi with hi | ⟨_, rfl⟩
    · exact h.worker_issued i w hi
    · exact h.leader_issued key group hg
  · rcases Places.lookup_push.1 hi with hi | ⟨_, rfl⟩
    · exact h.same_task k g i w hgk hi hid
    · -- one id is the leader of one group
      have h1 := (hl.id_map _ key).2 ⟨group, hg, rfl⟩
      have h2 := (hl.id_map _ k).2 ⟨g, hgk, hid.symm⟩
      rw [h1] at h2
      exact Option.some.inj h2
  · rcases Places.lookup_push.1 hi with hi | ⟨_, rfl⟩
    · exact h.flight k g i w hgk hi hk hs
    · subst hk
      exact h.spent _ g hgk hspent
  · refine h.spent k g hgk fun w hm hk => ?_
    exact hq w (List.mem_append.2 (.inl hm)) hk

theorem Remembered.accept {inner : InnerTask} {callbacks : TaskCallbacks} (h : Remembered ids s pool)
    (hspent : pool.Spent inner.dedupeKey) (hoffset : s.current inner.dedupeKey = 0)
    (hid : inner.taskId ∉ ids) (howned : Owned Worker.Spent s' pool)
    (hg : s'.groups = s.groups.insert inner.dedupeKey ⟨inner, ⟨inner, callbacks⟩⟩)
    (ho : s'.offsets = s.offsets) : Remembered (ids ++ [inner.taskId]) s' pool := by
  have hcases : ∀ k g, s'.groups.lookup k = some g →
      k = inner.dedupeKey ∧ g = ⟨inner, ⟨inner, callbacks⟩⟩ ∨ s.groups.lookup k = some g := by
    intro k g hk
    rw [hg, Table.lookup_insert_ite] at hk
    split at hk
    · rename_i hkey; exact .inl ⟨hkey, (Option.some.inj hk).symm⟩
    · exact .inr hk
  have hcur : ∀ k, s'.current k = s.current k := fun k => by
    rw [SchedulerState.current, SchedulerState.current, ho]
  refine ⟨howned, fun k g hk => ?_, fun i w hi => List.mem_append_left _ (h.worker_issued i w hi),
    fun m hm => List.mem_append_left _ (h.sent_issued m hm), fun k g i w hk hi he => ?_,
    fun k g i w hk hi hkey hs => ?_, fun k g hk hq => ?_⟩
  · rcases hcases k g hk with ⟨_, rfl⟩ | hk
    · exact List.mem_append_right _ (List.mem_singleton.2 rfl)
    · exact List.mem_append_left _ (h.leader_issued k g hk)
  · rcases hcases k g hk with ⟨_, rfl⟩ | hk
    · exact absurd (he ▸ h.worker_issued i w hi) hid
    · exact h.same_task k g i w hk hi he
  · rcases hcases k g hk with ⟨rfl, rfl⟩ | hk
    · exact absurd (hspent.lookup hi hkey) hs
    · rw [hcur]; exact h.flight k g i w hk hi hkey hs
  · rcases hcases k g hk with ⟨rfl, rfl⟩ | hk
    · rw [hcur, hoffset, h.sentBy_fresh hid]
      rfl
    · rw [hcur]; exact h.spent k g hk hq

/-- An event that leaves the group in place moves the stored offset as `lastProgress` does. -/
theorem Footprint.current {event : WorkerEvent} {g : GroupState}
    (hf : Footprint s (.event event) s') (hg : s'.groups.lookup event.key = some g) :
    s.groups.lookup event.key = some g ∧
      s'.current event.key = lastProgress (s.current event.key) [event] := by
  cases hf with
  | keep hcmd => exact absurd rfl (hcmd event)
  | progress key nextOffset totalSize hgroups _ ho =>
    refine ⟨hgroups ▸ hg, ?_⟩
    simp [SchedulerState.current, ho, WorkerEvent.key, lastProgress]
  | finish _ _ hgroups => simp [hgroups] at hg
  | stop key _ hgroups _ ho =>
    refine ⟨hgroups ▸ hg, ?_⟩
    simp [SchedulerState.current, ho, lastProgress]

theorem Footprint.group_of_drops {event : WorkerEvent} (hf : Footprint s (.event event) s')
    (hdrops : event.drops = true) : s'.groups.lookup event.key = none := by
  cases hf with
  | keep hcmd => exact absurd rfl (hcmd event)
  | progress | stop => cases hdrops
  | finish _ _ hgroups => simp [hgroups]

theorem Remembered.deliver {i : Nat} {event : WorkerEvent} (h : Remembered ids s pool)
    (htake : pool.take i = some (event, pool')) (hf : Footprint s (.event event) s')
    (howned : Owned Worker.Spent s' pool') : Remembered ids s' pool' := by
  obtain ⟨w, rest, hw, hout, rfl⟩ := Pool.take_eq_some.1 htake
  -- the event of a spent worker leaves no group
  have hs : ∀ g, s'.groups.lookup event.key = some g → ¬ w.Spent := by
    intro g hg hspent
    cases hg.symm.trans (hf.group_of_drops (hspent.2 event (hout ▸ List.mem_cons_self)))
  obtain ⟨_, hkey, _⟩ := (h.worker i w hw).1.take hout
  -- groups only go, and only the event's key can lose one
  have hgroups : ∀ k g, s'.groups.lookup k = some g → s.groups.lookup k = some g := by
    intro k g hk
    by_cases hne : k = event.key
    · subst hne; exact (hf.current hk).1
    · exact (hf.event_frame hne).1 ▸ hk
  have hcur : ∀ k, k ≠ event.key → s'.current k = s.current k := fun k hne => by
    rw [SchedulerState.current, SchedulerState.current, (hf.event_frame hne).2.2]
  have hmoved : ∀ g, s'.groups.lookup event.key = some g →
      lastProgress (s'.current event.key) rest = lastProgress 0 (pool.sentBy g.leaderInner.taskId) := by
    intro g hg
    obtain ⟨hg', hc⟩ := hf.current hg
    rw [hc, ← lastProgress_append, List.singleton_append, ← hout]
    exact h.flight _ g i w hg' hw hkey.symm (hs g hg)
  refine ⟨howned, fun k g hk => h.leader_issued k g (hgroups k g hk), fun j w' hj => ?_, h.sent_issued,
    fun k g j w' hk hj he => ?_, fun k g j w' hk hj hwk hs' => ?_, fun k g hk hq => ?_⟩
  · rcases Places.lookup_set.1 hj with ⟨_, _, rfl⟩ | ⟨_, hj⟩
    · exact h.worker_issued i w hw
    · exact h.worker_issued j w' hj
  · rcases Places.lookup_set.1 hj with ⟨_, _, rfl⟩ | ⟨_, hj⟩
    · exact h.same_task k g i w (hgroups k g hk) hw he
    · exact h.same_task k g j w' (hgroups k g hk) hj he
  · rcases Places.lookup_set.1 hj with ⟨_, _, rfl⟩ | ⟨hne, hj⟩
    · have hkk : k = event.key := hwk.symm.trans hkey.symm
      subst hkk
      exact hmoved g hk
    · have hkk : k ≠ event.key := by
        rintro rfl
        exact hne (h.single j i w' w hj hw hs' (hs g hk) (hwk.trans hkey))
      rw [hcur k hkk]
      exact h.flight k g j w' (hgroups k g hk) hj hwk hs'
  · by_cases hkk : k = event.key
    · subst hkk
      have hspent : Worker.Spent { w with outbox := rest } :=
        hq.lookup (Places.lookup_set.2 (.inl ⟨rfl, (List.getElem?_eq_some_iff.1 hw).1, rfl⟩)) hkey.symm
      have hat := hmoved g hk
      rwa [lastProgress_of_drops hspent.2] at hat
    · rw [hcur k hkk]
      refine h.spent k g (hgroups k g hk) (.of_lookup fun j w' hj hwk => ?_)
      refine hq.lookup (Places.lookup_set.2 (.inr ⟨?_, hj⟩)) hwk
      rintro rfl
      rw [hw] at hj
      cases hj
      exact hkk (hwk.symm.trans hkey.symm)

theorem Remembered.work {i : Nat} {input : RunIn} (h : Remembered ids s pool)
    (hwork : pool.work i input = some pool') (howned : Owned Worker.Spent s pool') : Remembered ids s pool' := by
  obtain ⟨w, pc, out, hw, _, hstep, rfl⟩ := Pool.work_eq_some.1 hwork
  obtain ⟨_, hrun, _⟩ := (h.worker i w hw).1.work hstep
  have hs : ¬ w.Spent := fun hspent => hrun hspent.1
  -- of the worker's own task both sides gain the same event
  have hgains : ∀ g, s.groups.lookup w.key = some g → w.inner.taskId = g.leaderInner.taskId ∧
      lastProgress (s.current w.key) (w.outbox ++ out.toList) =
        lastProgress 0 (pool.sentBy g.leaderInner.taskId ++ out.toList) := by
    intro g hg
    refine ⟨by rw [(h.own i w g hw hs hg).2], ?_⟩
    rw [lastProgress_append, lastProgress_append, h.flight _ g i w hg hw rfl hs]
  refine ⟨howned, h.leader_issued, fun j w' hj => ?_, fun m hm => ?_, fun k g j w' hk hj he => ?_,
    fun k g j w' hk hj hwk hs' => ?_, fun k g hk hq => ?_⟩
  · rcases Places.lookup_set.1 hj with ⟨_, _, rfl⟩ | ⟨_, hj⟩
    · exact h.worker_issued i w hw
    · exact h.worker_issued j w' hj
  · rcases List.mem_append.1 hm with hm | hm
    · exact h.sent_issued m hm
    · obtain ⟨_, _, rfl⟩ := List.mem_map.1 hm
      exact h.worker_issued i w hw
  · rcases Places.lookup_set.1 hj with ⟨_, _, rfl⟩ | ⟨_, hj⟩
    · exact h.same_task k g i w hk hw he
    · exact h.same_task k g j w' hk hj he
  · rw [sentBy_append]
    rcases Places.lookup_set.1 hj with ⟨_, _, rfl⟩ | ⟨hne, hj⟩
    · subst hwk
      obtain ⟨hid, hgain⟩ := hgains g hk
      rw [if_pos hid]
      exact hgain
    · have hid : w.inner.taskId ≠ g.leaderInner.taskId := fun he =>
        hne (h.single j i w' w hj hw hs' hs (hwk.trans (h.same_task k g i w hk hw he).symm))
      rw [if_neg hid, List.append_nil]
      exact h.flight k g j w' hk hj hwk hs'
  · rw [sentBy_append]
    by_cases hkk : w.key = k
    · subst hkk
      obtain ⟨hid, hgain⟩ := hgains g hk
      have hspent := hq.lookup (Places.lookup_set.2 (.inl ⟨rfl, (List.getElem?_eq_some_iff.1 hw).1, rfl⟩)) rfl
      rw [if_pos hid, ← hgain, lastProgress_of_drops hspent.2]
    · have hid : w.inner.taskId ≠ g.leaderInner.taskId := fun he => hkk (h.same_task k g i w hk hw he)
      rw [if_neg hid, List.append_nil]
      refine h.spent k g hk (.of_lookup fun j w' hj hwk => ?_)
      refine hq.lookup (Places.lookup_set.2 (.inr ⟨?_, hj⟩)) hwk
      rintro rfl
      rw [hw] at hj
      cases hj
      exact hkk hwk

end

theorem Remembered.lockstep : Lockstep CleanOffset Remembered where
  frame h hids hsame hw hsent :=
    h.shrink (h.toOwned.frame hsame hw) hids (fun k g hk => ⟨hsame.groups ▸ hk, by rw [hsame.offsets]⟩)
      hw hsent
  start hl h ha hg _ := h.start hl ha hg
  accept h hc hid hv hg ha ho hlim :=
    h.accept (hc hv).1 (hc hv).2 hid (h.toOwned.accept (hc hv).1 hg ha hlim) hg ho
  cancel h _ _ hg ha ho hlim :=
    h.shrink (h.toOwned.cancel hg ha hlim) (List.Subset.refl _)
      (fun k g hk => ⟨(lookup_of_erase_group hg ha hk).1, by rw [ho]⟩) rfl rfl
  close h _ hg ha _ hlim :=
    h.shrink (h.toOwned.close hg ha hlim) (List.Subset.refl _)
      (fun k g hk => by rw [hg] at hk; cases hk) rfl rfl
  deliver h htake hf hlim := h.deliver htake hf (h.toOwned.deliver Worker.Spent.passes htake hf hlim)
  work h hw := h.work hw (h.toOwned.work Worker.Spent.passes hw)

theorem Remembered.init (maxUpload maxDownload : Nat) :
    Remembered [] (.new maxUpload maxDownload []) ⟨[], [], ∅⟩ where
  toOwned := .init Worker.Spent maxUpload maxDownload
  leader_issued := fun k g hk => by simp [SchedulerState.new] at hk
  worker_issued := fun i w hw => by simp at hw
  sent_issued := fun m hm => absurd hm List.not_mem_nil
  same_task := fun k g i w hk => by simp [SchedulerState.new] at hk
  flight := fun k g i w hk => by simp [SchedulerState.new] at hk
  spent := fun k g hk => by simp [SchedulerState.new] at hk

/-! ## Runs -/

/-- **Offset ownership.** While every accepted `Enqueue` finds the workers of its key spent and its offset at 0,
each worker a further step starts is given the last `Progress` its own task has sent, or 0. -/
theorem start_offset_is_last_progress {maxUpload maxDownload : Nat} {acts : List Act} {act : Act}
    {sys sys' : Sys} (hrun : Lts.run Sys.step (.init maxUpload maxDownload) acts = some sys)
    (hstep : sys.step act = some sys')
    (hclean : Lts.Meets Sys.step CleanOffset (.init maxUpload maxDownload) acts)
    (hact : CleanOffset sys act) : StartsAtLastProgress sys sys' := by
  obtain ⟨hloop, hrem⟩ := Remembered.lockstep.run (.init maxUpload maxDownload) hrun hclean
  -- what the workers started within this step have in common
  let New (ids : List TaskId) (s : SchedulerState) (pool : Pool) : Prop :=
    Remembered ids s pool ∧ pool.sent = sys.pool.sent ∧ ∀ (i : Nat) (w : Worker),
      sys.pool.workers.length ≤ i → pool.workers[i]? = some w →
        w.startOffset = lastProgress 0 (sys.pool.sentBy w.inner.taskId)
  have hstarts : Starts New := by
    constructor
    · rintro ids ids' s s' pool pool' ⟨h, hsent, hnew⟩ hids hsame hw hsent'
      exact ⟨Remembered.lockstep.frame h hids hsame hw hsent', hsent'.trans hsent, fun i w => by
        rw [hw]; exact hnew i w⟩
    · rintro ids s pool key group hl ⟨h, hsent, hnew⟩ ha hg _
      refine ⟨h.start hl ha hg, hsent, fun i w hi hw => ?_⟩
      rcases Places.lookup_push.1 hw with hw | ⟨_, rfl⟩
      · exact hnew i w hi hw
      · have hby := h.spent key group hg (h.spent_of_free ha hg)
        rw [Pool.sentBy, hsent] at hby
        exact hby
  have hold : ∀ pool : Pool, pool.workers.length = sys.pool.workers.length → ∀ (i : Nat) (w : Worker),
      sys.pool.workers.length ≤ i → pool.workers[i]? = some w →
        w.startOffset = lastProgress 0 (sys.pool.sentBy w.inner.taskId) := fun pool hlen i w hi hw => by
    have := (List.getElem?_eq_some_iff.1 hw).1
    omega
  obtain ⟨input, pool, hin, hfeed⟩ | ⟨i, input, pool, _, hwork, rfl⟩ := Sys.step_cases hstep
  · have hpool : pool.sent = sys.pool.sent ∧ pool.workers.length = sys.pool.workers.length := by
      cases act with
      | cmd | listen => cases hin; exact ⟨rfl, rfl⟩
      | deliver i =>
        obtain ⟨⟨event, pool'⟩, htake, he⟩ := Option.map_eq_some_iff.1 hin
        cases he
        obtain ⟨w, rest, _, _, rfl⟩ := Pool.take_eq_some.1 htake
        exact ⟨rfl, List.length_set⟩
      | work => cases hin
    have hnew := hstarts.feed hloop (fun s' hf hlimits =>
      ⟨Remembered.lockstep.toFeeds.intake hrem hact hin hfeed hf hlimits, hpool.1, hold pool hpool.2⟩) hfeed
    exact hnew.2.2.2
  · obtain ⟨w, pc, out, _, _, _, rfl⟩ := Pool.work_eq_some.1 hwork
    exact hold _ List.length_set

/-- Resumed, it goes on from its own offset. -/
theorem start_offset_is_last_progress_resumed : ∃ sys sys',
    Lts.run Sys.step (.init 1 1) pauseAfterProgress = some sys ∧
      sys.step (.cmd (.resume ⟨0⟩)) = some sys' ∧ StartsAtLastProgress sys sys' := by
  have hrun : Lts.run Sys.step (.init 1 1) pauseAfterProgress = some _ := Lts.run_final (by decide)
  obtain ⟨sys', hs⟩ := Option.isSome_iff_exists.1
    (show ((Lts.final Sys.step (.init 1 1) pauseAfterProgress).step (.cmd (.resume ⟨0⟩))).isSome by
      decide)
  exact ⟨_, _, hrun, hs, start_offset_is_last_progress hrun hs (by decide) (by decide)⟩

/-- Then it is cancelled instead, and its url enqueued again. -/
def cancelWhilePaused : List Act := pauseAfterProgress ++ [.cmd (.cancel ⟨0⟩)]

/-- The new task starts at the cancelled one's offset. -/
theorem cancelWhilePaused_inherits : ∃ sys sys',
    Lts.run Sys.step (.init 1 1) cancelWhilePaused = some sys ∧
      sys.step (.cmd (sampleEnqueue 1)) = some sys' ∧ ¬ StartsAtLastProgress sys sys' := by
  have hrun : Lts.run Sys.step (.init 1 1) cancelWhilePaused = some _ := Lts.run_final (by decide)
  have hstep : Lts.run Sys.step (Lts.final Sys.step (.init 1 1) cancelWhilePaused)
      [.cmd (sampleEnqueue 1)] = some _ := Lts.run_final (by decide)
  obtain ⟨sys', hs, hnil⟩ := Lts.run_cons.1 hstep
  cases hnil
  refine ⟨_, _, hrun, hs, fun h => ?_⟩
  have hstart := h 1 ⟨(sampleTask 1).dedupeKey, sampleTask 1, ⟨1⟩, 4, .preparing, []⟩ (by decide) (by decide)
  revert hstart
  decide

end SpottedCat
