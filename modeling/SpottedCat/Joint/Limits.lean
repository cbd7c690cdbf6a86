import SpottedCat.Joint.Ownership
import SpottedCat.Sched.Refill

/-!
# Concurrency limits and running workers

`can_start_direction` counts the keys in `active`. `cancel_group` takes the key out while its worker
still runs, so more workers than the limit can be live (`cancelThenEnqueue_over_limit`).

It takes something to start meanwhile. `engaged` are the keys of a direction that have a task or a live
worker. While they are no more than the limit, all of them may run at once, and a `Cancel` does not add
to them; beyond that, every live worker must have its task (`Roomy`). In runs whose steps keep to that
(`LeavesRoom`), the limits bind the workers themselves (`live_within_limits`). Runs that cancel idle
tasks only are among them (`leavesRoom_of_cancelsIdle`).
-/

namespace SpottedCat

/-- The live workers of one direction. -/
def Pool.liveCount (pool : Pool) (direction : Direction) : Nat :=
  (pool.workers.filter fun w => w.pc ≠ .ended ∧ w.key.1 = direction).length

/-- The keys of the live workers. -/
def Pool.liveKeys (pool : Pool) : Finset UniqueId :=
  ((pool.workers.filter fun w => w.pc ≠ .ended).map Worker.key).toFinset

/-- The keys of a direction with a task or a live worker. -/
def engaged (s : SchedulerState) (pool : Pool) (direction : Direction) : Finset UniqueId :=
  (s.groups.keys ∪ pool.liveKeys).filter fun key => key.1 = direction

/-- Every live worker of the direction has a task under its key. -/
def Employed (s : SchedulerState) (pool : Pool) (direction : Direction) : Prop :=
  ∀ key ∈ pool.liveKeys, key.1 = direction → key ∈ s.groups

instance (s : SchedulerState) (pool : Pool) (direction : Direction) : Decidable (Employed s pool direction) :=
  inferInstanceAs (Decidable (∀ key ∈ pool.liveKeys, _))

/-- A `Cancel` finds no live worker, or no more keys engaged than may run at once. An `Enqueue` that is accepted
finds its key quiet, and, while a live worker of its direction has no task any more, room for one key. -/
def LeavesRoom (sys : Sys) : Act → Prop
  | .cmd (.enqueue inner _) =>
    sys.loop.state.groups.lookup inner.dedupeKey = none → sys.pool.Quiet inner.dedupeKey ∧
      (Employed sys.loop.state sys.pool inner.dedupeKey.1 ∨
        (engaged sys.loop.state sys.pool inner.dedupeKey.1).card <
          sys.loop.state.maxConcurrency inner.dedupeKey.1)
  | .cmd (.cancel taskId) =>
    ∀ key ∈ sys.loop.state.taskIdToDedupe.lookup taskId, key ∉ sys.pool.liveKeys ∨
      (engaged sys.loop.state sys.pool key.1).card ≤ sys.loop.state.maxConcurrency key.1
  | _ => True

instance (sys : Sys) : ∀ act, Decidable (LeavesRoom sys act)
  | .cmd (.enqueue ..) => inferInstanceAs (Decidable (_ = none → _ ∧ (_ ∨ _)))
  | .cmd (.cancel _) => inferInstanceAs (Decidable (∀ key ∈ (_ : Option UniqueId), _ ∨ _))
  | .cmd (.pause _) | .cmd (.resume _) | .cmd .snapshot | .cmd (.close ..) | .listen _ | .deliver _ | .work .. =>
    isTrue trivial

structure Roomy (s0 s : SchedulerState) (pool : Pool) : Prop extends Owned Worker.Settled s pool where
  room : ∀ d, Employed s pool d ∨ (engaged s pool d).card ≤ s0.maxConcurrency d
  capacity : ∀ d, s.activeCount d ≤ s.maxConcurrency d
  limits : ∀ d, s.maxConcurrency d = s0.maxConcurrency d

/-! ## Live keys -/

theorem Pool.mem_liveKeys {pool : Pool} {key : UniqueId} :
    key ∈ pool.liveKeys ↔ ∃ (i : Nat) (w : Worker), pool.workers[i]? = some w ∧ w.pc ≠ .ended ∧ w.key = key := by
  simp only [liveKeys, List.mem_toFinset, List.mem_map, List.mem_filter, decide_eq_true_eq]
  constructor
  · rintro ⟨w, ⟨hm, hlive⟩, hk⟩
    obtain ⟨i, hi⟩ := List.mem_iff_getElem?.1 hm
    exact ⟨i, w, hi, hlive, hk⟩
  · rintro ⟨i, w, hi, hlive, hk⟩
    exact ⟨w, ⟨List.mem_of_getElem? hi, hlive⟩, hk⟩

theorem mem_engaged {s : SchedulerState} {pool : Pool} {d : Direction} {key : UniqueId} :
    key ∈ engaged s pool d ↔ (key ∈ s.groups ∨ key ∈ pool.liveKeys) ∧ key.1 = d := by
  rw [engaged, Finset.mem_filter, Finset.mem_union, Finmap.mem_keys]

/-- Workers that go on add no live key. -/
theorem Pool.Follows.liveKeys {pool pool' : Pool} (h : pool.Follows (fun w => w.pc = .ended) pool') :
    pool'.liveKeys ⊆ pool.liveKeys := by
  intro key hk
  obtain ⟨j, w', hj, hlive, hkey⟩ := Pool.mem_liveKeys.1 hk
  obtain ⟨w, hw, hlive', hkey', _⟩ := h j w' hj hlive
  exact Pool.mem_liveKeys.2 ⟨j, w, hw, hlive', hkey'.symm.trans hkey⟩

theorem Pool.liveKeys_spawn {pool : Pool} {worker : Worker} {key : UniqueId}
    (h : key ∈ (pool.spawn worker).liveKeys) : key ∈ pool.liveKeys ∨ key = worker.key := by
  obtain ⟨i, w, hi, hlive, hk⟩ := Pool.mem_liveKeys.1 h
  rcases Places.lookup_push.1 hi with hold | ⟨_, rfl⟩
  · exact .inl (Pool.mem_liveKeys.2 ⟨i, w, hold, hlive, hk⟩)
  · exact .inr hk.symm

/-! ## Invariance -/

section
variable {s0 s s' : SchedulerState} {pool pool' : Pool}

/-- As many live workers as live keys: no two share one. -/
theorem Owned.liveCount_le (h : Owned Worker.Settled s pool) (d : Direction) :
    pool.liveCount d ≤ (pool.liveKeys.filter fun key => key.1 = d).card := by
  set live := pool.workers.filter fun w => w.pc ≠ .ended ∧ w.key.1 = d with hlive
  have hpair : pool.workers.Pairwise fun w w' => w.pc ≠ .ended → w'.pc ≠ .ended → w.key ≠ w'.key := by
    rw [List.pairwise_iff_getElem]
    intro i j hi hj hij hr hr' hk
    have hsame := h.single i j _ _ (List.getElem?_eq_getElem hi) (List.getElem?_eq_getElem hj)
      (fun hs => hr hs.1) (fun hs => hr' hs.1) hk
    omega
  have hmem : ∀ w ∈ live, w ∈ pool.workers ∧ w.pc ≠ .ended ∧ w.key.1 = d := fun w hw => by
    simpa [hlive] using hw
  have hnodup : (live.map Worker.key).Nodup := by
    rw [List.Nodup, List.pairwise_map]
    exact (hpair.filter _).imp_of_mem fun hw hw' hne => hne (hmem _ hw).2.1 (hmem _ hw').2.1
  have hsub : (live.map Worker.key).toFinset ⊆ pool.liveKeys.filter fun key => key.1 = d := by
    intro k hk
    simp only [List.mem_toFinset, List.mem_map] at hk
    obtain ⟨w, hw, rfl⟩ := hk
    obtain ⟨hw, hr, hd⟩ := hmem w hw
    obtain ⟨i, hi⟩ := List.mem_iff_getElem?.1 hw
    exact Finset.mem_filter.2 ⟨Pool.mem_liveKeys.2 ⟨i, w, hi, hr, rfl⟩, hd⟩
  calc pool.liveCount d = (live.map Worker.key).length := (List.length_map ..).symm
    _ = (live.map Worker.key).toFinset.card := (List.toFinset_card_of_nodup hnodup).symm
    _ ≤ (pool.liveKeys.filter fun key => key.1 = d).card := Finset.card_le_card hsub

/-- **No more live keys than the limit**: they are all engaged, or they all have a slot. -/
theorem Roomy.liveKeys_le (h : Roomy s0 s pool) (d : Direction) :
    (pool.liveKeys.filter fun key => key.1 = d).card ≤ s0.maxConcurrency d := by
  rcases h.room d with hemployed | hroom
  · have hsub : (pool.liveKeys.filter fun key => key.1 = d) ⊆ s.active.keys.filter fun key => key.1 = d := by
      intro key hk
      obtain ⟨hlive, hd⟩ := Finset.mem_filter.1 hk
      obtain ⟨g, hg⟩ := Finmap.mem_iff.1 (hemployed key hlive hd)
      obtain ⟨i, w, hi, hrun, rfl⟩ := Pool.mem_liveKeys.1 hlive
      have hslot := (h.own i w g hi (fun hs => hrun hs.1) hg).1
      exact Finset.mem_filter.2 ⟨Finmap.mem_keys.2 (Finmap.mem_of_lookup_eq_some hslot), hd⟩
    calc (pool.liveKeys.filter fun key => key.1 = d).card ≤ s.activeCount d := Finset.card_le_card hsub
      _ ≤ s.maxConcurrency d := h.capacity d
      _ = s0.maxConcurrency d := h.limits d
  · have hsub : (pool.liveKeys.filter fun key => key.1 = d) ⊆ engaged s pool d := by
      intro key hk
      obtain ⟨hlive, hd⟩ := Finset.mem_filter.1 hk
      exact mem_engaged.2 ⟨.inr hlive, hd⟩
    exact (Finset.card_le_card hsub).trans hroom

/-- Nothing is added; a group that goes leaves no live worker behind. -/
theorem Roomy.keep (h : Roomy s0 s pool) (howned : Owned Worker.Settled s' pool')
    (hlive : ∀ key ∈ pool'.liveKeys, key ∈ pool.liveKeys ∧ (key ∈ s.groups → key ∈ s'.groups))
    (hgroups : ∀ key ∈ s'.groups, key ∈ s.groups) (hactive : ∀ d, s'.activeCount d ≤ s.activeCount d)
    (hlim : ∀ d, s'.maxConcurrency d = s.maxConcurrency d) : Roomy s0 s' pool' where
  toOwned := howned
  room d := by
    rcases h.room d with hemployed | hroom
    · exact .inl fun key hk hd => (hlive key hk).2 (hemployed key (hlive key hk).1 hd)
    · refine .inr ((Finset.card_le_card fun key hk => ?_).trans hroom)
      obtain ⟨hk, hd⟩ := mem_engaged.1 hk
      exact mem_engaged.2 ⟨hk.imp (hgroups key) fun hk => (hlive key hk).1, hd⟩
  capacity d := by
    rw [hlim]
    exact (hactive d).trans (h.capacity d)
  limits d := (hlim d).trans (h.limits d)

theorem Roomy.start {key : UniqueId} {group : GroupState} (hl : Loose s) (h : Roomy s0 s pool)
    (ha : key ∉ s.active) (hg : s.groups.lookup key = some group)
    (hfree : s.activeCount key.1 < s.maxConcurrency key.1) :
    Roomy s0 (s.activate key)
      (pool.spawn ⟨key, group.leaderInner, ⟨s.nextToken⟩, s.current key, .preparing, []⟩) where
  toOwned := h.toOwned.start hl ha hg
  room d := by
    rcases h.room d with hemployed | hroom
    · refine .inl fun k hk hd => ?_
      rcases Pool.liveKeys_spawn hk with hk | rfl
      · exact hemployed k hk hd
      · exact Finmap.mem_of_lookup_eq_some hg
    · refine .inr ((Finset.card_le_card fun k hk => ?_).trans hroom)
      obtain ⟨hk, hd⟩ := mem_engaged.1 hk
      refine mem_engaged.2 ⟨?_, hd⟩
      rcases hk with hk | hk
      · exact .inl hk
      · rcases Pool.liveKeys_spawn hk with hk | rfl
        · exact .inr hk
        · exact .inl (Finmap.mem_of_lookup_eq_some hg)
  capacity d := by
    rw [SchedulerState.activeCount_activate ha]
    have hcap := h.capacity d
    split
    · rename_i hd
      subst hd
      exact hfree
    · exact hcap
  limits := h.limits

theorem Roomy.accept {inner : InnerTask} {callbacks : TaskCallbacks} (h : Roomy s0 s pool)
    (hquiet : pool.Quiet inner.dedupeKey)
    (hroom : Employed s pool inner.dedupeKey.1 ∨
      (engaged s pool inner.dedupeKey.1).card < s.maxConcurrency inner.dedupeKey.1)
    (hg : s'.groups = s.groups.insert inner.dedupeKey ⟨inner, ⟨inner, callbacks⟩⟩)
    (ha : s'.active = s.active) (hlim : SameLimits s s') : Roomy s0 s' pool where
  toOwned := h.toOwned.accept hquiet hg ha hlim
  room d := by
    have hstays : ∀ key ∈ s.groups, key ∈ s'.groups := fun key hk => hg ▸ Finmap.mem_insert.2 (.inr hk)
    have hnew : ∀ key ∈ engaged s' pool d, key ∈ engaged s pool d ∨ key = inner.dedupeKey ∧ inner.dedupeKey.1 = d := by
      intro key hk
      obtain ⟨hk, hd⟩ := mem_engaged.1 hk
      rcases hk with hk | hk
      · rw [hg] at hk
        rcases Finmap.mem_insert.1 hk with rfl | hk
        · exact .inr ⟨rfl, hd⟩
        · exact .inl (mem_engaged.2 ⟨.inl hk, hd⟩)
      · exact .inl (mem_engaged.2 ⟨.inr hk, hd⟩)
    by_cases hemployed : Employed s pool d
    · exact .inl fun key hk hd => hstays key (hemployed key hk hd)
    · right
      by_cases hd : inner.dedupeKey.1 = d
      · -- somebody runs without a task: there is room for the new key
        subst hd
        have hless := hroom.resolve_left hemployed
        rw [h.limits] at hless
        have hsub : engaged s' pool inner.dedupeKey.1 ⊆ insert inner.dedupeKey (engaged s pool inner.dedupeKey.1) := by
          intro key hk
          rcases hnew key hk with hold | ⟨rfl, _⟩
          · exact Finset.mem_insert_of_mem hold
          · exact Finset.mem_insert_self _ _
        exact (Finset.card_le_card hsub).trans ((Finset.card_insert_le _ _).trans hless)
      · have hsub : engaged s' pool d ⊆ engaged s pool d := by
          intro key hk
          exact (hnew key hk).resolve_right fun hown => hd hown.2
        exact (Finset.card_le_card hsub).trans ((h.room d).resolve_left hemployed)
  capacity d := by
    rw [hlim.limits, SchedulerState.activeCount_congr ha]
    exact h.capacity d
  limits d := (hlim.limits d).trans (h.limits d)

theorem Roomy.cancel {key : UniqueId} (h : Roomy s0 s pool)
    (hroom : key ∉ pool.liveKeys ∨ (engaged s pool key.1).card ≤ s.maxConcurrency key.1)
    (hg : s'.groups = s.groups.erase key) (ha : s'.active = s.active.erase key) (hlim : SameLimits s s') :
    Roomy s0 s' pool where
  toOwned := h.toOwned.cancel hg ha hlim
  room d := by
    have hsub : engaged s' pool d ⊆ engaged s pool d := by
      intro k hk
      obtain ⟨hk, hd⟩ := mem_engaged.1 hk
      exact mem_engaged.2 ⟨hk.imp_left fun hk => (Finmap.mem_erase.1 (hg ▸ hk)).2, hd⟩
    by_cases hsafe : (engaged s pool d).card ≤ s0.maxConcurrency d
    · exact .inr ((Finset.card_le_card hsub).trans hsafe)
    · -- every live worker has its task, and the one that goes has none
      have hemployed := (h.room d).resolve_right hsafe
      refine .inl fun k hk hd => ?_
      rw [hg]
      refine Finmap.mem_erase.2 ⟨?_, hemployed k hk hd⟩
      rintro rfl
      rcases hroom with hidle | hfits
      · exact hidle hk
      · rw [h.limits, hd] at hfits
        exact hsafe hfits
  capacity d := by
    rw [hlim.limits]
    exact (SchedulerState.activeCount_erase_le ha d).trans (h.capacity d)
  limits d := (hlim.limits d).trans (h.limits d)

theorem Roomy.close (h : Roomy s0 s pool) (hg : s'.groups = ∅) (ha : s'.active = ∅) (hlim : SameLimits s s') :
    Roomy s0 s' pool where
  toOwned := h.toOwned.close hg ha hlim
  room d := by
    refine .inr ((Finset.card_le_card fun key hk => ?_).trans (h.liveKeys_le d))
    obtain ⟨hk, hd⟩ := mem_engaged.1 hk
    refine Finset.mem_filter.2 ⟨hk.resolve_left fun hk => ?_, hd⟩
    rw [hg] at hk
    exact Finmap.notMem_empty hk
  capacity d := by
    rw [SchedulerState.activeCount, ha]
    exact Nat.zero_le _
  limits d := (hlim.limits d).trans (h.limits d)

theorem Roomy.deliver {i : Nat} {event : WorkerEvent} (h : Roomy s0 s pool)
    (htake : pool.take i = some (event, pool')) (hf : Footprint s (.event event) s')
    (hlim : SameLimits s s') : Roomy s0 s' pool' := by
  have howned := h.toOwned.deliver .of_settled htake hf hlim
  have hfollows : pool.Follows (fun w => w.pc = .ended) pool' := Pool.take_follows (fun _ _ _ h _ => h) htake
  have hsub := hfollows.liveKeys
  cases hf with
  | keep hcmd => exact absurd rfl (hcmd event)
  | progress key nextOffset totalSize hg ha =>
    exact h.keep howned (fun key hk => ⟨hsub hk, fun hin => hg ▸ hin⟩) (fun key hk => hg ▸ hk)
      (fun d => (SchedulerState.activeCount_congr ha d).le) hlim.limits
  | stop key _ hg ha =>
    exact h.keep howned (fun key hk => ⟨hsub hk, fun hin => hg ▸ hin⟩) (fun key hk => hg ▸ hk)
      (SchedulerState.activeCount_erase_le ha) hlim.limits
  | finish _ hterm hg ha =>
    refine h.keep howned (fun key hk => ⟨hsub hk, fun hin => ?_⟩) (fun key hk => ?_)
      (SchedulerState.activeCount_erase_le ha) hlim.limits
    · -- the key whose group goes has no live worker left
      obtain ⟨w, rest, hw, hout, _⟩ := Pool.take_eq_some.1 htake
      obtain ⟨j, w', hj, hlive, rfl⟩ := Pool.mem_liveKeys.1 hk
      rw [hg]
      refine Finmap.mem_erase.2 ⟨fun hkey => hlive ?_, hin⟩
      exact (h.toOwned.past_of_last .of_settled htake hw (Worker.not_settled hout) hterm hj hkey).1
    · rw [hg] at hk
      exact (Finmap.mem_erase.1 hk).2

end

theorem Roomy.lockstep (s0 : SchedulerState) : Lockstep LeavesRoom fun _ => Roomy s0 where
  frame h _ hsame hw _ :=
    h.keep (h.toOwned.frame hsame hw)
      (fun key hk => ⟨by rwa [Pool.liveKeys, hw] at hk, fun hk => hsame.groups ▸ hk⟩)
      (fun key hk => hsame.groups ▸ hk)
      (fun d => (SchedulerState.activeCount_congr hsame.active d).le) hsame.limits
  start hl h ha hg hfree := h.start hl ha hg hfree
  accept h hc _ hv hg ha _ hlim := h.accept (hc hv).1 (hc hv).2 hg ha hlim
  cancel h hc hfound hg ha _ hlim := h.cancel (hc _ hfound) hg ha hlim
  close h _ hg ha _ hlim := h.close hg ha hlim
  deliver h htake hf hlim := h.deliver htake hf hlim
  work h hwork := by
    have hfollows : Pool.Follows _ (fun w => w.pc = .ended) _ := h.toWired.work_follows (fun _ hend => hend) hwork
    exact h.keep (h.toOwned.work .of_settled hwork) (fun _ hk => ⟨hfollows.liveKeys hk, fun hin => hin⟩)
      (fun _ hk => hk) (fun _ => le_refl _) fun _ => rfl

theorem Roomy.init (maxUpload maxDownload : Nat) :
    Roomy (.new maxUpload maxDownload []) (.new maxUpload maxDownload []) ⟨[], [], ∅⟩ where
  toOwned := .init Worker.Settled maxUpload maxDownload
  room _ := .inl fun _ hk => absurd hk (Finset.notMem_empty _)
  capacity _ := Nat.zero_le _
  limits _ := rfl

/-! ## Runs -/

/-- **The limits bind the running workers** of every run whose steps leave room: while more keys are engaged than
may run at once, no running worker loses its task, and while a running worker has none, no key is added beyond
the limit. -/
theorem live_within_limits {maxUpload maxDownload : Nat} {acts : List Act} {sys : Sys}
    (hrun : Lts.run Sys.step (.init maxUpload maxDownload) acts = some sys)
    (hroom : Lts.Meets Sys.step LeavesRoom (.init maxUpload maxDownload) acts) :
    sys.pool.liveCount .upload ≤ maxUpload ∧ sys.pool.liveCount .download ≤ maxDownload := by
  obtain ⟨_, h⟩ := (Roomy.lockstep _).run (.init maxUpload maxDownload) hrun hroom
  have hle : ∀ d, sys.pool.liveCount d ≤ (SchedulerState.new maxUpload maxDownload []).maxConcurrency d :=
    fun d => (h.toOwned.liveCount_le d).trans (h.liveKeys_le d)
  exact ⟨hle .upload, hle .download⟩

/-- A download is cancelled while its worker runs, and another enqueued; two may run at once. -/
def cancelWithRoom : List Act :=
  [.cmd (sampleEnqueue 0), .cmd (.cancel ⟨0⟩),
    .cmd (.enqueue { sampleTask 1 with url := "http://host/dog.bin" } ⟨some ⟨1⟩⟩)]

theorem live_within_limits_cancelled : ∃ sys,
    Lts.run Sys.step (.init 1 2) cancelWithRoom = some sys ∧ sys.pool.workers.map (·.pc) = [.preparing, .preparing] ∧
      sys.pool.liveCount .upload ≤ 1 ∧ sys.pool.liveCount .download ≤ 2 := by
  have hrun : Lts.run Sys.step (.init 1 2) cancelWithRoom = some _ := Lts.run_final (by decide)
  exact ⟨_, hrun, by decide, live_within_limits hrun (by decide)⟩

/-! ## Runs that cancel idle tasks only -/

/-- A `Cancel` finds the slot of its key free; the loop is not closed. -/
def CancelsIdle (sys : Sys) : Act → Prop
  | .cmd (.cancel taskId) =>
    ∀ key ∈ sys.loop.state.taskIdToDedupe.lookup taskId, key ∉ sys.loop.state.active
  | .cmd (.close ..) => False
  | _ => True

/-- Every worker that is not settled has a task under its key. -/
structure Tasked (s : SchedulerState) (pool : Pool) : Prop extends Owned Worker.Settled s pool where
  task : ∀ (i : Nat) (w : Worker), pool.workers[i]? = some w → ¬ w.Settled → w.key ∈ s.groups

section
variable {s s' : SchedulerState} {pool pool' : Pool}

theorem Tasked.keep (h : Tasked s pool) (howned : Owned Worker.Settled s' pool')
    (hfollows : pool.Follows Worker.Settled pool')
    (hgroups : ∀ (i : Nat) (w : Worker), pool'.workers[i]? = some w → ¬ w.Settled → w.key ∈ s.groups →
      w.key ∈ s'.groups) : Tasked s' pool' where
  toOwned := howned
  task i w' hi hs' := by
    obtain ⟨w, hw, hs, hkey, _⟩ := hfollows i w' hi hs'
    exact hgroups i w' hi hs' (hkey ▸ h.task i w hw hs)

/-- A key without a task is quiet. -/
theorem Tasked.quiet (h : Tasked s pool) {key : UniqueId} (hnone : s.groups.lookup key = none) :
    pool.Quiet key := by
  intro w hm hk
  by_contra hs
  obtain ⟨i, hi⟩ := List.mem_iff_getElem?.1 hm
  obtain ⟨g, hg⟩ := Finmap.mem_iff.1 (h.task i w hi hs)
  rw [hk, hnone] at hg
  cases hg

theorem Tasked.employed (h : Tasked s pool) (d : Direction) : Employed s pool d := by
  intro key hk _
  obtain ⟨i, w, hi, hlive, rfl⟩ := Pool.mem_liveKeys.1 hk
  exact h.task i w hi fun hs => hlive hs.1

/-- A key without a slot has no worker left. -/
theorem Tasked.settled (h : Tasked s pool) {i : Nat} {w : Worker} (hi : pool.workers[i]? = some w)
    (ha : w.key ∉ s.active) : w.Settled := by
  by_contra hs
  obtain ⟨g, hg⟩ := Finmap.mem_iff.1 (h.task i w hi hs)
  exact hs (h.toOwned.past_of_free ha hg hi rfl)

theorem Tasked.start {key : UniqueId} {group : GroupState} (hl : Loose s) (h : Tasked s pool)
    (ha : key ∉ s.active) (hg : s.groups.lookup key = some group) :
    Tasked (s.activate key)
      (pool.spawn ⟨key, group.leaderInner, ⟨s.nextToken⟩, s.current key, .preparing, []⟩) where
  toOwned := h.toOwned.start hl ha hg
  task i w hi hs := by
    rcases Places.lookup_push.1 hi with hold | ⟨_, rfl⟩
    · exact h.task i w hold hs
    · exact Finmap.mem_of_lookup_eq_some hg

theorem Tasked.deliver {i : Nat} {event : WorkerEvent} (h : Tasked s pool)
    (htake : pool.take i = some (event, pool')) (hf : Footprint s (.event event) s')
    (hlim : SameLimits s s') : Tasked s' pool' := by
  refine h.keep (h.toOwned.deliver .of_settled htake hf hlim) (Pool.take_follows Passes.of_settled.take htake)
    fun j w' hj hs' hin => ?_
  cases hf with
  | keep hcmd => exact absurd rfl (hcmd event)
  | progress key nextOffset totalSize hg ha => exact hg ▸ hin
  | stop key _ hg ha => exact hg ▸ hin
  | finish _ hterm hg ha =>
    obtain ⟨w, rest, hw, hout, _⟩ := Pool.take_eq_some.1 htake
    rw [hg]
    refine Finmap.mem_erase.2 ⟨fun hkey => hs' ?_, hin⟩
    exact h.toOwned.past_of_last .of_settled htake hw (Worker.not_settled hout) hterm hj hkey

end

theorem Tasked.lockstep : Lockstep CancelsIdle fun _ => Tasked where
  frame h _ hsame hw _ :=
    h.keep (h.toOwned.frame hsame hw) (.of_workers hw) fun _ _ _ _ hin => hsame.groups ▸ hin
  start hl h ha hg _ := h.start hl ha hg
  accept h _ _ hv hg ha _ hlim :=
    h.keep (h.toOwned.accept (h.quiet hv) hg ha hlim) (.of_workers rfl) fun _ _ _ _ hin =>
      hg ▸ Finmap.mem_insert.2 (.inr hin)
  cancel h hc hfound hg ha _ hlim :=
    h.keep (h.toOwned.cancel hg ha hlim) (.of_workers rfl) fun _ _ hi hs hin =>
      hg ▸ Finmap.mem_erase.2 ⟨fun hkey => hs (h.settled hi (hkey ▸ hc _ hfound)), hin⟩
  close _ hc _ _ _ _ := hc.elim
  deliver h htake hf hlim := h.deliver htake hf hlim
  work h hwork :=
    h.keep (h.toOwned.work .of_settled hwork) (h.toWired.work_follows Passes.of_settled.ended hwork)
      fun _ _ _ _ hin => hin

/-- **Where only idle tasks are cancelled, there is always room.** -/
theorem leavesRoom_of_cancelsIdle {maxUpload maxDownload : Nat} {acts : List Act}
    (h : Lts.Meets Sys.step CancelsIdle (.init maxUpload maxDownload) acts) :
    Lts.Meets Sys.step LeavesRoom (.init maxUpload maxDownload) acts := by
  have hinit : Tasked (.new maxUpload maxDownload []) ⟨[], [], ∅⟩ :=
    ⟨.init Worker.Settled maxUpload maxDownload, fun i w hw => by simp at hw⟩
  refine Lts.Meets.of_invariant
    (I := fun sys => LoopInv sys.loop ∧ Tasked sys.loop.state sys.pool)
    (fun _ _ _ hi hc hs => Tasked.lockstep.step hi hc hs) (fun sys act hi hc => ?_)
    ⟨.init maxUpload maxDownload, hinit⟩ h
  obtain ⟨_, htasked⟩ := hi
  cases act with
  | cmd c =>
    cases c with
    | enqueue inner callbacks => exact fun hnone => ⟨htasked.quiet hnone, .inl (htasked.employed _)⟩
    | cancel taskId =>
      intro key hfound
      left
      intro hlive
      obtain ⟨i, w, hi, hrun, rfl⟩ := Pool.mem_liveKeys.1 hlive
      exact hrun (htasked.settled hi (hc _ hfound)).1
    | _ => trivial
  | _ => trivial

/-- Two live downloads with a limit of one. -/
theorem cancelThenEnqueue_over_limit : ∃ sys,
    Lts.run Sys.step (.init 1 1) cancelThenEnqueue = some sys ∧
      ¬ (sys.pool.liveCount .upload ≤ 1 ∧ sys.pool.liveCount .download ≤ 1) :=
  ⟨_, Lts.run_final (by decide), by decide⟩

end SpottedCat
