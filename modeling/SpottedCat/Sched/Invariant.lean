import SpottedCat.Sched.Loop

/-!
# The representation invariant of `SchedulerState`

`Inv` holds at every iteration boundary of `worker_loop` (`reachable_inv`), whatever worker events
arrive. The handlers of `Completed`, `Failed` and `Canceled` do not touch the queue, so between a
handler and `try_start_next` a queued key may have lost its group: there only `Loose` holds, which
each step of `try_start_next` preserves, and its last round drops such keys.
-/

namespace SpottedCat

/-- The invariant without `queued_group`. -/
structure Loose (s : SchedulerState) : Prop where
  queued_nodup : s.queued.Nodup
  queuedSet_eq : s.queuedSet = s.queued.toFinset
  active_group : ∀ k ∈ s.active, k ∈ s.groups
  paused_group : ∀ k ∈ s.pausedSet, k ∈ s.groups
  queued_active : ∀ k ∈ s.queued, k ∉ s.active
  queued_paused : ∀ k ∈ s.queued, k ∉ s.pausedSet
  /-- No task is stranded. -/
  covered : ∀ k ∈ s.groups, k ∈ s.queued ∨ k ∈ s.active ∨ k ∈ s.pausedSet
  leader_key : ∀ k g, s.groups.lookup k = some g → g.leaderInner.dedupeKey = k
  entry_inner : ∀ k g, s.groups.lookup k = some g → g.entry.inner = g.leaderInner
  id_map : ∀ id k, s.taskIdToDedupe.lookup id = some k ↔
    ∃ g, s.groups.lookup k = some g ∧ g.leaderInner.taskId = id
  capacity : ∀ d, s.activeCount d ≤ s.maxConcurrency d

structure Inv (s : SchedulerState) : Prop extends Loose s where
  queued_group : ∀ k ∈ s.queued, k ∈ s.groups

theorem Inv.of_empty {s : SchedulerState} (hq : s.queued = []) (hs : s.queuedSet = ∅)
    (hp : s.pausedSet = ∅) (ha : s.active = ∅) (hg : s.groups = ∅) (hi : s.taskIdToDedupe = ∅) :
    Inv s where
  queued_nodup := by simp [hq]
  queuedSet_eq := by simp [hq, hs]
  active_group := fun k hk => absurd (ha ▸ hk) Finmap.notMem_empty
  paused_group := by simp [hp]
  queued_active := by simp [hq]
  queued_paused := by simp [hq]
  covered := fun k hk => absurd (hg ▸ hk) Finmap.notMem_empty
  leader_key := by simp [hg]
  entry_inner := by simp [hg]
  id_map := by simp [hg, hi]
  capacity := by simp [SchedulerState.activeCount, ha]
  queued_group := by simp [hq]

/-! ## Slots taken -/

namespace SchedulerState

variable {s s' : SchedulerState} {key : UniqueId}

theorem activeCount_congr (h : s'.active = s.active) (d : Direction) : s'.activeCount d = s.activeCount d := by
  rw [activeCount, activeCount, h]

theorem activeCount_erase_le (h : s'.active = s.active.erase key) (d : Direction) :
    s'.activeCount d ≤ s.activeCount d := by
  rw [activeCount, activeCount, h]
  exact Table.card_keys_erase_le _ _ _

end SchedulerState

/-! ## `try_start_next` -/

theorem Loose.dequeue {s : SchedulerState} {key : UniqueId} {rest : List UniqueId} (h : Loose s)
    (hq : s.queued = key :: rest) (hd : key ∈ s.active ∨ key ∉ s.groups) : Loose (s.dequeue key rest) := by
  have hnd : key ∉ rest ∧ rest.Nodup := List.nodup_cons.1 (hq ▸ h.queued_nodup)
  have hsub : ∀ k ∈ rest, k ∈ s.queued := fun k hk => hq ▸ List.mem_cons_of_mem _ hk
  exact {
    queued_nodup := hnd.2
    queuedSet_eq := by
      have hs := h.queuedSet_eq
      rw [hq, List.toFinset_cons] at hs
      simp only [SchedulerState.dequeue, hs]
      exact Finset.erase_insert (by simpa using hnd.1)
    active_group := h.active_group
    paused_group := h.paused_group
    queued_active := fun k hk => h.queued_active k (hsub k hk)
    queued_paused := fun k hk => h.queued_paused k (hsub k hk)
    covered := fun k hk => by
      rcases h.covered k hk with hc | hc | hc
      · rw [hq] at hc
        rcases List.mem_cons.1 hc with rfl | hc
        · exact .inr (.inl (hd.resolve_right fun hn => hn hk))
        · exact .inl hc
      · exact .inr (.inl hc)
      · exact .inr (.inr hc)
    leader_key := h.leader_key
    entry_inner := h.entry_inner
    id_map := h.id_map
    capacity := h.capacity }

theorem nodup_pushBack {queue : List UniqueId} {key : UniqueId} (hq : queue.Nodup) (hk : key ∉ queue) :
    (queue ++ [key]).Nodup := by
  rw [← List.concat_eq_append]
  exact hq.concat hk

theorem Loose.requeue {s : SchedulerState} {key : UniqueId} {rest : List UniqueId} (h : Loose s)
    (hq : s.queued = key :: rest) : Loose ((s.dequeue key rest).pushBack key) := by
  have hnd : key ∉ rest ∧ rest.Nodup := List.nodup_cons.1 (hq ▸ h.queued_nodup)
  have hmem : ∀ k, k ∈ rest ++ [key] ↔ k ∈ s.queued := fun k => by rw [hq]; simp [or_comm]
  exact {
    queued_nodup := by
      simp only [SchedulerState.pushBack, SchedulerState.dequeue]
      exact nodup_pushBack hnd.2 hnd.1
    queuedSet_eq := by
      ext k
      have hk := hmem k
      simp only [SchedulerState.pushBack, SchedulerState.dequeue, h.queuedSet_eq, List.mem_toFinset,
        Finset.mem_insert, Finset.mem_erase, hk, hq, List.mem_cons]
      tauto
    active_group := h.active_group
    paused_group := h.paused_group
    queued_active := fun k hk => h.queued_active k ((hmem k).1 hk)
    queued_paused := fun k hk => h.queued_paused k ((hmem k).1 hk)
    covered := fun k hk => (h.covered k hk).imp_left (hmem k).2
    leader_key := h.leader_key
    entry_inner := h.entry_inner
    id_map := h.id_map
    capacity := h.capacity }

theorem Loose.start {s : SchedulerState} {key : UniqueId} {rest : List UniqueId} (h : Loose s)
    (hq : s.queued = key :: rest) (hg : key ∈ s.groups)
    (hc : s.activeCount key.1 < s.maxConcurrency key.1) :
    Loose ((s.dequeue key rest).activate key) := by
  have hnd : key ∉ rest ∧ rest.Nodup := List.nodup_cons.1 (hq ▸ h.queued_nodup)
  have hsub : ∀ k ∈ rest, k ∈ s.queued := fun k hk => hq ▸ List.mem_cons_of_mem _ hk
  exact {
    queued_nodup := hnd.2
    queuedSet_eq := by
      have hs := h.queuedSet_eq
      rw [hq, List.toFinset_cons] at hs
      simp only [SchedulerState.activate, SchedulerState.dequeue, hs]
      exact Finset.erase_insert (by simpa using hnd.1)
    active_group := fun k hk => by
      rcases Finmap.mem_insert.1 hk with rfl | hk
      · exact hg
      · exact h.active_group k hk
    paused_group := h.paused_group
    queued_active := fun k hk ha => by
      rcases Finmap.mem_insert.1 ha with rfl | ha
      · exact hnd.1 hk
      · exact h.queued_active k (hsub k hk) ha
    queued_paused := fun k hk => h.queued_paused k (hsub k hk)
    covered := fun k hk => by
      rcases h.covered k hk with hm | hm | hm
      · rw [hq] at hm
        rcases List.mem_cons.1 hm with rfl | hm
        · exact .inr (.inl (Finmap.mem_insert.2 (.inl rfl)))
        · exact .inl hm
      · exact .inr (.inl (Finmap.mem_insert.2 (.inr hm)))
      · exact .inr (.inr hm)
    leader_key := h.leader_key
    entry_inner := h.entry_inner
    id_map := h.id_map
    capacity := fun d => by
      by_cases hd : key.1 = d
      · subst hd
        exact (Table.card_keys_insert_le _ _ _ _).trans hc
      · have := Table.card_keys_insert_of_not s.active key ⟨⟨s.nextToken⟩⟩ (fun k => k.1 = d) hd
        exact this.le.trans (h.capacity d) }

/-- **`try_start_next` restores the invariant.** -/
theorem Loose.tryStartNext {s : SchedulerState} (h : Loose s) : Inv (tryStartNext s).state where
  toLoose := tryStartNext_induct (P := fun st _ => Loose st) h
    (fun _ _ _ _ h hq hd => h.dequeue hq hd) (fun _ _ _ _ h hq _ => h.requeue hq)
    (fun _ _ _ _ _ h hq _ hg hc => h.start hq (Finmap.mem_of_lookup_eq_some hg) hc)
  queued_group := fun k hk => (tryStartNext_blocked s k hk).2.1

/-! ## The handlers -/

/-- A key whose group, id, slot and pause mark go together; from the queue it may go or stay. -/
theorem Loose.remove {s s' : SchedulerState} {key : UniqueId} (h : Loose s)
    (hqueued : s'.queued.Sublist s.queued) (hkeep : ∀ k ∈ s.queued, k ≠ key → k ∈ s'.queued)
    (hset : s'.queuedSet = s'.queued.toFinset) (hgroups : s'.groups = s.groups.erase key)
    (hids : s'.taskIdToDedupe = match s.groups.lookup key with
      | some group => s.taskIdToDedupe.erase group.leaderInner.taskId
      | none => s.taskIdToDedupe)
    (hactive : s'.active = s.active.erase key) (hpaused : s'.pausedSet = s.pausedSet.erase key)
    (hlimits : ∀ d, s'.maxConcurrency d = s.maxConcurrency d) : Loose s' where
  queued_nodup := h.queued_nodup.sublist hqueued
  queuedSet_eq := hset
  active_group := fun k hk => by
    rw [hactive] at hk; rw [hgroups]
    obtain ⟨hne, hk⟩ := Finmap.mem_erase.1 hk
    exact Finmap.mem_erase.2 ⟨hne, h.active_group k hk⟩
  paused_group := fun k hk => by
    rw [hpaused] at hk; rw [hgroups]
    obtain ⟨hne, hk⟩ := Finset.mem_erase.1 hk
    exact Finmap.mem_erase.2 ⟨hne, h.paused_group k hk⟩
  queued_active := fun k hk ha => by
    rw [hactive] at ha
    exact h.queued_active k (hqueued.subset hk) (Finmap.mem_erase.1 ha).2
  queued_paused := fun k hk hp => by
    rw [hpaused] at hp
    exact h.queued_paused k (hqueued.subset hk) (Finset.mem_of_mem_erase hp)
  covered := fun k hk => by
    rw [hgroups] at hk
    obtain ⟨hne, hk⟩ := Finmap.mem_erase.1 hk
    rw [hactive, hpaused]
    rcases h.covered k hk with hc | hc | hc
    · exact .inl (hkeep k hc hne)
    · exact .inr (.inl (Finmap.mem_erase.2 ⟨hne, hc⟩))
    · exact .inr (.inr (Finset.mem_erase.2 ⟨hne, hc⟩))
  leader_key := fun k g hg => by
    rw [hgroups, Table.lookup_erase_ite] at hg
    split at hg
    · cases hg
    · exact h.leader_key k g hg
  entry_inner := fun k g hg => by
    rw [hgroups, Table.lookup_erase_ite] at hg
    split at hg
    · cases hg
    · exact h.entry_inner k g hg
  id_map := fun id k => by
    rw [hgroups, hids, Table.lookup_erase_ite]
    cases hk0 : s.groups.lookup key with
    | none =>
      simp only [h.id_map]
      by_cases hk : k = key
      · subst hk; simp [hk0]
      · simp [hk]
    | some g0 =>
      -- the removed id is the leader's, and no other group has that leader
      have hid0 := (h.id_map g0.leaderInner.taskId key).2 ⟨g0, hk0, rfl⟩
      simp only [Table.lookup_erase_ite]
      by_cases hid : id = g0.leaderInner.taskId
      · simp only [hid, ↓reduceIte, reduceCtorEq, false_iff]
        rintro ⟨g, hg, hl⟩
        split at hg
        · cases hg
        · rename_i hne
          have := (h.id_map _ k).2 ⟨g, hg, hl⟩
          rw [hid0] at this
          exact hne (Option.some.inj this).symm
      · simp only [hid, ↓reduceIte, h.id_map]
        by_cases hk : k = key
        · subst hk
          simp only [↓reduceIte, hk0, reduceCtorEq, false_and, exists_false, iff_false]
          rintro ⟨g, hg, hl⟩
          exact hid (by rw [← hl, ← Option.some.inj hg])
        · simp [hk]
  capacity := fun d => by
    rw [hlimits]
    exact (SchedulerState.activeCount_erase_le hactive d).trans (h.capacity d)

/-- The same for a handler that does not touch the queue. -/
theorem Loose.endTask {s s' : SchedulerState} {key : UniqueId} (h : Loose s)
    (hqueued : s'.queued = s.queued) (hset : s'.queuedSet = s.queuedSet)
    (hgroups : s'.groups = s.groups.erase key)
    (hids : s'.taskIdToDedupe = match s.groups.lookup key with
      | some group => s.taskIdToDedupe.erase group.leaderInner.taskId
      | none => s.taskIdToDedupe)
    (hactive : s'.active = s.active.erase key) (hpaused : s'.pausedSet = s.pausedSet.erase key)
    (hlimits : ∀ d, s'.maxConcurrency d = s.maxConcurrency d) : Loose s' :=
  h.remove (hqueued ▸ List.Sublist.refl _) (fun _ hk _ => hqueued ▸ hk)
    (by rw [hset, hqueued, h.queuedSet_eq]) hgroups hids hactive hpaused hlimits

theorem Loose.markPaused {s : SchedulerState} {key : UniqueId} (h : Loose s) (hg : key ∈ s.groups) :
    Loose (s.markPaused key) := by
  have hmem : ∀ k, k ∈ s.queued.filter (fun k => k ≠ key) ↔ k ∈ s.queued ∧ k ≠ key := by simp
  exact {
    queued_nodup := h.queued_nodup.filter _
    queuedSet_eq := by
      ext k
      simp [SchedulerState.markPaused, h.queuedSet_eq, and_comm]
    active_group := h.active_group
    paused_group := fun k hk => by
      rcases Finset.mem_insert.1 hk with rfl | hk
      · exact hg
      · exact h.paused_group k hk
    queued_active := fun k hk => h.queued_active k ((hmem k).1 hk).1
    queued_paused := fun k hk hp => by
      obtain ⟨hk, hne⟩ := (hmem k).1 hk
      rcases Finset.mem_insert.1 hp with rfl | hp
      · exact hne rfl
      · exact h.queued_paused k hk hp
    covered := fun k hk => by
      by_cases hne : k = key
      · exact .inr (.inr (Finset.mem_insert.2 (.inl hne)))
      · rcases h.covered k hk with hc | hc | hc
        · exact .inl ((hmem k).2 ⟨hc, hne⟩)
        · exact .inr (.inl hc)
        · exact .inr (.inr (Finset.mem_insert_of_mem hc))
    leader_key := h.leader_key
    entry_inner := h.entry_inner
    id_map := h.id_map
    capacity := h.capacity }

/-- A paused key that is not stopping any more goes to the back of the queue. -/
theorem Loose.requeuePaused {s : SchedulerState} {key : UniqueId} (h : Loose s)
    (hp : key ∈ s.pausedSet) (ha : key ∉ s.active) : Loose ((s.unmarkPaused key).pushBack key) := by
  have hq : key ∉ s.queued := fun hk => h.queued_paused key hk hp
  exact {
    queued_nodup := nodup_pushBack h.queued_nodup hq
    queuedSet_eq := by
      ext k
      simp [SchedulerState.pushBack, SchedulerState.unmarkPaused, h.queuedSet_eq]
    active_group := h.active_group
    paused_group := fun k hk => h.paused_group k (Finset.mem_of_mem_erase hk)
    queued_active := fun k hk => by
      rcases List.mem_append.1 hk with hk | hk
      · exact h.queued_active k hk
      · rw [List.mem_singleton.1 hk]; exact ha
    queued_paused := fun k hk hm => by
      obtain ⟨hne, hm⟩ := Finset.mem_erase.1 hm
      rcases List.mem_append.1 hk with hk | hk
      · exact h.queued_paused k hk hm
      · exact hne (List.mem_singleton.1 hk)
    covered := fun k hk => by
      by_cases hne : k = key
      · exact .inl (List.mem_append.2 (.inr (List.mem_singleton.2 hne)))
      · rcases h.covered k hk with hc | hc | hc
        · exact .inl (List.mem_append.2 (.inl hc))
        · exact .inr (.inl hc)
        · exact .inr (.inr (Finset.mem_erase.2 ⟨hne, hc⟩))
    leader_key := h.leader_key
    entry_inner := h.entry_inner
    id_map := h.id_map
    capacity := h.capacity }

/-- A new task goes to the back of the queue, with its group and its id. -/
theorem Inv.insertTask {s : SchedulerState} {inner : InnerTask} {callbacks : TaskCallbacks}
    (h : Inv s) (hg : inner.dedupeKey ∉ s.groups) (hid : s.taskIdToDedupe.lookup inner.taskId = none) :
    Loose ((insertTask s inner callbacks).pushBack inner.dedupeKey) := by
  have hq : inner.dedupeKey ∉ s.queued := fun hk => hg (h.queued_group _ hk)
  have ha : inner.dedupeKey ∉ s.active := fun hk => hg (h.active_group _ hk)
  have hp : inner.dedupeKey ∉ s.pausedSet := fun hk => hg (h.paused_group _ hk)
  have hgroups : ∀ k, (s.groups.insert inner.dedupeKey ⟨inner, ⟨inner, callbacks⟩⟩).lookup k =
      if k = inner.dedupeKey then some ⟨inner, ⟨inner, callbacks⟩⟩ else s.groups.lookup k :=
    fun k => Table.lookup_insert_ite ..
  exact {
    queued_nodup := nodup_pushBack h.queued_nodup hq
    queuedSet_eq := by
      ext k
      simp [SchedulerState.pushBack, SpottedCat.insertTask, h.queuedSet_eq]
    active_group := fun k hk => Finmap.mem_insert.2 (.inr (h.active_group k hk))
    paused_group := fun k hk => Finmap.mem_insert.2 (.inr (h.paused_group k hk))
    queued_active := fun k hk => by
      rcases List.mem_append.1 hk with hk | hk
      · exact h.queued_active k hk
      · rw [List.mem_singleton.1 hk]; exact ha
    queued_paused := fun k hk => by
      rcases List.mem_append.1 hk with hk | hk
      · exact h.queued_paused k hk
      · rw [List.mem_singleton.1 hk]; exact hp
    covered := fun k hk => by
      rcases Finmap.mem_insert.1 hk with rfl | hk
      · exact .inl (List.mem_append.2 (.inr (List.mem_singleton.2 rfl)))
      · exact (h.covered k hk).imp_left fun hc => List.mem_append.2 (.inl hc)
    leader_key := fun k g hk => by
      simp only [SchedulerState.pushBack, SpottedCat.insertTask, hgroups] at hk
      split at hk
      · rename_i hkey; cases hk; exact hkey.symm
      · exact h.leader_key k g hk
    entry_inner := fun k g hk => by
      simp only [SchedulerState.pushBack, SpottedCat.insertTask, hgroups] at hk
      split at hk
      · cases hk; rfl
      · exact h.entry_inner k g hk
    id_map := fun id k => by
      simp only [SchedulerState.pushBack, SpottedCat.insertTask, hgroups, Table.lookup_insert_ite]
      by_cases hi : id = inner.taskId
      · subst hi
        simp only [↓reduceIte, Option.some.injEq]
        constructor
        · rintro rfl; exact ⟨_, if_pos rfl, rfl⟩
        · rintro ⟨g, hk, hl⟩
          split at hk
          · rename_i hkey; exact hkey.symm
          · rw [(h.id_map _ k).2 ⟨g, hk, hl⟩] at hid; cases hid
      · simp only [hi, ↓reduceIte, h.id_map]
        by_cases hkey : k = inner.dedupeKey
        · subst hkey
          have hnone : s.groups.lookup inner.dedupeKey = none := Finmap.lookup_eq_none.2 hg
          simp [hnone, Ne.symm hi]
        · simp [hkey]
    capacity := h.capacity }

/-! ## The steps of the loop -/

/-- **Every worker event**, of whatever kind and key, leaves at most a stale queue entry. -/
theorem Inv.handleWorkerEvent {s : SchedulerState} (h : Inv s) (event : WorkerEvent) :
    Loose (handleWorkerEvent s event).1 := by
  cases event with
  | progress key nextOffset totalSize => exact { h.toLoose with }
  | completed key totalSize =>
    exact h.toLoose.endTask (SchedulerState.removeGroup_queued _ _)
      (SchedulerState.removeGroup_queuedSet _ _) (SchedulerState.removeGroup_groups _ _)
      (SchedulerState.removeGroup_taskIdToDedupe _ _) (SchedulerState.removeGroup_active _ _)
      (SchedulerState.removeGroup_pausedSet _ _) (SchedulerState.removeGroup_limits _ _)
  | failed key error =>
    exact h.toLoose.endTask (SchedulerState.removeGroup_queued _ _)
      (SchedulerState.removeGroup_queuedSet _ _) (SchedulerState.removeGroup_groups _ _)
      (SchedulerState.removeGroup_taskIdToDedupe _ _) (SchedulerState.removeGroup_active _ _)
      (SchedulerState.removeGroup_pausedSet _ _) (SchedulerState.removeGroup_limits _ _)
  | canceled key =>
    by_cases hp : key ∈ s.pausedSet
    · -- the key leaves `active` only; it stays covered by `pausedSet`
      simp only [SpottedCat.handleWorkerEvent, hp, ↓reduceIte]
      exact { h.toLoose with
        active_group := fun k hk => h.active_group k (Finmap.mem_erase.1 hk).2
        queued_active := fun k hk ha => h.queued_active k hk (Finmap.mem_erase.1 ha).2
        covered := fun k hk => by
          by_cases hne : k = key
          · exact .inr (.inr (hne ▸ hp))
          · rcases h.covered k hk with hc | hc | hc
            · exact .inl hc
            · exact .inr (.inl (Finmap.mem_erase.2 ⟨hne, hc⟩))
            · exact .inr (.inr hc)
        capacity := fun d => (SchedulerState.activeCount_erase_le rfl d).trans (h.capacity d) }
    · simp only [SpottedCat.handleWorkerEvent, hp, ↓reduceIte]
      have hpaused : s.pausedSet = s.pausedSet.erase key := (Finset.erase_eq_of_notMem hp).symm
      exact h.toLoose.endTask (SchedulerState.removeGroup_queued _ _)
        (SchedulerState.removeGroup_queuedSet _ _) (SchedulerState.removeGroup_groups _ _)
        (SchedulerState.removeGroup_taskIdToDedupe _ _) (SchedulerState.removeGroup_active _ _)
        ((SchedulerState.removeGroup_pausedSet _ _).trans hpaused)
        (SchedulerState.removeGroup_limits _ _)

theorem Inv.cancelGroup {s : SchedulerState} (h : Inv s) (key : UniqueId) :
    Loose (cancelGroup s key).1 := by
  refine h.toLoose.remove ?_ ?_ ?_ (SchedulerState.removeGroup_groups _ key)
    (SchedulerState.removeGroup_taskIdToDedupe _ key) (SchedulerState.removeGroup_active _ _)
    (SchedulerState.removeGroup_pausedSet _ _) (SchedulerState.removeGroup_limits _ _)
  · simp [SpottedCat.cancelGroup, SchedulerState.withdraw]
  · intro k hk hne
    simpa [SpottedCat.cancelGroup, SchedulerState.withdraw, hne] using hk
  · ext k
    simp [SpottedCat.cancelGroup, SchedulerState.withdraw, h.queuedSet_eq, and_comm]

theorem Inv.acceptTask {s : SchedulerState} {inner : InnerTask} {callbacks : TaskCallbacks}
    (h : Inv s) (hg : inner.dedupeKey ∉ s.groups) (hid : s.taskIdToDedupe.lookup inner.taskId = none) :
    Loose (acceptTask s inner callbacks).1 := by
  have ha : inner.dedupeKey ∉ s.active := fun hk => hg (h.active_group _ hk)
  have hq : inner.dedupeKey ∉ s.queuedSet := fun hk =>
    hg (h.queued_group _ (List.mem_toFinset.1 (h.queuedSet_eq ▸ hk)))
  have hboth : inner.dedupeKey ∉ (SpottedCat.insertTask s inner callbacks).active ∧
      inner.dedupeKey ∉ (SpottedCat.insertTask s inner callbacks).queuedSet := ⟨ha, hq⟩
  simp only [SpottedCat.acceptTask, if_pos hboth]
  exact h.insertTask hg hid

theorem Inv.resumeGroup {s : SchedulerState} (h : Inv s) (key : UniqueId) :
    Loose (resumeGroup s key).2.1 := by
  unfold SpottedCat.resumeGroup
  split
  · exact h.toLoose
  rename_i hp
  rw [Decidable.not_not] at hp
  split
  · exact h.toLoose
  rename_i ha
  rw [if_neg (fun hg => hg (h.paused_group key hp))]
  have hq : key ∉ s.queuedSet := fun hk =>
    h.queued_paused key (List.mem_toFinset.1 (h.queuedSet_eq ▸ hk)) hp
  simp only [if_pos (And.intro ha hq)]
  exact h.toLoose.requeuePaused hp ha

theorem Inv.of_thenStart {x : SchedulerState × List Effect} (h : Loose x.1) : Inv (thenStart x).1 :=
  h.tryStartNext

theorem Inv.handleCmd {s : SchedulerState} (h : Inv s) (cmd : TransferCmd)
    (hfresh : ∀ inner callbacks, cmd = .enqueue inner callbacks →
      s.taskIdToDedupe.lookup inner.taskId = none) : Inv (handleCmd s cmd).1 := by
  have hgroup : ∀ id key, s.taskIdToDedupe.lookup id = some key → key ∈ s.groups := fun id key hk => by
    obtain ⟨g, hg, _⟩ := (h.id_map id key).1 hk
    exact Finmap.mem_of_lookup_eq_some hg
  cases cmd with
  | enqueue inner callbacks =>
    simp only [SpottedCat.handleCmd]
    split
    · exact h
    · rename_i hg
      exact .of_thenStart (h.acceptTask (Finmap.lookup_eq_none.1 hg) (hfresh _ _ rfl))
  | pause taskId =>
    simp only [SpottedCat.handleCmd]
    split
    · rename_i key hk
      exact .of_thenStart (h.toLoose.markPaused (hgroup _ _ hk))
    · exact .of_thenStart h.toLoose
  | resume taskId =>
    simp only [SpottedCat.handleCmd]
    split
    · exact .of_thenStart (h.resumeGroup _)
    · exact .of_thenStart h.toLoose
  | cancel taskId =>
    simp only [SpottedCat.handleCmd]
    split
    · exact .of_thenStart (h.cancelGroup _)
    · exact .of_thenStart h.toLoose
  | snapshot => exact h
  | close activeOrder groupOrder => exact .of_empty rfl rfl rfl rfl rfl rfl

theorem Inv.react {s : SchedulerState} (h : Inv s) (input : LoopInput)
    (hfresh : ∀ inner callbacks, input = .cmd (.enqueue inner callbacks) →
      s.taskIdToDedupe.lookup inner.taskId = none) : Inv (react s input).1 := by
  cases input with
  | cmd cmd => exact h.handleCmd cmd fun inner callbacks hc => hfresh inner callbacks (by rw [hc])
  | event event => exact .of_thenStart (h.handleWorkerEvent event)
  | listen op => exact { h with }

/-! ## Runs -/

theorem mem_removeGroup_ids {s : SchedulerState} {key : UniqueId} {id : TaskId}
    (h : id ∈ (s.removeGroup key).taskIdToDedupe) : id ∈ s.taskIdToDedupe := by
  rw [SchedulerState.removeGroup_taskIdToDedupe] at h
  split at h
  · exact (Finmap.mem_erase.1 h).2
  · exact h

theorem mem_thenStart_ids {x : SchedulerState × List Effect} {id : TaskId}
    (h : id ∈ (thenStart x).1.taskIdToDedupe) : id ∈ x.1.taskIdToDedupe := by
  rwa [thenStart, (tryStartNext_same x.1).taskIdToDedupe] at h

/-- Only an `Enqueue` brings in an id, its own. -/
theorem mem_react_ids {s : SchedulerState} {input : LoopInput} {id : TaskId}
    (h : id ∈ (react s input).1.taskIdToDedupe) : id ∈ s.taskIdToDedupe ∨ id ∈ input.issues := by
  cases input with
  | listen op => exact .inl h
  | event event =>
    left
    have h := mem_thenStart_ids h
    cases event with
    | progress => exact h
    | completed key totalSize =>
      exact mem_removeGroup_ids (s := (s.deactivate key).setOffset key totalSize) h
    | failed key error => exact mem_removeGroup_ids (s := s.deactivate key) h
    | canceled key =>
      simp only at h
      split at h
      · exact h
      · exact mem_removeGroup_ids (s := { s with active := s.active.erase key }) h
  | cmd cmd =>
    cases cmd with
    | enqueue inner callbacks =>
      simp only [react, handleCmd] at h
      split at h
      · exact .inl h
      · have h := mem_thenStart_ids h
        have h : id ∈ (insertTask s inner callbacks).taskIdToDedupe := by
          simp only [acceptTask] at h
          split at h <;> exact h
        rcases Finmap.mem_insert.1 h with rfl | h
        · exact .inr (List.mem_singleton.2 rfl)
        · exact .inl h
    | pause taskId =>
      simp only [react, handleCmd] at h
      split at h <;> exact .inl (mem_thenStart_ids h)
    | resume taskId =>
      simp only [react, handleCmd] at h
      split at h
      · have h := mem_thenStart_ids h
        simp only [resumeGroup] at h
        split_ifs at h <;> exact .inl h
      · exact .inl (mem_thenStart_ids h)
    | cancel taskId =>
      simp only [react, handleCmd] at h
      split at h
      · rename_i key _
        exact .inl (mem_removeGroup_ids (s := s.withdraw key) (mem_thenStart_ids h))
      · exact .inl (mem_thenStart_ids h)
    | snapshot => exact .inl h
    | close => exact absurd h Finmap.notMem_empty

/-- The invariant of a run: the representation invariant, and every id in use was issued. -/
structure LoopInv (loop : Loop) : Prop where
  inv : Inv loop.state
  issued : ∀ id ∈ loop.state.taskIdToDedupe, id ∈ loop.issued

theorem LoopInv.init (maxUpload maxDownload : Nat) : LoopInv (.init maxUpload maxDownload) where
  inv := .of_empty rfl rfl rfl rfl rfl rfl
  issued := fun _ h => absurd h Finmap.notMem_empty

theorem LoopInv.fresh {loop : Loop} (h : LoopInv loop) {input : LoopInput} (ha : input.Arrives loop)
    {inner : InnerTask} {callbacks : TaskCallbacks} (hi : input = .cmd (.enqueue inner callbacks)) :
    loop.state.taskIdToDedupe.lookup inner.taskId = none := by
  subst hi
  exact Finmap.lookup_eq_none.2 fun hm => ha (h.issued _ hm)

theorem LoopInv.step {loop loop' : Loop} {input : LoopInput} (h : LoopInv loop)
    (hs : loop.step input = some loop') : LoopInv loop' := by
  obtain ⟨_, ha, rfl⟩ := Loop.step_eq_some.1 hs
  refine ⟨h.inv.react input fun inner callbacks hi => h.fresh ha hi, fun id hm => ?_⟩
  rcases mem_react_ids hm with hm | hm
  · exact List.mem_append.2 (.inl (h.issued id hm))
  · exact List.mem_append.2 (.inr hm)

theorem LoopInv.of_run {maxUpload maxDownload : Nat} {inputs : List LoopInput} {loop : Loop}
    (h : Lts.run Loop.step (.init maxUpload maxDownload) inputs = some loop) : LoopInv loop :=
  Lts.run_invariant (fun _ _ _ hi hs => hi.step hs) (.init maxUpload maxDownload) h

/-- **The representation invariant holds at every iteration boundary**, after any commands with
fresh task ids and any worker events in any order. -/
theorem reachable_inv (loop : Loop) (h : loop.Reachable) : Inv loop.state := by
  obtain ⟨maxUpload, maxDownload, inputs, hrun⟩ := h
  exact (LoopInv.of_run hrun).inv

/-- A running task, paused, whose worker then reports. -/
def pauseThenProgress : List LoopInput :=
  [.cmd (sampleEnqueue 0), .cmd (.pause ⟨0⟩), .event (.progress (sampleTask 0).dedupeKey 4 8)]

theorem reachable_inv_paused : ∃ loop,
    Lts.run Loop.step (.init 1 1) pauseThenProgress = some loop ∧ Inv loop.state := by
  have hrun : Lts.run Loop.step (.init 1 1) pauseThenProgress = some _ := Lts.run_final (by decide)
  exact ⟨_, hrun, reachable_inv _ ⟨1, 1, _, hrun⟩⟩

end SpottedCat
