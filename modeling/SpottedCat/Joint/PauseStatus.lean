import SpottedCat.Joint.System

/-!
# Statuses of a paused task

A `Progress` event that was in the channel when its task was paused is handled like any other: it
delivers a `Transmission` after the `Paused` (`progressAfterPause_regression`). The handler does not look at
`paused_set`, as the one of `Canceled` does.

`watch` is a monitor that reads everything the loop does and gets stuck on a `Transmission` of a task
between its `Paused` and its next `Resume` answered `Ok`. When no `Progress` is handled while its key is
paused, the monitor never gets stuck (`Watched`), so there is no such `Transmission`
(`no_transmission_while_paused`).
-/

namespace SpottedCat

/-- A notification of the task with this status. -/
def Effect.Notifies (id : TaskId) (status : TransferStatus) (e : Effect) : Prop :=
  ∃ dto, e.record = some dto ∧ dto.taskId = id ∧ dto.status = status

/-- Between a `Paused` of the task and a later `Transmission` of it, a `Resume` was answered `Ok`. -/
def NoRegression (id : TaskId) (log : List Effect) : Prop :=
  ∀ before between after e e', log = before ++ e :: (between ++ e' :: after) →
    e.Notifies id .paused → e'.Notifies id .transmission →
      .respond (.resume id) (.ok ()) ∈ between

/-- One effect, as seen by a listener who knows whether the task is paused. -/
def watch (id : TaskId) (paused : Bool) (e : Effect) : Option Bool :=
  match e.record with
  | some dto =>
    if dto.taskId = id then
      match dto.status with
      | .paused => some true
      | .transmission => if paused then none else some false
      | _ => some paused
    else some paused
  | none => some (if e = .respond (.resume id) (.ok ()) then false else paused)

/-- No `Progress` is handled while its key is paused. -/
def ProgressUnpaused (sys : Sys) : Act → Prop
  | .deliver i => ∀ m ∈ sys.pool.take i, m.1.terminal = false → m.1.key ∉ sys.loop.state.pausedSet
  | _ => True

instance (sys : Sys) (act : Act) : Decidable (ProgressUnpaused sys act) := by
  unfold ProgressUnpaused
  split <;> infer_instance

/-! ## The monitor -/

section
variable {id : TaskId} {b : Bool} {e : Effect}

theorem watch_paused (h : e.Notifies id .paused) : watch id b e = some true := by
  obtain ⟨dto, hr, hid, hs⟩ := h
  simp [watch, hr, hid, hs]

theorem watch_transmission (h : e.Notifies id .transmission) :
    watch id b e = if b then none else some false := by
  obtain ⟨dto, hr, hid, hs⟩ := h
  simp [watch, hr, hid, hs]

/-- Only a `Resume` answered `Ok` ends a pause. -/
theorem watch_true {b' : Bool} (h : watch id true e = some b') (he : e ≠ .respond (.resume id) (.ok ())) :
    b' = true := by
  unfold watch at h
  split at h
  · split at h
    · split at h
      · exact (Option.some.inj h).symm
      · cases h
      · exact (Option.some.inj h).symm
    · exact (Option.some.inj h).symm
  · rw [if_neg he] at h
    exact (Option.some.inj h).symm

/-- The pause outlasts every stretch of the log without that answer. -/
theorem watch_run_true {es : List Effect} {b' : Bool} (hno : .respond (.resume id) (.ok ()) ∉ es)
    (h : Lts.run (watch id) true es = some b') : b' = true := by
  induction es with
  | nil => cases h; rfl
  | cons e es ih =>
    obtain ⟨b1, hb1, h⟩ := Lts.run_cons.1 h
    have hne : e ≠ .respond (.resume id) (.ok ()) := fun h => hno (h ▸ List.mem_cons_self)
    rw [watch_true hb1 hne] at h
    exact ih (fun hm => hno (List.mem_cons_of_mem _ hm)) h

/-- **A log the monitor accepts** has no regression. -/
theorem NoRegression.of_watch {log : List Effect} {last : Bool}
    (h : Lts.run (watch id) false log = some last) : NoRegression id log := by
  rintro before between after e e' rfl he he'
  by_contra hno
  obtain ⟨b0, _, h⟩ := Lts.run_append.1 h
  obtain ⟨b1, hb1, h⟩ := Lts.run_cons.1 h
  rw [watch_paused he] at hb1
  cases hb1
  obtain ⟨b2, hb2, h⟩ := Lts.run_append.1 h
  rw [watch_run_true hno hb2] at h
  obtain ⟨b3, hb3, _⟩ := Lts.run_cons.1 h
  rw [watch_transmission he'] at hb3
  cases hb3

theorem watch_respond {cmd : TransferCmd} {ret : Except MeowError Unit} :
    watch id b (.respond cmd ret) =
      some (if cmd = .resume id ∧ ret = .ok () then false else b) := by
  by_cases h : cmd = .resume id ∧ ret = .ok ()
  · simp [watch, Effect.record, h]
  · have hne : Effect.respond cmd ret ≠ .respond (.resume id) (.ok ()) := by
      rintro heq
      cases heq
      exact h ⟨rfl, rfl⟩
    simp [watch, Effect.record, h, hne]

/-- One record, handed to any number of listeners, that does not change what they know. -/
theorem watch_record {es : List Effect} (dto : FileTransferRecord)
    (h : ∀ e ∈ es, e.record = some dto)
    (hdto : dto.taskId = id → dto.status ≠ .paused ∧ (dto.status = .transmission → b = false)) :
    Lts.run (watch id) b es = some b := by
  refine Lts.run_fixed fun e he => ?_
  by_cases hid : dto.taskId = id
  · obtain ⟨hp, ht⟩ := hdto hid
    simp only [watch, h e he, hid, ↓reduceIte]
    cases hs : dto.status with
    | paused => exact absurd hs hp
    | transmission => simp [ht hs]
    | _ => rfl
  · simp [watch, h e he, hid]

theorem watch_groupStatus {s : SchedulerState} {key : UniqueId} {status : TransferStatus}
    {transferred : Nat} {total : GroupState → Nat}
    (h : ∀ g, s.groups.lookup key = some g → g.entry.inner.taskId = id →
      status ≠ .paused ∧ (status = .transmission → b = false)) :
    Lts.run (watch id) b (groupStatus s key status transferred total) = some b := by
  cases hg : s.groups.lookup key with
  | none => simp [groupStatus, hg]
  | some g =>
    refine watch_record (toRecordInner g.entry.inner status transferred (total g)) ?_ (h g hg)
    intro e he
    obtain ⟨g', hg', hr⟩ := mem_groupStatus he
    rw [hg] at hg'
    cases hg'
    exact hr

/-- A `Paused` raises the flag of its own task only. -/
theorem watch_groupStatus_paused (id : TaskId) (b : Bool) (s : SchedulerState) (key : UniqueId) (transferred : Nat)
    (total : GroupState → Nat) : ∃ b', Lts.run (watch id) b
      (groupStatus s key .paused transferred total) = some b' ∧
      (b' = true → b = true ∨ ∃ g, s.groups.lookup key = some g ∧ g.entry.inner.taskId = id) := by
  by_cases hown : ∃ g, s.groups.lookup key = some g ∧ g.entry.inner.taskId = id
  · have henabled : ∀ e ∈ groupStatus s key .paused transferred total, ∀ b, ∃ b',
        watch id b e = some b' := by
      intro e he b
      obtain ⟨g, hg, hr⟩ := mem_groupStatus he
      by_cases hid : g.entry.inner.taskId = id
      · exact ⟨true, watch_paused ⟨_, hr, hid, rfl⟩⟩
      · exact ⟨b, by simp [watch, hr, toRecordInner, hid]⟩
    obtain ⟨b', hb'⟩ := Lts.run_enabled henabled
    exact ⟨b', hb', fun _ => .inr hown⟩
  · exact ⟨b, watch_groupStatus fun g hg hid => absurd ⟨g, hg, hid⟩ hown, .inl⟩

theorem watch_cancelActive (s : SchedulerState) (key : UniqueId) :
    Lts.run (watch id) b (cancelActive s key) = some b := by
  refine Lts.run_fixed fun e he => ?_
  obtain ⟨_, _, rfl⟩ := mem_cancelActive he
  simp [watch, Effect.record]

end

/-! ## One iteration -/

/-- A raised flag is right: the task was issued, and if it is still there it is paused. -/
def Sound (id : TaskId) (issued : List TaskId) (b : Bool) (s : SchedulerState) : Prop :=
  b = true → id ∈ issued ∧ ∀ k, s.taskIdToDedupe.lookup id = some k → k ∈ s.pausedSet

/-- The monitor reads the effects without getting stuck, and its flag stays right. -/
def Watches (id : TaskId) (issued : List TaskId) (s : SchedulerState)
    (x : SchedulerState × List Effect) : Prop :=
  ∀ b, Sound id issued b s → ∃ b', Lts.run (watch id) b x.2 = some b' ∧ Sound id issued b' x.1

section
variable {id : TaskId} {issued : List TaskId} {s s' : SchedulerState}

/-- Ids may go, and keys that are still in use stay paused. -/
theorem Sound.mono {b : Bool} (h : Sound id issued b s)
    (hids : ∀ k, s'.taskIdToDedupe.lookup id = some k →
      s.taskIdToDedupe.lookup id = some k ∧ (k ∈ s.pausedSet → k ∈ s'.pausedSet)) :
    Sound id issued b s' := fun hb =>
  ⟨(h hb).1, fun k hk => (hids k hk).2 ((h hb).2 k (hids k hk).1)⟩

/-- Effects that leave the flag in place. -/
theorem Watches.of_fixed {es : List Effect} (hes : ∀ b, Sound id issued b s →
    Lts.run (watch id) b es = some b) (hs : ∀ b, Sound id issued b s → Sound id issued b s') :
    Watches id issued s (s', es) := fun b hb => ⟨b, hes b hb, hs b hb⟩

/-- **`try_start_next`** starts queued keys only, and no queued key is paused. -/
theorem Watches.thenStart {x : SchedulerState × List Effect} (h : Watches id issued s x)
    (hl : Loose x.1) : Watches id issued s (thenStart x) := by
  intro b hb
  obtain ⟨b1, hb1, hsound⟩ := h b hb
  have hstart : Lts.run (watch id) b1 (tryStartNext x.1).effects = some b1 := by
    refine (tryStartNext_induct (P := fun st es => Loose st ∧ Sound id issued b1 st ∧
      Lts.run (watch id) b1 es = some b1) ⟨hl, hsound, rfl⟩ ?_ ?_ ?_).2.2
    · rintro st es key rest ⟨hl, hs, hes⟩ hq hd
      exact ⟨hl.dequeue hq hd, hs, hes⟩
    · rintro st es key rest ⟨hl, hs, hes⟩ hq _
      exact ⟨hl.requeue hq, hs, hes⟩
    · rintro st es key rest group ⟨hl, hs, hes⟩ hq ha hg hc
      refine ⟨hl.start hq (Finmap.mem_of_lookup_eq_some hg) hc, hs, ?_⟩
      have hunpaused : key ∉ st.pausedSet := hl.queued_paused key (hq ▸ List.mem_cons_self)
      rw [Lts.run_append]
      refine ⟨b1, hes, Lts.run_append.2 ⟨b1, ?_, ?_⟩⟩
      · refine watch_record _ (fun e he => mem_emitStatus he) fun hid => ⟨by simp [toRecordInner], fun _ => ?_⟩
        have hid' : group.leaderInner.taskId = id := by rw [← hl.entry_inner key group hg]; exact hid
        rw [Bool.eq_false_iff]
        exact fun hb1 => hunpaused ((hs hb1).2 key ((hl.id_map id key).2 ⟨group, hg, hid'⟩))
      · exact Lts.run_fixed fun e he => by rw [List.mem_singleton.1 he]; rfl
  refine ⟨b1, Lts.run_append.2 ⟨b1, hb1, hstart⟩, fun hb1 => ⟨(hsound hb1).1, ?_⟩⟩
  have hsame := tryStartNext_same x.1
  simp only [SpottedCat.thenStart, hsame.taskIdToDedupe, hsame.pausedSet]
  exact (hsound hb1).2

/-- The group of a key is the task's exactly when the id maps to the key. -/
theorem Inv.lookup_of_group (h : Inv s) {key : UniqueId} {g : GroupState}
    (hg : s.groups.lookup key = some g) (hid : g.entry.inner.taskId = id) :
    s.taskIdToDedupe.lookup id = some key :=
  (h.id_map id key).2 ⟨g, hg, by rw [← h.entry_inner key g hg]; exact hid⟩

/-- A step that only removes groups, and the pause marks of the keys it removes. -/
theorem Sound.of_groups {b : Bool} (h : Sound id issued b s) (hi : Inv s) (hl : Loose s')
    (hgroups : ∀ k g, s'.groups.lookup k = some g →
      s.groups.lookup k = some g ∧ (k ∈ s.pausedSet → k ∈ s'.pausedSet)) :
    Sound id issued b s' := by
  refine h.mono fun k hk => ?_
  obtain ⟨g, hg, hid⟩ := (hl.id_map id k).1 hk
  obtain ⟨hg', hp⟩ := hgroups k g hg
  exact ⟨(hi.id_map id k).2 ⟨g, hg', hid⟩, hp⟩

/-- The key's group goes, with a status that is neither `Paused` nor `Transmission`. -/
theorem Watches.erase {key : UniqueId} {status : TransferStatus} {transferred : Nat}
    {total : GroupState → Nat} {es : List Effect} (hi : Inv s) (hl : Loose s')
    (hes : ∀ b, Lts.run (watch id) b es =
      Lts.run (watch id) b (groupStatus s key status transferred total))
    (hstatus : status.terminal = true) (hgroups : s'.groups = s.groups.erase key)
    (hpaused : ∀ k ∈ s.pausedSet, k ≠ key → k ∈ s'.pausedSet) : Watches id issued s (s', es) := by
  have hquiet : status ≠ .paused ∧ status ≠ .transmission := by
    constructor <;> · rintro rfl; cases hstatus
  refine .of_fixed (fun b _ => ?_) fun b hb => hb.of_groups hi hl fun k g hk => ?_
  · rw [hes]
    exact watch_groupStatus fun _ _ _ => ⟨hquiet.1, fun ht => absurd ht hquiet.2⟩
  · rw [hgroups, Table.lookup_erase_ite] at hk
    split at hk
    · cases hk
    · rename_i hne
      exact ⟨hk, fun hp => hpaused k hp hne⟩

theorem Watches.handleWorkerEvent (hi : Inv s) (event : WorkerEvent)
    (hprogress : event.terminal = false → event.key ∉ s.pausedSet) :
    Watches id issued s (handleWorkerEvent s event) := by
  have hloose := hi.handleWorkerEvent event
  cases event with
  | progress key nextOffset totalSize =>
    refine .of_fixed (fun b hb => watch_groupStatus fun g hg hid => ⟨by simp, fun _ => ?_⟩)
      fun b hb => hb
    rw [Bool.eq_false_iff]
    exact fun hb' => hprogress rfl ((hb hb').2 key (hi.lookup_of_group hg hid))
  | completed key totalSize =>
    refine .erase hi hloose (fun b => rfl) rfl (SchedulerState.removeGroup_groups _ _) fun k hk hne => ?_
    exact (SchedulerState.removeGroup_pausedSet _ _).symm ▸ Finset.mem_erase.2 ⟨hne, hk⟩
  | failed key error =>
    refine .erase hi hloose (fun b => rfl) rfl (SchedulerState.removeGroup_groups _ _) fun k hk hne => ?_
    exact (SchedulerState.removeGroup_pausedSet _ _).symm ▸ Finset.mem_erase.2 ⟨hne, hk⟩
  | canceled key =>
    unfold SpottedCat.handleWorkerEvent at hloose ⊢
    simp only at hloose ⊢
    split at hloose
    · rw [if_pos ‹_›]
      exact .of_fixed (fun _ _ => rfl) fun _ hb => hb
    · rw [if_neg ‹_›]
      refine .erase hi hloose (fun b => rfl) rfl (SchedulerState.removeGroup_groups _ _) fun k hk _ => ?_
      exact (SchedulerState.removeGroup_pausedSet _ _).symm ▸ hk

/-- An answer other than an `Ok` to `Resume` changes nothing for the monitor. -/
theorem watch_answer {b : Bool} {cmd : TransferCmd} {ret : Except MeowError Unit} (es : List Effect)
    (h : cmd ≠ .resume id ∨ ret ≠ .ok ()) :
    Lts.run (watch id) b (es ++ [.respond cmd ret]) = Lts.run (watch id) b es := by
  have hstep : ∀ b, watch id b (.respond cmd ret) = some b := fun b => by
    rw [watch_respond, if_neg]
    rintro ⟨h1, h2⟩
    exact h.elim (fun h => h h1) fun h => h h2
  refine Option.ext fun b' => ?_
  rw [Lts.run_snoc]
  constructor
  · rintro ⟨b1, hb1, h1⟩
    rw [hstep] at h1
    rw [hb1, Option.some.inj h1]
  · exact fun hb' => ⟨b', hb', hstep b'⟩

theorem Watches.pauseGroup (hi : Inv s) (hissued : ∀ i ∈ s.taskIdToDedupe, i ∈ issued)
    (taskId : TaskId) (key : UniqueId) :
    Watches id issued s ((pauseGroup s key).1,
      (pauseGroup s key).2 ++ [.respond (.pause taskId) (.ok ())]) := by
  intro b hb
  obtain ⟨b', hb', hraised⟩ := watch_groupStatus_paused id b s key (s.current key)
    GroupState.ownTotal
  refine ⟨b', ?_, fun hb1 => ?_⟩
  · rw [watch_answer _ (.inl (by simp)), SpottedCat.pauseGroup, Lts.run_append]
    exact ⟨b, watch_cancelActive s key, hb'⟩
  · rcases hraised hb1 with hb1 | ⟨g, hg, hid⟩
    · exact ⟨(hb hb1).1, fun k hk => Finset.mem_insert_of_mem ((hb hb1).2 k hk)⟩
    · have hlookup := hi.lookup_of_group hg hid
      refine ⟨hissued id (Finmap.mem_iff.2 ⟨_, hlookup⟩), fun k hk => ?_⟩
      have : key = k := Option.some.inj (hlookup.symm.trans hk)
      exact Finset.mem_insert.2 (.inl this.symm)

theorem Watches.resumeGroup (hi : Inv s) {taskId : TaskId} {key : UniqueId}
    (hkey : s.taskIdToDedupe.lookup taskId = some key) :
    Watches id issued s ((resumeGroup s key).2.1,
      (resumeGroup s key).2.2 ++ [.respond (.resume taskId) (resumeGroup s key).1]) := by
  have hstay : ∀ err, Watches id issued s (s, [] ++ [.respond (.resume taskId) (.error err)]) :=
    fun err => .of_fixed (fun b _ => by rw [watch_answer _ (.inr (by simp))]; rfl) fun _ hb => hb
  unfold SpottedCat.resumeGroup
  split
  · exact hstay _
  rename_i hp
  split
  · exact hstay _
  rw [if_neg fun hg => hg (hi.paused_group key (not_not.1 hp))]
  intro b hb
  refine ⟨if taskId = id then false else b, ?_, fun hb1 => ?_⟩
  · rw [Lts.run_snoc]
    refine ⟨b, watch_groupStatus fun _ _ _ => ⟨by simp, by simp⟩, ?_⟩
    rw [watch_respond]
    simp
  · by_cases hid : taskId = id
    · simp [hid] at hb1
    · rw [if_neg hid] at hb1
      have hsound : Sound id issued b (s.unmarkPaused key) := hb.mono fun k hk =>
        ⟨hk, fun hpk => Finset.mem_erase.2 ⟨?_, hpk⟩⟩
      · simp only
        split <;> exact hsound hb1
      · -- another task's id does not map to the resumed key
        rintro rfl
        obtain ⟨g, hg, h1⟩ := (hi.id_map taskId k).1 hkey
        obtain ⟨g', hg', h2⟩ := (hi.id_map id k).1 hk
        rw [hg] at hg'
        cases hg'
        exact hid (h1.symm.trans h2)

theorem Watches.cancelGroup (hi : Inv s) (taskId : TaskId) (key : UniqueId) :
    Watches id issued s ((cancelGroup s key).1,
      (cancelGroup s key).2 ++ [.respond (.cancel taskId) (.ok ())]) := by
  have hes : ∀ b, Lts.run (watch id) b
      ((SpottedCat.cancelGroup s key).2 ++ [.respond (.cancel taskId) (.ok ())]) =
        Lts.run (watch id) b
          (groupStatus s key .canceled (s.current key) GroupState.ownTotal) := fun b => by
    rw [watch_answer _ (.inl (by simp))]
    refine Option.ext fun b' => ?_
    rw [SpottedCat.cancelGroup, Lts.run_append, watch_cancelActive]
    simp
  refine .erase hi (hi.cancelGroup key) hes rfl (SchedulerState.removeGroup_groups _ _) fun k hk hne => ?_
  exact (SchedulerState.removeGroup_pausedSet _ _).symm ▸ Finset.mem_erase.2 ⟨hne, hk⟩

theorem Watches.acceptTask (hi : Inv s) {inner : InnerTask} {callbacks : TaskCallbacks}
    (hg : inner.dedupeKey ∉ s.groups) (hfresh : inner.taskId ∉ issued) :
    Watches id issued s (acceptTask s inner callbacks) := by
  have ha : inner.dedupeKey ∉ s.active := fun hk => hg (hi.active_group _ hk)
  refine .of_fixed (fun b _ => ?_) fun b hb hb1 => ⟨(hb hb1).1, fun k hk => ?_⟩
  · -- the key is not active, so `Pending` is all
    simp only [if_neg ha, List.append_nil]
    exact watch_record _ (fun e he => mem_emitStatus he) fun _ => ⟨by simp [toRecordInner], by
      simp [toRecordInner]⟩
  · have hid : id ≠ inner.taskId := fun h => hfresh (h ▸ (hb hb1).1)
    have hlookup : s.taskIdToDedupe.lookup id = some k := by
      have : (s.taskIdToDedupe.insert inner.taskId inner.dedupeKey).lookup id = some k := by
        split at hk <;> exact hk
      rwa [Table.lookup_insert_ite, if_neg hid] at this
    split <;> exact (hb hb1).2 k hlookup

theorem Watches.closeAll (hi : Inv s) (hissued : ∀ i ∈ s.taskIdToDedupe, i ∈ issued)
    (activeOrder groupOrder : List UniqueId) :
    Watches id issued s (closeAll s activeOrder groupOrder) := by
  intro b hb
  have hcancel : Lts.run (watch id) b (activeOrder.flatMap (cancelActive s)) = some b := by
    refine Lts.run_fixed fun e he => ?_
    obtain ⟨k, _, he⟩ := List.mem_flatMap.1 he
    obtain ⟨_, _, rfl⟩ := mem_cancelActive he
    rfl
  have hrecord : ∀ e ∈ groupOrder.flatMap (fun key =>
      groupStatus s key .paused (s.current key) GroupState.ownTotal), ∃ dto, e.record = some dto ∧
        dto.status = .paused ∧ dto.taskId ∈ issued := by
    intro e he
    obtain ⟨k, _, he⟩ := List.mem_flatMap.1 he
    obtain ⟨g, hg, hr⟩ := mem_groupStatus he
    exact ⟨_, hr, rfl, hissued _ (Finmap.mem_iff.2 ⟨k, hi.lookup_of_group hg rfl⟩)⟩
  by_cases hid : id ∈ issued
  · have henabled : ∀ e ∈ groupOrder.flatMap (fun key =>
        groupStatus s key .paused (s.current key) GroupState.ownTotal), ∀ b, ∃ b',
          watch id b e = some b' := by
      intro e he b
      obtain ⟨dto, hr, hst, _⟩ := hrecord e he
      by_cases hdto : dto.taskId = id
      · exact ⟨true, watch_paused ⟨dto, hr, hdto, hst⟩⟩
      · exact ⟨b, by simp [watch, hr, hdto]⟩
    obtain ⟨b', hb'⟩ := Lts.run_enabled (s := b) henabled
    refine ⟨b', Lts.run_append.2 ⟨b, hcancel, hb'⟩, fun _ => ⟨hid, fun k hk => ?_⟩⟩
    simp [SpottedCat.closeAll] at hk
  · refine ⟨b, Lts.run_append.2 ⟨b, hcancel, Lts.run_fixed fun e he => ?_⟩, fun hb1 => absurd (hb hb1).1 hid⟩
    obtain ⟨dto, hr, _, hdto⟩ := hrecord e he
    have hne : dto.taskId ≠ id := fun h => hid (h ▸ hdto)
    simp [watch, hr, hne]

theorem Watches.handleCmd (hi : Inv s) (hissued : ∀ i ∈ s.taskIdToDedupe, i ∈ issued)
    (cmd : TransferCmd) (hfresh : ∀ inner callbacks, cmd = .enqueue inner callbacks →
      inner.taskId ∉ issued) : Watches id issued s (handleCmd s cmd) := by
  have hunknown : ∀ cmd err, Watches id issued s
      (SpottedCat.thenStart (s, [] ++ [.respond cmd (.error err)])) := fun cmd err =>
    Watches.thenStart (.of_fixed (fun b _ => by rw [watch_answer _ (.inr (by simp))]; rfl) fun _ hb => hb)
      hi.toLoose
  have hgroup : ∀ id key, s.taskIdToDedupe.lookup id = some key → key ∈ s.groups := fun id key hk => by
    obtain ⟨g, hg, _⟩ := (hi.id_map id key).1 hk
    exact Finmap.mem_of_lookup_eq_some hg
  cases cmd with
  | enqueue inner callbacks =>
    simp only [SpottedCat.handleCmd]
    split
    · refine .of_fixed (fun b _ => ?_) fun _ hb => hb
      exact watch_record _ (fun e he => mem_notify he) fun _ =>
        ⟨by simp [duplicateRecord, toRecordInner], by simp [duplicateRecord, toRecordInner]⟩
    · rename_i hg
      have hg := Finmap.lookup_eq_none.1 hg
      have hid := hfresh inner callbacks rfl
      exact (Watches.acceptTask hi hg hid).thenStart
        (hi.acceptTask hg (Finmap.lookup_eq_none.2 fun h => hid (hissued _ h)))
  | pause taskId =>
    simp only [SpottedCat.handleCmd]
    split
    · rename_i key hk
      exact (Watches.pauseGroup hi hissued taskId key).thenStart (hi.toLoose.markPaused (hgroup _ _ hk))
    · exact hunknown _ _
  | resume taskId =>
    simp only [SpottedCat.handleCmd]
    split
    · rename_i key hk
      exact (Watches.resumeGroup hi hk).thenStart (hi.resumeGroup key)
    · exact hunknown _ _
  | cancel taskId =>
    simp only [SpottedCat.handleCmd]
    split
    · rename_i key _
      exact (Watches.cancelGroup hi taskId key).thenStart (hi.cancelGroup key)
    · exact hunknown _ _
  | snapshot => exact .of_fixed (fun _ _ => rfl) fun _ hb => hb
  | close activeOrder groupOrder =>
    intro b hb
    have hclose : Watches id issued s (SpottedCat.closeAll s activeOrder groupOrder) :=
      .closeAll hi hissued activeOrder groupOrder
    obtain ⟨b', hb', hs⟩ := hclose b hb
    exact ⟨b', by simp only [SpottedCat.handleCmd]; rw [watch_answer _ (.inl (by simp))]; exact hb', hs⟩

theorem Watches.react (hi : Inv s) (hissued : ∀ i ∈ s.taskIdToDedupe, i ∈ issued) (input : LoopInput)
    (hfresh : ∀ inner callbacks, input = .cmd (.enqueue inner callbacks) → inner.taskId ∉ issued)
    (hprogress : ∀ event, input = .event event → event.terminal = false → event.key ∉ s.pausedSet) :
    Watches id issued s (react s input) := by
  cases input with
  | cmd cmd => exact .handleCmd hi hissued cmd fun inner callbacks he => hfresh inner callbacks (by rw [he])
  | event event =>
    exact (Watches.handleWorkerEvent hi event (hprogress event rfl)).thenStart (hi.handleWorkerEvent event)
  | listen op => exact .of_fixed (fun _ _ => rfl) fun _ hb => hb

end

/-! ## Runs -/

/-- The monitor has read the whole log. -/
def Watched (id : TaskId) (loop : Loop) : Prop :=
  ∃ b, Lts.run (watch id) false loop.log = some b ∧ Sound id loop.issued b loop.state

theorem Watched.step {id : TaskId} {loop loop' : Loop} {input : LoopInput} (h : Watched id loop)
    (hl : LoopInv loop) (hs : loop.step input = some loop')
    (hprogress : ∀ event, input = .event event → event.terminal = false →
      event.key ∉ loop.state.pausedSet) : Watched id loop' := by
  obtain ⟨b, hb, hsound⟩ := h
  obtain ⟨_, harrives, rfl⟩ := Loop.step_eq_some.1 hs
  have hfresh : ∀ inner callbacks, input = .cmd (.enqueue inner callbacks) →
      inner.taskId ∉ loop.issued := by
    rintro inner callbacks rfl
    exact harrives
  obtain ⟨b', hb', hsound'⟩ := Watches.react hl.inv hl.issued input hfresh hprogress b hsound
  refine ⟨b', Lts.run_append.2 ⟨b, hb, hb'⟩, fun hb1 => ?_⟩
  exact ⟨List.mem_append_left _ (hsound' hb1).1, (hsound' hb1).2⟩

/-- **No status regression after a pause**, in runs in which no `Progress` is handled while its key is
paused. -/
theorem no_transmission_while_paused {maxUpload maxDownload : Nat} {acts : List Act} {sys : Sys}
    (hrun : Lts.run Sys.step (.init maxUpload maxDownload) acts = some sys)
    (hquiet : Lts.Meets Sys.step ProgressUnpaused (.init maxUpload maxDownload) acts) (id : TaskId) :
    NoRegression id sys.loop.log := by
  have hinv : LoopInv sys.loop ∧ Watched id sys.loop := by
    refine Lts.run_invariant_of_meets (I := fun sys => LoopInv sys.loop ∧ Watched id sys.loop) ?_
      ⟨.init maxUpload maxDownload, false, rfl, fun hb => by cases hb⟩ hquiet hrun
    rintro sys act sys' ⟨hl, hw⟩ hc hs
    obtain ⟨input, pool, hin, hfeed⟩ | ⟨i, input, pool, _, _, rfl⟩ := Sys.step_cases hs
    · have hstep := (Sys.feed_eq_some.1 hfeed).1
      refine ⟨hl.step hstep, hw.step hl hstep ?_⟩
      rintro event rfl
      cases act with
      | deliver i =>
        obtain ⟨m, htake, he⟩ := Option.map_eq_some_iff.1 hin
        cases he
        exact hc m htake
      | cmd | listen | work => cases hin
    · exact ⟨hl, hw⟩
  obtain ⟨_, b, hb, _⟩ := hinv
  exact .of_watch hb

/-- A `Progress` is still in the channel when its task is paused. -/
def progressAfterPause : List Act :=
  [.cmd (sampleEnqueue 0), .work 0 (.prepared (.ok ⟨0, 8⟩)), .work 0 (.token false),
    .work 0 (.attempt (.token false)), .work 0 (.attempt (.chunk (.ok ⟨4, 8, false⟩))), .work 0 .sent,
    .cmd (.pause ⟨0⟩), .deliver 0]

/-- It is delivered as a `Transmission`. -/
theorem progressAfterPause_regression : ∃ sys,
    Lts.run Sys.step (.init 1 1) progressAfterPause = some sys ∧ ¬ NoRegression ⟨0⟩ sys.loop.log := by
  refine ⟨_, Lts.run_final (by decide), fun h => ?_⟩
  have hlog : (Lts.final Sys.step (.init 1 1) progressAfterPause).loop.log =
      [.invoke ⟨0⟩ (toRecordInner (sampleTask 0) .pending 0 8),
        .invoke ⟨0⟩ (toRecordInner (sampleTask 0) .transmission 0 8),
        .spawn (sampleTask 0).dedupeKey (sampleTask 0) ⟨0⟩ 0, .cancel ⟨0⟩] ++
      .invoke ⟨0⟩ (toRecordInner (sampleTask 0) .paused 0 8) ::
        ([.respond (.pause ⟨0⟩) (.ok ())] ++
          .invoke ⟨0⟩ (toRecordInner (sampleTask 0) .transmission 4 8) :: []) := rfl
  have hresumed := h _ _ _ _ _ hlog ⟨_, rfl, rfl, rfl⟩ ⟨_, rfl, rfl, rfl⟩
  revert hresumed
  decide

/-- A pause after the `Progress` was handled, then a resume. -/
theorem no_transmission_while_paused_resumed : ∃ sys,
    Lts.run Sys.step (.init 1 1) (pauseAfterProgress ++ [.cmd (.resume ⟨0⟩)]) = some sys ∧
      NoRegression ⟨0⟩ sys.loop.log := by
  have hrun : Lts.run Sys.step (.init 1 1) (pauseAfterProgress ++ [.cmd (.resume ⟨0⟩)]) = some _ :=
    Lts.run_final (by decide)
  exact ⟨_, hrun, no_transmission_while_paused hrun (by decide) ⟨0⟩⟩

end SpottedCat
