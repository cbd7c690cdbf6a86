import SpottedCat.Lib.Admission
import SpottedCat.Sched.Invariant

/-!
# What `try_start_next` does to the queue

The function takes keys off the front of the queue and puts some back at the end, in rounds until one
starts nothing. Altogether it admits the queued keys first come, first served (`tryStartNext_refills`):
the first round decides, each direction starting as many of its keys as it has free slots, and a round
over blocked keys only turns the queue once around (`startRound_blocked`). So where every key is
blocked already, nothing changes at all (`tryStartNext_fixed`). `Fifo` says all of it in terms of the state
before the call, with what the function returns and what it leaves alone.
-/

namespace SpottedCat

open Admission

namespace SchedulerState

/-- The free slots of a direction. -/
def free (s : SchedulerState) (d : Direction) : Nat := s.maxConcurrency d - s.activeCount d

/-- The queued keys that `try_start_next` does not drop. -/
def runnable (s : SchedulerState) : List UniqueId := s.queued.filter fun k => k ∉ s.active ∧ k ∈ s.groups

theorem activeCount_activate {s : SchedulerState} {key : UniqueId} (h : key ∉ s.active) (d : Direction) :
    (s.activate key).activeCount d = s.activeCount d + if key.1 = d then 1 else 0 :=
  Table.card_keys_insert_new _ _ _ _ h

theorem free_activate {s : SchedulerState} {key : UniqueId} (h : key ∉ s.active) :
    (s.activate key).free = take s.free key.1 := by
  funext d
  have hcount := activeCount_activate h d
  have hmax : (s.activate key).maxConcurrency d = s.maxConcurrency d := rfl
  by_cases hd : key.1 = d
  · subst hd
    simp only [free, take_self, hcount, hmax, if_true]
    omega
  · rw [take_of_ne (Ne.symm hd), free, free, hcount, hmax, if_neg hd, Nat.add_zero]

end SchedulerState

/-- The keys whose workers are started among the effects, in order. -/
def spawnedKeys (es : List Effect) : List UniqueId :=
  es.filterMap fun
    | .spawn key _ _ _ => some key
    | _ => none

theorem spawnedKeys_append (es es' : List Effect) :
    spawnedKeys (es ++ es') = spawnedKeys es ++ spawnedKeys es' := List.filterMap_append

theorem mem_spawnedKeys {es : List Effect} {key : UniqueId} :
    key ∈ spawnedKeys es ↔ ∃ inner cancel offset, .spawn key inner cancel offset ∈ es := by
  simp only [spawnedKeys, List.mem_filterMap]
  constructor
  · rintro ⟨e, he, hkey⟩
    cases e <;> cases hkey
    exact ⟨_, _, _, he⟩
  · rintro ⟨inner, cancel, offset, he⟩
    exact ⟨_, he, rfl⟩

theorem spawnedKeys_startEffects (s : SchedulerState) (key : UniqueId) (group : GroupState) :
    spawnedKeys (startEffects s key group) = [key] := by
  have hsilent : spawnedKeys (emitStatus s group.entry .transmission (s.current key)
      group.entry.inner.totalSize) = [] := by
    rw [List.eq_nil_iff_forall_not_mem]
    intro k hk
    obtain ⟨inner, cancel, offset, he⟩ := mem_spawnedKeys.1 hk
    cases mem_emitStatus he
  rw [startEffects, spawnedKeys_append, hsilent]
  rfl

/-- `st` and `es` are what admitting the keys `q` makes of `s`, with `rest` behind those that are
kept. -/
structure Refills (s : SchedulerState) (q rest : List UniqueId) (st : SchedulerState)
    (es : List UniqueId) : Prop where
  queued : st.queued = rest ++ kept Prod.fst s.free q
  queuedSet : st.queuedSet = st.queued.toFinset
  active : ∀ k, k ∈ st.active ↔ k ∈ s.active ∨ k ∈ started Prod.fst s.free q
  activeCount : ∀ d, st.activeCount d = s.activeCount d + used Prod.fst s.free q d
  spawned : es = started Prod.fst s.free q

/-! ## One round -/

/-- The front key leaves the queue, with its mark in `queued_set`. -/
theorem toFinset_dequeue {s : SchedulerState} {key : UniqueId} {rest : List UniqueId}
    (hq : s.queued = key :: rest) (hnd : s.queued.Nodup) (hset : s.queuedSet = s.queued.toFinset) :
    (s.dequeue key rest).queuedSet = rest.toFinset := by
  have hkey : key ∉ rest := by
    rw [hq] at hnd
    exact (List.nodup_cons.1 hnd).1
  simp only [SchedulerState.dequeue, hset, hq, List.toFinset_cons]
  exact Finset.erase_insert (by simpa using hkey)

theorem toFinset_pushBack {s : SchedulerState} {key : UniqueId} {rest : List UniqueId}
    (hset : (s.dequeue key rest).queuedSet = rest.toFinset) :
    ((s.dequeue key rest).pushBack key).queuedSet = (rest ++ [key]).toFinset := by
  ext k
  simp only [SchedulerState.pushBack, hset, Finset.mem_insert, List.mem_toFinset, List.mem_append,
    List.mem_singleton]
  exact or_comm

/-- A key that was put back: its direction has no free slot. -/
theorem Refills.putBack {s st : SchedulerState} {key : UniqueId} {others q rest es : List UniqueId}
    (h : Refills ((s.dequeue key others).pushBack key) q (rest ++ [key]) st es) (hzero : ¬ 0 < s.free key.1) :
    Refills s (key :: q) rest st es := by
  refine ⟨?_, h.queuedSet, fun k => ?_, fun d => ?_, ?_⟩
  · rw [kept, if_neg hzero, h.queued, List.append_assoc]
    rfl
  · rw [started, if_neg hzero]
    exact h.active k
  · rw [used_cons_zero hzero]
    exact h.activeCount d
  · rw [started, if_neg hzero]
    exact h.spawned

/-- A key that was started. -/
theorem Refills.activate {s st : SchedulerState} {key : UniqueId} {others q rest es : List UniqueId}
    (h : Refills ((s.dequeue key others).activate key) q rest st es) (ha : key ∉ s.active)
    (hpos : 0 < s.free key.1) : Refills s (key :: q) rest st (key :: es) := by
  have hfree : ((s.dequeue key others).activate key).free = take s.free key.1 :=
    SchedulerState.free_activate (s := s.dequeue _ _) ha
  refine ⟨?_, h.queuedSet, fun k => ?_, fun d => ?_, ?_⟩
  · rw [kept, if_pos hpos, h.queued, hfree]
  · rw [h.active k, hfree, started, if_pos hpos, List.mem_cons]
    simp only [SchedulerState.activate, SchedulerState.dequeue, Finmap.mem_insert]
    tauto
  · have hcount := SchedulerState.activeCount_activate (s := s.dequeue key others) ha d
    have hsame : (s.dequeue key others).activeCount d = s.activeCount d := rfl
    rw [h.activeCount d, hcount, hsame, hfree, used_cons_pos hpos]
    omega
  · rw [h.spawned, hfree, started, if_pos hpos]

/-- **One round admits** the keys that it finds, `todo`; those before it in the queue were put back by
it already. -/
theorem startRound_refills (todo : List UniqueId) :
    ∀ (rest : List UniqueId) (acc : StartAcc), acc.state.queued = todo ++ rest →
      acc.state.queued.Nodup → acc.state.queuedSet = acc.state.queued.toFinset →
      ∃ es, Refills acc.state (todo.filter fun k => k ∉ acc.state.active ∧ k ∈ acc.state.groups) rest
          (startRound todo.length acc).state es ∧
        spawnedKeys (startRound todo.length acc).effects = spawnedKeys acc.effects ++ es := by
  induction todo with
  | nil =>
    intro rest acc hq _ hset
    refine ⟨[], ⟨?_, hset, fun k => ?_, fun d => rfl, rfl⟩, (List.append_nil _).symm⟩
    · simpa [kept, startRound] using hq
    · simp [started, startRound]
  | cons key todo ih =>
    intro rest acc hq hnd hset
    have hkey : key ∉ todo ++ rest := by
      rw [hq, List.cons_append] at hnd
      exact (List.nodup_cons.1 hnd).1
    have hnd' : (todo ++ rest).Nodup := by
      rw [hq, List.cons_append] at hnd
      exact (List.nodup_cons.1 hnd).2
    rcases startBody_cases acc with ⟨hnil, _⟩ | ⟨key', rest', hq', hcase⟩
    · rw [hq] at hnil
      cases hnil
    rw [hq, List.cons_append] at hq'
    obtain ⟨rfl, rfl⟩ := List.cons.inj hq'
    have hq' : acc.state.queued = key :: (todo ++ rest) := hq
    have hdeq := toFinset_dequeue hq' hnd hset
    simp only [List.length_cons, startRound]
    rcases hcase with ⟨hdrop, h⟩ | ⟨hb, h⟩ | ⟨group, ha, hg, hc, h⟩
    · -- dropped
      have hnot : ¬ (key ∉ acc.state.active ∧ key ∈ acc.state.groups) := by tauto
      rw [List.filter_cons_of_neg (by simpa using hnot)]
      obtain ⟨es, hes, hspawned⟩ := ih rest { acc with state := acc.state.dequeue key (todo ++ rest) } rfl
        hnd' hdeq
      rw [h]
      exact ⟨es, ⟨hes.queued, hes.queuedSet, hes.active, hes.activeCount, hes.spawned⟩, hspawned⟩
    · -- put back: its direction has no free slot
      have hzero : ¬ 0 < acc.state.free key.1 := by
        have hfull := hb.2.2
        unfold SchedulerState.free
        omega
      rw [List.filter_cons_of_pos (by simpa using And.intro hb.1 hb.2.1)]
      obtain ⟨es, hes, hspawned⟩ := ih (rest ++ [key])
        { acc with state := (acc.state.dequeue key (todo ++ rest)).pushBack key }
        (by simp [SchedulerState.pushBack, SchedulerState.dequeue]) (nodup_pushBack hnd' hkey)
        (by simpa [SchedulerState.pushBack, SchedulerState.dequeue] using toFinset_pushBack hdeq)
      rw [h]
      exact ⟨es, hes.putBack hzero, hspawned⟩
    · -- started
      have hpos : 0 < acc.state.free key.1 := by
        unfold SchedulerState.free
        omega
      rw [List.filter_cons_of_pos (by simpa using And.intro ha (Finmap.mem_of_lookup_eq_some hg))]
      obtain ⟨es, hes, hspawned⟩ := ih rest
        { state := (acc.state.dequeue key (todo ++ rest)).activate key
          effects := acc.effects ++ startEffects (acc.state.dequeue key (todo ++ rest)) key group
          startedKeys := insert key acc.startedKeys
          scheduledInThisRound := true } rfl hnd' hdeq
      -- the others are runnable as before
      have hothers : (todo.filter fun k =>
          k ∉ ((acc.state.dequeue key (todo ++ rest)).activate key).active ∧
            k ∈ ((acc.state.dequeue key (todo ++ rest)).activate key).groups) =
          todo.filter fun k => k ∉ acc.state.active ∧ k ∈ acc.state.groups := by
        refine List.filter_congr fun k hk => ?_
        have hne : k ≠ key := fun he => hkey (List.mem_append_left _ (he ▸ hk))
        simp [SchedulerState.activate, SchedulerState.dequeue, hne]
      simp only [hothers] at hes
      rw [h]
      refine ⟨key :: es, hes.activate ha hpos, ?_⟩
      rw [hspawned, spawnedKeys_append, spawnedKeys_startEffects, List.append_assoc]
      rfl

/-- A round over blocked keys turns the queue once around. -/
theorem startRound_blocked (todo : List UniqueId) :
    ∀ (rest : List UniqueId) (acc : StartAcc), acc.state.queued = todo ++ rest →
      (∀ k ∈ todo, Blocked acc.state k) → (∀ k ∈ todo, k ∈ acc.state.queuedSet) →
      startRound todo.length acc = { acc with state := { acc.state with queued := rest ++ todo } } := by
  induction todo with
  | nil =>
    intro rest acc hq _ _
    rw [List.append_nil, show rest = acc.state.queued from hq.symm]
    rfl
  | cons key todo ih =>
    intro rest acc hq hb hset
    rcases startBody_cases acc with ⟨hnil, _⟩ | ⟨key', rest', hq', hcase⟩
    · rw [hq] at hnil
      cases hnil
    rw [hq, List.cons_append] at hq'
    obtain ⟨rfl, rfl⟩ := List.cons.inj hq'
    obtain ⟨hactive, hgroup, hfull⟩ := hb key List.mem_cons_self
    simp only [List.length_cons, startRound]
    rcases hcase with ⟨hdrop, _⟩ | ⟨_, h⟩ | ⟨group, _, _, hc, _⟩
    · rcases hdrop with ha | hg
      · exact absurd ha hactive
      · exact absurd hgroup hg
    · rw [h, ih (rest ++ [key])]
      · have hmark : insert key (acc.state.queuedSet.erase key) = acc.state.queuedSet :=
          Finset.insert_erase (hset key List.mem_cons_self)
        simp [SchedulerState.pushBack, SchedulerState.dequeue, hmark]
      · simp [SchedulerState.pushBack, SchedulerState.dequeue]
      · intro k hk
        exact hb k (List.mem_cons_of_mem _ hk)
      · intro k hk
        have hm := hset k (List.mem_cons_of_mem _ hk)
        simp only [SchedulerState.pushBack, SchedulerState.dequeue, Finset.mem_insert, Finset.mem_erase]
        tauto
    · omega

/-! ## The whole function -/

theorem startLoop_blocked_fixed {fuel : Nat} {acc acc' : StartAcc}
    (hb : ∀ k ∈ acc.state.queued, Blocked acc.state k)
    (hset : acc.state.queuedSet = acc.state.queued.toFinset) (h : startLoop fuel acc = some acc') :
    acc'.state = acc.state ∧ acc'.effects = acc.effects := by
  cases fuel with
  | zero => cases h
  | succ fuel =>
    have hround : queueRound acc = { acc with scheduledInThisRound := false } := by
      have hall := startRound_blocked acc.state.queued [] { acc with scheduledInThisRound := false }
        (List.append_nil _).symm hb (fun k hk => by rw [hset]; exact List.mem_toFinset.2 hk)
      rw [queueRound, hall]
      rfl
    unfold startLoop at h
    rw [hround] at h
    simp only [Bool.false_eq_true, if_false] at h
    split at h <;> cases h <;> exact ⟨rfl, rfl⟩

/-- **Where every queued key is blocked, nothing changes.** -/
theorem tryStartNext_fixed {s : SchedulerState} (hb : ∀ k ∈ s.queued, Blocked s k)
    (hset : s.queuedSet = s.queued.toFinset) :
    (tryStartNext s).state = s ∧ (tryStartNext s).effects = [] :=
  @startLoop_blocked_fixed _ (.init s) _ hb hset (startLoop_tryStartNext s)

/-- What a round keeps is blocked afterwards. -/
theorem Refills.blocked {s st : SchedulerState} {q es : List UniqueId} (h : Refills s q [] st es)
    (hq : q.Nodup) (hrun : ∀ k ∈ q, k ∉ s.active ∧ k ∈ s.groups) (hgroups : st.groups = s.groups)
    (hlim : ∀ d, st.maxConcurrency d = s.maxConcurrency d) : ∀ k ∈ st.queued, Blocked st k := by
  intro k hk
  rw [h.queued, List.nil_append] at hk
  obtain ⟨hactive, hgroup⟩ := hrun k (kept_sublist.subset hk)
  refine ⟨fun ha => ?_, hgroups ▸ hgroup, ?_⟩
  · rcases (h.active k).1 ha with ha | ha
    · exact hactive ha
    · exact not_kept_of_started hq ha hk
  · have hused := kept_used hk
    rw [hlim, h.activeCount, hused]
    unfold SchedulerState.free
    omega

/-- **First come, first served.** -/
theorem tryStartNext_refills {s : SchedulerState} (hnd : s.queued.Nodup)
    (hset : s.queuedSet = s.queued.toFinset) :
    Refills s s.runnable [] (tryStartNext s).state (spawnedKeys (tryStartNext s).effects) := by
  have hloop := startLoop_tryStartNext s
  obtain ⟨es, hround, hspawned⟩ := startRound_refills s.queued [] (.init s) (List.append_nil _).symm hnd hset
  have hround : Refills s s.runnable [] (queueRound (.init s)).state es := hround
  have hspawned : spawnedKeys (queueRound (.init s)).effects = es := hspawned
  have hsame : (queueRound (.init s)).state.groups = s.groups ∧
      ∀ d, (queueRound (.init s)).state.maxConcurrency d = s.maxConcurrency d := by
    refine startRound_induct (P := fun st _ => st.groups = s.groups ∧
      ∀ d, st.maxConcurrency d = s.maxConcurrency d) ?_ s.queued.length _ ⟨rfl, fun _ => rfl⟩
    intro acc hacc
    rcases startBody_cases acc with ⟨_, h⟩ | ⟨key, rest, _, ⟨_, h⟩ | ⟨_, h⟩ | ⟨group, _, _, _, h⟩⟩ <;>
      rw [h] <;> exact hacc
  generalize tryStartNext s = acc at hloop ⊢
  unfold startLoop at hloop
  split at hloop
  · -- nothing is queued
    rename_i hzero
    have hnil : s.queued = [] := List.length_eq_zero_iff.1 hzero
    cases hloop
    have hrun : s.runnable = [] := by simp [SchedulerState.runnable, hnil]
    rw [hrun]
    refine ⟨hnil, hset, fun k => ?_, fun d => rfl, rfl⟩
    simp [started, StartAcc.init]
  · split at hloop
    · -- a second round finds blocked keys only
      have hrun : ∀ k ∈ s.runnable, k ∉ s.active ∧ k ∈ s.groups := fun k hk => by
        simpa using (List.mem_filter.1 hk).2
      have hb := hround.blocked (hnd.filter _) hrun hsame.1 hsame.2
      obtain ⟨hstate, heffects⟩ := startLoop_blocked_fixed hb hround.queuedSet hloop
      rw [hstate, heffects, hspawned]
      exact hround
    · cases hloop
      rw [hspawned]
      exact hround

/-! ## The specification -/

/-- The set that is returned holds the keys that were started. -/
theorem startRound_startedKeys : ∀ (n : Nat) (acc : StartAcc),
    acc.startedKeys = (spawnedKeys acc.effects).toFinset →
      (startRound n acc).startedKeys = (spawnedKeys (startRound n acc).effects).toFinset
  | 0, _, h => h
  | n + 1, acc, h => by
    refine startRound_startedKeys n (startBody acc) ?_
    obtain ⟨_, e⟩ | ⟨key, rest, _, ⟨_, e⟩ | ⟨_, e⟩ | ⟨group, _, _, _, e⟩⟩ := startBody_cases acc <;> rw [e]
    · exact h
    · exact h
    · exact h
    · simp only [h, spawnedKeys_append, spawnedKeys_startEffects]
      ext k
      simp

theorem startLoop_startedKeys : ∀ (fuel : Nat) (acc acc' : StartAcc),
    acc.startedKeys = (spawnedKeys acc.effects).toFinset → startLoop fuel acc = some acc' →
      acc'.startedKeys = (spawnedKeys acc'.effects).toFinset
  | 0, _, _, _, h => by cases h
  | fuel + 1, acc, acc', hacc, h => by
    have hround : (queueRound acc).startedKeys = (spawnedKeys (queueRound acc).effects).toFinset :=
      startRound_startedKeys _ { acc with scheduledInThisRound := false } hacc
    unfold startLoop at h
    split at h
    · cases h
      exact hacc
    · split at h
      · exact startLoop_startedKeys fuel _ _ hround h
      · cases h
        exact hround

/-- More fuel than is needed changes nothing. -/
theorem startLoop_more : ∀ (fuel more : Nat) (acc acc' : StartAcc), startLoop fuel acc = some acc' →
    fuel ≤ more → startLoop more acc = some acc'
  | 0, _, _, _, h, _ => by cases h
  | fuel + 1, 0, _, _, _, hle => by omega
  | fuel + 1, more + 1, acc, acc', h, hle => by
    unfold startLoop at h ⊢
    split at h
    · rename_i hzero
      rw [if_pos hzero]
      exact h
    · rename_i hzero
      rw [if_neg hzero]
      split at h
      · rename_i hscheduled
        rw [if_pos hscheduled]
        exact startLoop_more fuel more _ _ h (by omega)
      · rename_i hscheduled
        rw [if_neg hscheduled]
        exact h

/-- The slots that were taken keep their tokens. -/
theorem tryStartNext_slots (s : SchedulerState) :
    ∀ k ∈ s.active, (tryStartNext s).state.active.lookup k = s.active.lookup k := by
  refine tryStartNext_induct
    (P := fun st _ => ∀ k ∈ s.active, st.active.lookup k = s.active.lookup k) (fun _ _ => rfl) ?_ ?_ ?_
  · intro st es key rest h _ _
    exact h
  · intro st es key rest h _ _
    exact h
  · intro st es key rest group h _ hnot _ _ k hk
    have hne : k ≠ key := by
      rintro rfl
      have hlookup := h k hk
      rw [Finmap.lookup_eq_none.2 hnot] at hlookup
      exact Finmap.lookup_eq_none.1 hlookup.symm hk
    exact (Finmap.lookup_insert_of_ne _ hne).trans (h k hk)

/-- What one call makes of a state: with `s.runnable` the keys of the queue that have a group and are not
active, and `s.free d` the slots of a direction that are free. -/
structure Fifo (s : SchedulerState) (r : StartAcc) : Prop where
  /-- Of each direction the first runnable keys are started, as many as it has free slots. -/
  started : ∀ d, (spawnedKeys r.effects).filter (fun k => k.1 = d) =
    (s.runnable.filter fun k => k.1 = d).take (s.free d)
  returned : r.startedKeys = (spawnedKeys r.effects).toFinset
  active : ∀ k, k ∈ r.state.active ↔ k ∈ s.active ∨ k ∈ r.startedKeys
  slots : ∀ k ∈ s.active, r.state.active.lookup k = s.active.lookup k
  /-- The other runnable keys stay queued in their order. -/
  queued : r.state.queued = s.runnable.filter fun k => k ∉ r.startedKeys
  queuedSet : r.state.queuedSet = r.state.queued.toFinset
  same : SameTasks s r.state

/-- **`try_start_next` terminates and is first in, first out**, whatever the groups, the active keys and the
limits are. -/
theorem try_start_next_fifo {s : SchedulerState} (hnd : s.queued.Nodup)
    (hset : s.queuedSet = s.queued.toFinset) :
    (∀ fuel, s.queued.length < fuel → startLoop fuel (.init s) = some (tryStartNext s)) ∧
      Fifo s (tryStartNext s) := by
  have hloop := startLoop_tryStartNext s
  have hrefills := tryStartNext_refills hnd hset
  have hreturned := startLoop_startedKeys _ (.init s) _ rfl hloop
  have hmem (k : UniqueId) : k ∈ (tryStartNext s).startedKeys ↔ k ∈ started Prod.fst s.free s.runnable := by
    rw [hreturned, List.mem_toFinset, hrefills.spawned]
  refine ⟨fun fuel hfuel => startLoop_more _ _ _ _ hloop hfuel, fun d => ?_, hreturned, fun k => ?_,
    tryStartNext_slots s, ?_, hrefills.queuedSet, tryStartNext_same s⟩
  · rw [hrefills.spawned]
    exact started_filter
  · rw [hrefills.active, hmem]
  · have hrun : s.runnable.Nodup := hnd.filter _
    rw [hrefills.queued, List.nil_append, kept_eq_filter hrun]
    exact List.filter_congr fun k _ => decide_eq_decide.2 (not_congr (hmem k).symm)

/-- One free slot for downloads and none for uploads; of the keys that are queued, the first is active and
the second has no group. -/
def fiveQueued : SchedulerState :=
  let group : GroupState := ⟨sampleTask 0, ⟨sampleTask 0, ⟨none⟩⟩⟩
  { SchedulerState.new 0 2 [] with
    groups := ((((∅ : Table UniqueId GroupState).insert (.download, "a") group).insert (.upload, "c") group).insert
      (.download, "d") group).insert (.download, "e") group
    active := (∅ : Table UniqueId ActiveState).insert (.download, "a") ⟨⟨0⟩⟩
    queued := [(.download, "a"), (.download, "b"), (.upload, "c"), (.download, "d"), (.download, "e")]
    queuedSet := {(.download, "a"), (.download, "b"), (.upload, "c"), (.download, "d"), (.download, "e")}
    nextToken := 1 }

theorem try_start_next_fifo_mixed :
    Fifo fiveQueued (tryStartNext fiveQueued) ∧
      spawnedKeys (tryStartNext fiveQueued).effects = [(.download, "d")] ∧
        (tryStartNext fiveQueued).state.queued = [(.upload, "c"), (.download, "e")] :=
  ⟨(try_start_next_fifo (by decide) (by decide)).2, by decide, by decide⟩

end SpottedCat
