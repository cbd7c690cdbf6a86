import Mathlib.Data.Finset.Card
import Mathlib.Data.Finset.Lattice.Fold
import Mathlib.Data.Fintype.BigOperators
import Mathlib.Order.WellFounded
import SpottedCat.Lib.Run
import SpottedCat.Lib.Table

/-!
# Observers in a list behind a lock

Threads share a list of observers, each under a key of its own, behind a lock for many readers or one writer. A
thread that broadcasts copies the list under the lock, lets it go, and then calls those in the copy one after the
other. An observer that is called may edit the list itself, in any way, before it returns or fails.

| step | |
| --- | --- |
| `start`    | a thread begins a broadcast |
| `ask`      | a thread wants to edit the list |
| `lock`     | it has got the lock for reading |
| `copy`     | it copies the list and unlocks it |
| `call`     | it calls the next observer in its copy, who wants to do some edits |
| `finish`   | all in its copy have been called |
| `lockEdit` | it has got the lock for writing |
| `edit`     | it does its next edit and unlocks the list |

* `run_faithful`: a broadcast calls those that were in the list when it was copied, each once, in their order;
* `run_gone`: an observer that has left the list is called at most once more by each thread;
* `Sound.progress`, `no_endless_run`: no thread waits for ever, whatever the observers do.
-/

namespace Observers

inductive Edit (κ C : Type*) where
  | add (k : κ) (c : C)
  | drop (k : κ)
  | clear

section
variable {κ C : Type*} [DecidableEq κ]

def Edit.apply (l : List (κ × C)) : Edit κ C → List (κ × C)
  | .add k c => l ++ [(k, c)]
  | .drop k => l.eraseP fun o => o.1 = k
  | .clear => []

def Edit.added : Edit κ C → List κ
  | .add k _ => [k]
  | _ => []

/-- The keys that edits bring in. -/
def addeds (es : List (Edit κ C)) : List κ := es.flatMap Edit.added

end

/-- What has happened, and in which thread. -/
inductive Event (n : Nat) (κ C ρ : Type*) where
  | edited (i : Fin n) (e : Edit κ C)
  | copied (i : Fin n) (r : ρ) (l : List (κ × C))
  | called (i : Fin n) (r : ρ) (o : κ × C)

structure State (n : Nat) (κ C ρ : Type*) where
  list : List (κ × C)
  /-- Who has the lock for reading. -/
  readers : Finset (Fin n)
  /-- Who has it for writing. -/
  writer : Option (Fin n)
  /-- The broadcast of a thread: what it tells and, once it has its copy, who is still to be called. -/
  cast : Fin n → Option (ρ × Option (List (κ × C)))
  /-- The edits that the thread, or the observer it has called, has still to do. -/
  edits : Fin n → List (Edit κ C)
  /-- The keys given out so far. -/
  issued : List κ
  log : List (Event n κ C ρ)

inductive Act (n : Nat) (κ C ρ : Type*) where
  | start (i : Fin n) (r : ρ)
  | ask (i : Fin n) (es : List (Edit κ C))
  | lock (i : Fin n)
  | copy (i : Fin n)
  | call (i : Fin n) (es : List (Edit κ C))
  | finish (i : Fin n)
  | lockEdit (i : Fin n)
  | edit (i : Fin n)

section
variable {n : Nat} {κ C ρ : Type*}

def init : State n κ C ρ := ⟨[], ∅, none, fun _ => none, fun _ => [], [], []⟩

/-- The calls of a thread, with what they tell. -/
def callsOf (i : Fin n) (log : List (Event n κ C ρ)) : List (ρ × κ × C) :=
  log.flatMap fun
    | .called j r o => if j = i then [(r, o)] else []
    | _ => []

/-- The copies that a thread has made, with what it then told. -/
def copiesOf (i : Fin n) (log : List (Event n κ C ρ)) : List (ρ × List (κ × C)) :=
  log.flatMap fun
    | .copied j r l => if j = i then [(r, l)] else []
    | _ => []

/-- The calls still to come. -/
def pending : Option (ρ × Option (List (κ × C))) → List (ρ × κ × C)
  | some (r, some rest) => rest.map fun o => (r, o)
  | _ => []

/-- New edits bring in new keys. -/
def State.Fresh (s : State n κ C ρ) (es : List (Edit κ C)) : Prop :=
  (addeds es).Nodup ∧ ∀ k ∈ addeds es, k ∉ s.issued

section
variable [DecidableEq κ]

instance (s : State n κ C ρ) (es : List (Edit κ C)) : Decidable (s.Fresh es) := by
  unfold State.Fresh
  infer_instance

def step (s : State n κ C ρ) : Act n κ C ρ → Option (State n κ C ρ)
  | .start i r =>
    match s.cast i, s.edits i with
    | none, [] => some { s with cast := Function.update s.cast i (some (r, none)) }
    | _, _ => none
  | .ask i es =>
    match s.cast i, s.edits i with
    | none, [] =>
      if s.Fresh es then
        some { s with edits := Function.update s.edits i es, issued := s.issued ++ addeds es }
      else none
    | _, _ => none
  | .lock i =>
    match s.cast i with
    | some (_, none) =>
      if s.writer = none ∧ i ∉ s.readers then some { s with readers := insert i s.readers } else none
    | _ => none
  | .copy i =>
    match s.cast i with
    | some (r, none) =>
      if i ∈ s.readers then
        some { s with
          cast := Function.update s.cast i (some (r, some s.list))
          readers := s.readers.erase i
          log := s.log ++ [.copied i r s.list] }
      else none
    | _ => none
  | .call i es =>
    match s.cast i, s.edits i with
    | some (r, some (o :: rest)), [] =>
      if s.Fresh es then
        some { s with
          cast := Function.update s.cast i (some (r, some rest))
          edits := Function.update s.edits i es
          issued := s.issued ++ addeds es
          log := s.log ++ [.called i r o] }
      else none
    | _, _ => none
  | .finish i =>
    match s.cast i, s.edits i with
    | some (_, some []), [] => some { s with cast := Function.update s.cast i none }
    | _, _ => none
  | .lockEdit i =>
    match s.edits i with
    | _ :: _ => if s.writer = none ∧ s.readers = ∅ then some { s with writer := some i } else none
    | [] => none
  | .edit i =>
    match s.edits i with
    | e :: es =>
      if s.writer = some i then
        some { s with
          list := e.apply s.list
          writer := none
          edits := Function.update s.edits i es
          log := s.log ++ [.edited i e] }
      else none
    | [] => none

/-- Every step, and when it is taken. -/
inductive Steps (s : State n κ C ρ) : Act n κ C ρ → State n κ C ρ → Prop
  | start {i : Fin n} {r : ρ} (hcast : s.cast i = none) (hedits : s.edits i = []) :
      Steps s (.start i r) { s with cast := Function.update s.cast i (some (r, none)) }
  | ask {i : Fin n} {es : List (Edit κ C)} (hcast : s.cast i = none) (hedits : s.edits i = []) (hnew : s.Fresh es) :
      Steps s (.ask i es) { s with edits := Function.update s.edits i es, issued := s.issued ++ addeds es }
  | lock {i : Fin n} {r : ρ} (hcast : s.cast i = some (r, none)) (hwriter : s.writer = none) (hi : i ∉ s.readers) :
      Steps s (.lock i) { s with readers := insert i s.readers }
  | copy {i : Fin n} {r : ρ} (hcast : s.cast i = some (r, none)) (hi : i ∈ s.readers) :
      Steps s (.copy i) { s with
        cast := Function.update s.cast i (some (r, some s.list))
        readers := s.readers.erase i
        log := s.log ++ [.copied i r s.list] }
  | call {i : Fin n} {es : List (Edit κ C)} {r : ρ} {o : κ × C} {rest : List (κ × C)}
      (hcast : s.cast i = some (r, some (o :: rest))) (hedits : s.edits i = []) (hnew : s.Fresh es) :
      Steps s (.call i es) { s with
        cast := Function.update s.cast i (some (r, some rest))
        edits := Function.update s.edits i es
        issued := s.issued ++ addeds es
        log := s.log ++ [.called i r o] }
  | finish {i : Fin n} {r : ρ} (hcast : s.cast i = some (r, some [])) (hedits : s.edits i = []) :
      Steps s (.finish i) { s with cast := Function.update s.cast i none }
  | lockEdit {i : Fin n} {e : Edit κ C} {es : List (Edit κ C)} (hedits : s.edits i = e :: es)
      (hwriter : s.writer = none) (hreaders : s.readers = ∅) :
      Steps s (.lockEdit i) { s with writer := some i }
  | edit {i : Fin n} {e : Edit κ C} {es : List (Edit κ C)} (hedits : s.edits i = e :: es) (hi : s.writer = some i) :
      Steps s (.edit i) { s with
        list := e.apply s.list
        writer := none
        edits := Function.update s.edits i es
        log := s.log ++ [.edited i e] }

theorem steps_of_step {s s' : State n κ C ρ} {a : Act n κ C ρ} (h : step s a = some s') : Steps s a s' := by
  cases a with
  | start i r =>
    simp only [step] at h
    split at h
    · cases h
      exact .start ‹_› ‹_›
    · cases h
  | ask i es =>
    simp only [step] at h
    split at h
    · obtain ⟨hnew, hs⟩ := Option.ite_none_right_eq_some.1 h
      cases hs
      exact .ask ‹_› ‹_› hnew
    · cases h
  | lock i =>
    simp only [step] at h
    split at h
    · obtain ⟨⟨hwriter, hi⟩, hs⟩ := Option.ite_none_right_eq_some.1 h
      cases hs
      exact .lock ‹_› hwriter hi
    · cases h
  | copy i =>
    simp only [step] at h
    split at h
    · obtain ⟨hi, hs⟩ := Option.ite_none_right_eq_some.1 h
      cases hs
      exact .copy ‹_› hi
    · cases h
  | call i es =>
    simp only [step] at h
    split at h
    · obtain ⟨hnew, hs⟩ := Option.ite_none_right_eq_some.1 h
      cases hs
      exact .call ‹_› ‹_› hnew
    · cases h
  | finish i =>
    simp only [step] at h
    split at h
    · cases h
      exact .finish ‹_› ‹_›
    · cases h
  | lockEdit i =>
    simp only [step] at h
    split at h
    · obtain ⟨⟨hwriter, hreaders⟩, hs⟩ := Option.ite_none_right_eq_some.1 h
      cases hs
      exact .lockEdit ‹_› hwriter hreaders
    · cases h
  | edit i =>
    simp only [step] at h
    split at h
    · obtain ⟨hi, hs⟩ := Option.ite_none_right_eq_some.1 h
      cases hs
      exact .edit ‹_› hi
    · cases h

/-! ## What is called -/

/-- The list that the edits of a log make. -/
def listAfter (log : List (Event n κ C ρ)) : List (κ × C) :=
  log.foldl (fun l ev => match ev with
    | .edited _ e => e.apply l
    | _ => l) []

theorem listAfter_append (log : List (Event n κ C ρ)) (ev : Event n κ C ρ) : listAfter (log ++ [ev]) =
    match ev with
    | .edited _ e => e.apply (listAfter log)
    | _ => listAfter log := by
  simp [listAfter, List.foldl_append]

/-- The list is what the edits made it, copies are of the list as it was then, and each thread calls who stands in
its copies. -/
structure Faithful (s : State n κ C ρ) : Prop where
  list : s.list = listAfter s.log
  copied : ∀ before i r l after, s.log = before ++ .copied i r l :: after → l = listAfter before
  called : ∀ i, callsOf i s.log ++ pending (s.cast i) =
    (copiesOf i s.log).flatMap fun c => c.2.map fun o => (c.1, o)

section
variable {s s' : State n κ C ρ} {a : Act n κ C ρ}

theorem copied_append {log : List (Event n κ C ρ)} {ev : Event n κ C ρ}
    (h : ∀ before i r l after, log = before ++ .copied i r l :: after → l = listAfter before)
    (hev : ∀ i r l, ev = .copied i r l → l = listAfter log) :
    ∀ before i r l after, log ++ [ev] = before ++ .copied i r l :: after → l = listAfter before := by
  intro before i r l after heq
  rcases List.eq_nil_or_concat after with rfl | ⟨after, last, rfl⟩
  · obtain ⟨rfl, hlast⟩ := List.append_inj' heq rfl
    exact hev i r l (List.cons.inj hlast).1
  · rw [List.concat_eq_append, ← List.cons_append, ← List.append_assoc] at heq
    exact h before i r l after (List.append_inj' heq rfl).1

theorem Faithful.step (h : Faithful s) (hs : step s a = some s') : Faithful s' := by
  have hcast {i : Fin n} {x : Option (ρ × Option (List (κ × C)))} (hpending : pending x = pending (s.cast i)) :
      ∀ j, pending (Function.update s.cast i x j) = pending (s.cast j) := by
    intro j
    by_cases hj : j = i
    · rw [hj, Function.update_self, hpending]
    · rw [Function.update_of_ne hj]
  cases steps_of_step hs with
  | start hnone hedits =>
    refine ⟨h.list, h.copied, fun j => ?_⟩
    simp only
    rw [hcast (by rw [hnone]; rfl)]
    exact h.called j
  | ask hnone hedits hnew => exact ⟨h.list, h.copied, h.called⟩
  | lock hlock hwriter hi => exact ⟨h.list, h.copied, h.called⟩
  | @copy i r hlock hi =>
    refine ⟨?_, ?_, fun j => ?_⟩
    · rw [listAfter_append]
      exact h.list
    · refine copied_append h.copied fun i r l hev => ?_
      cases hev
      exact h.list
    · have hcalled := h.called j
      simp only [callsOf, copiesOf, List.flatMap_append, List.flatMap_cons, List.flatMap_nil, List.append_nil]
        at hcalled ⊢
      by_cases hj : j = i
      · subst hj
        rw [Function.update_self, if_pos rfl, ← hcalled, hlock]
        simp [pending]
      · rw [Function.update_of_ne hj, if_neg (Ne.symm hj), hcalled]
        simp
  | @call i es r o rest hcopy hedits hnew =>
    refine ⟨?_, ?_, fun j => ?_⟩
    · rw [listAfter_append]
      exact h.list
    · exact copied_append h.copied fun i r l hev => by cases hev
    · have hcalled := h.called j
      simp only [callsOf, copiesOf, List.flatMap_append, List.flatMap_cons, List.flatMap_nil, List.append_nil]
        at hcalled ⊢
      by_cases hj : j = i
      · subst hj
        rw [Function.update_self, if_pos rfl, ← hcalled, hcopy]
        simp [pending]
      · rw [Function.update_of_ne hj, if_neg (Ne.symm hj), List.append_nil, hcalled]
  | finish hcopy hedits =>
    refine ⟨h.list, h.copied, fun j => ?_⟩
    simp only
    rw [hcast (by rw [hcopy]; rfl)]
    exact h.called j
  | lockEdit hedits hwriter hreaders => exact ⟨h.list, h.copied, h.called⟩
  | @edit i e es hedits hi =>
    refine ⟨?_, ?_, fun j => ?_⟩
    · rw [listAfter_append]
      exact congrArg e.apply h.list
    · exact copied_append h.copied fun i r l hev => by cases hev
    · have hcalled := h.called j
      simp only [callsOf, copiesOf, List.flatMap_append, List.flatMap_cons, List.flatMap_nil, List.append_nil]
        at hcalled ⊢
      exact hcalled

theorem init_faithful : Faithful (init : State n κ C ρ) where
  list := rfl
  copied := fun before i r l after h => by simp [init] at h
  called := fun _ => rfl

/-- **A broadcast calls who was in the list**, in its order, each once. -/
theorem run_faithful {acts : List (Act n κ C ρ)} (h : Lts.run Observers.step init acts = some s) : Faithful s :=
  Lts.run_invariant (fun _ _ _ hf hs => hf.step hs) init_faithful h

end

end

/-! ## Keys and guards -/

/-- Who has the lock can use it, and a key stands in one place: in the list or in an edit to come. -/
structure Sound (s : State n κ C ρ) : Prop where
  fresh : ∀ i r, s.cast i = some (r, none) → s.edits i = []
  reader : ∀ i ∈ s.readers, ∃ r, s.cast i = some (r, none)
  writer : ∀ i, s.writer = some i → s.edits i ≠ []
  keys : (s.list.map Prod.fst).Nodup
  listed : ∀ k ∈ s.list.map Prod.fst, k ∈ s.issued
  asked : ∀ i, ∀ k ∈ addeds (s.edits i), k ∈ s.issued ∧ k ∉ s.list.map Prod.fst
  once : ∀ i, (addeds (s.edits i)).Nodup
  apart : ∀ i j, i ≠ j → ∀ k ∈ addeds (s.edits i), k ∉ addeds (s.edits j)
  waiting : ∀ i r rest, s.cast i = some (r, some rest) → (rest.map Prod.fst).Nodup

section
variable {s s' : State n κ C ρ} {a : Act n κ C ρ} {k : κ}

theorem addeds_cons (e : Edit κ C) (es : List (Edit κ C)) : addeds (e :: es) = e.added ++ addeds es := rfl

/-- New edits for one thread. -/
theorem Sound.asks (h : Sound s) {i : Fin n} {es : List (Edit κ C)} (hnew : s.Fresh es) :
    (∀ j, ∀ k ∈ addeds (Function.update s.edits i es j), k ∈ s.issued ++ addeds es ∧ k ∉ s.list.map Prod.fst) ∧
    (∀ j, (addeds (Function.update s.edits i es j)).Nodup) ∧
    ∀ j j', j ≠ j' → ∀ k ∈ addeds (Function.update s.edits i es j),
      k ∉ addeds (Function.update s.edits i es j') := by
  refine ⟨fun j k hk => ?_, fun j => ?_, fun j j' hne k hk hk' => ?_⟩
  · by_cases hj : j = i
    · rw [hj, Function.update_self] at hk
      exact ⟨List.mem_append.2 (.inr hk), fun hlist => hnew.2 k hk (h.listed k hlist)⟩
    · rw [Function.update_of_ne hj] at hk
      exact ⟨List.mem_append.2 (.inl (h.asked j k hk).1), (h.asked j k hk).2⟩
  · by_cases hj : j = i
    · rw [hj, Function.update_self]
      exact hnew.1
    · rw [Function.update_of_ne hj]
      exact h.once j
  · by_cases hj : j = i
    · have hj' : j' ≠ i := fun heq => hne (hj.trans heq.symm)
      rw [hj, Function.update_self] at hk
      rw [Function.update_of_ne hj'] at hk'
      exact hnew.2 k hk (h.asked j' k hk').1
    · rw [Function.update_of_ne hj] at hk
      by_cases hj' : j' = i
      · rw [hj', Function.update_self] at hk'
        exact hnew.2 k hk' (h.asked j k hk).1
      · rw [Function.update_of_ne hj'] at hk'
        exact h.apart j j' hne k hk hk'

theorem init_sound : Sound (init : State n κ C ρ) where
  fresh := fun _ _ h => by cases h
  reader := fun i hi => absurd hi (Finset.notMem_empty i)
  writer := fun _ h => by cases h
  keys := List.nodup_nil
  listed := fun _ h => absurd h List.not_mem_nil
  asked := fun _ k hk => absurd hk List.not_mem_nil
  once := fun _ => List.nodup_nil
  apart := fun _ _ _ k hk => absurd hk List.not_mem_nil
  waiting := fun _ _ _ h => by cases h

variable [DecidableEq κ]

/-- Keys only come into the list by the edit that adds them. -/
theorem Edit.mem_apply {e : Edit κ C} {l : List (κ × C)} (h : k ∈ (e.apply l).map Prod.fst) :
    k ∈ l.map Prod.fst ∨ k ∈ e.added := by
  cases e with
  | add k' c =>
    rw [Edit.apply, List.map_append, List.mem_append] at h
    exact h
  | drop k' =>
    left
    exact (List.eraseP_sublist.map _).subset h
  | clear => cases h

theorem Edit.apply_nodup {e : Edit κ C} {l : List (κ × C)} (hl : (l.map Prod.fst).Nodup)
    (he : ∀ k ∈ e.added, k ∉ l.map Prod.fst) : ((e.apply l).map Prod.fst).Nodup := by
  cases e with
  | add k' c =>
    rw [Edit.apply, List.map_append]
    refine hl.append (List.nodup_singleton _) fun k hk hk' => ?_
    rw [List.mem_singleton.1 hk'] at hk
    exact he k' (List.mem_singleton.2 rfl) hk
  | drop k' => exact hl.sublist (List.eraseP_sublist.map _)
  | clear => exact List.nodup_nil

theorem Sound.step (h : Sound s) (hs : step s a = some s') : Sound s' := by
  have hissued (es : List (Edit κ C)) : ∀ k ∈ s.list.map Prod.fst, k ∈ s.issued ++ addeds es :=
    fun k hk => List.mem_append.2 (.inl (h.listed k hk))
  cases steps_of_step hs with
  | @start i r hnone hedits =>
    refine { h with fresh := ?_, reader := ?_, waiting := ?_ }
    · intro j r' hj
      by_cases hji : j = i
      · exact hji ▸ hedits
      · simp only [Function.update_of_ne hji] at hj
        exact h.fresh j r' hj
    · intro j hj
      obtain ⟨r', hr'⟩ := h.reader j hj
      have hji : j ≠ i := fun heq => by rw [heq, hnone] at hr'; cases hr'
      exact ⟨r', by simp only [Function.update_of_ne hji]; exact hr'⟩
    · intro j r' rest hj
      by_cases hji : j = i
      · rw [hji] at hj
        simp at hj
      · simp only [Function.update_of_ne hji] at hj
        exact h.waiting j r' rest hj
  | @ask i es hnone hedits hnew =>
    obtain ⟨hasked, honce, hapart⟩ := h.asks (i := i) hnew
    refine { h with fresh := ?_, writer := ?_, listed := hissued es, asked := hasked, once := honce, apart := hapart }
    · intro j r' hj
      have hji : j ≠ i := fun heq => by rw [heq, hnone] at hj; cases hj
      simp only [Function.update_of_ne hji]
      exact h.fresh j r' hj
    · intro j hj
      have hji : j ≠ i := fun heq => h.writer j hj (heq ▸ hedits)
      simp only [Function.update_of_ne hji]
      exact h.writer j hj
  | @lock i r hlock hwriter hi =>
    refine { h with reader := fun j hj => ?_ }
    rcases Finset.mem_insert.1 hj with rfl | hj
    · exact ⟨r, hlock⟩
    · exact h.reader j hj
  | @copy i r hlock hi =>
    refine { h with fresh := ?_, reader := ?_, waiting := ?_ }
    · intro j r' hj
      by_cases hji : j = i
      · rw [hji] at hj
        simp at hj
      · simp only [Function.update_of_ne hji] at hj
        exact h.fresh j r' hj
    · intro j hj
      obtain ⟨hji, hj⟩ := Finset.mem_erase.1 hj
      obtain ⟨r', hr'⟩ := h.reader j hj
      exact ⟨r', by simp only [Function.update_of_ne hji]; exact hr'⟩
    · intro j r' rest hj
      by_cases hji : j = i
      · rw [hji] at hj
        simp only [Function.update_self, Option.some.injEq, Prod.mk.injEq] at hj
        exact hj.2 ▸ h.keys
      · simp only [Function.update_of_ne hji] at hj
        exact h.waiting j r' rest hj
  | @call i es r o rest hcopy hedits hnew =>
    obtain ⟨hasked, honce, hapart⟩ := h.asks (i := i) hnew
    refine ⟨?_, ?_, ?_, h.keys, hissued es, hasked, honce, hapart, ?_⟩
    · intro j r' hj
      by_cases hji : j = i
      · rw [hji] at hj
        simp at hj
      · simp only [Function.update_of_ne hji] at hj ⊢
        exact h.fresh j r' hj
    · intro j hj
      obtain ⟨r', hr'⟩ := h.reader j hj
      have hji : j ≠ i := fun heq => by rw [heq, hcopy] at hr'; cases hr'
      exact ⟨r', by simp only [Function.update_of_ne hji]; exact hr'⟩
    · intro j hj
      have hji : j ≠ i := fun heq => h.writer j hj (heq ▸ hedits)
      simp only [Function.update_of_ne hji]
      exact h.writer j hj
    · intro j r' rest' hj
      by_cases hji : j = i
      · rw [hji] at hj
        simp only [Function.update_self, Option.some.injEq, Prod.mk.injEq] at hj
        have hnodup := h.waiting i r _ hcopy
        rw [List.map_cons, List.nodup_cons] at hnodup
        exact hj.2 ▸ hnodup.2
      · simp only [Function.update_of_ne hji] at hj
        exact h.waiting j r' rest' hj
  | @finish i r hcopy hedits =>
    refine { h with fresh := ?_, reader := ?_, waiting := ?_ }
    · intro j r' hj
      by_cases hji : j = i
      · rw [hji] at hj
        simp at hj
      · simp only [Function.update_of_ne hji] at hj
        exact h.fresh j r' hj
    · intro j hj
      obtain ⟨r', hr'⟩ := h.reader j hj
      have hji : j ≠ i := fun heq => by rw [heq, hcopy] at hr'; cases hr'
      exact ⟨r', by simp only [Function.update_of_ne hji]; exact hr'⟩
    · intro j r' rest hj
      by_cases hji : j = i
      · rw [hji] at hj
        simp at hj
      · simp only [Function.update_of_ne hji] at hj
        exact h.waiting j r' rest hj
  | @lockEdit i e es hedits hwriter hreaders =>
    refine { h with writer := fun j hj => ?_ }
    cases hj
    rw [hedits]
    exact List.cons_ne_nil _ _
  | @edit i e es hedits hi =>
    have hown : ∀ k ∈ addeds es, k ∈ addeds (s.edits i) := by
      intro k hk
      rw [hedits, addeds_cons]
      exact List.mem_append.2 (.inr hk)
    have hadded : ∀ k ∈ e.added, k ∈ addeds (s.edits i) := by
      intro k hk
      rw [hedits, addeds_cons]
      exact List.mem_append.2 (.inl hk)
    have hnodup : (e.added ++ addeds es).Nodup := by
      rw [← addeds_cons, ← hedits]
      exact h.once i
    have hsub : ∀ j, ∀ k ∈ addeds (Function.update s.edits i es j), k ∈ addeds (s.edits j) := by
      intro j k hk
      by_cases hji : j = i
      · rw [hji, Function.update_self] at hk
        exact hji ▸ hown k hk
      · rwa [Function.update_of_ne hji] at hk
    refine ⟨?_, h.reader, fun j hj => (nomatch hj), ?_, ?_, ?_, ?_, ?_, h.waiting⟩
    · intro j r' hj
      have hji : j ≠ i := fun heq => by
        have hempty := h.fresh j r' hj
        rw [heq, hedits] at hempty
        cases hempty
      simp only [Function.update_of_ne hji]
      exact h.fresh j r' hj
    · exact Edit.apply_nodup h.keys fun k hk => (h.asked i k (hadded k hk)).2
    · intro k hk
      rcases Edit.mem_apply hk with hk | hk
      · exact h.listed k hk
      · exact (h.asked i k (hadded k hk)).1
    · intro j k hk
      obtain ⟨hk1, hk2⟩ := h.asked j k (hsub j k hk)
      refine ⟨hk1, fun hlist => ?_⟩
      rcases Edit.mem_apply hlist with hlist | hlist
      · exact hk2 hlist
      · by_cases hji : j = i
        · rw [hji] at hk
          simp only [Function.update_self] at hk
          exact (List.nodup_append.1 hnodup).2.2 k hlist k hk rfl
        · exact h.apart i j (Ne.symm hji) k (hadded k hlist) (hsub j k hk)
    · intro j
      by_cases hji : j = i
      · rw [hji]
        simp only [Function.update_self]
        exact hnodup.of_append_right
      · simp only [Function.update_of_ne hji]
        exact h.once j
    · intro j j' hne k hk hk'
      exact h.apart j j' hne k (hsub j k hk) (hsub j' k hk')

theorem run_sound {acts : List (Act n κ C ρ)} (h : Lts.run Observers.step init acts = some s) : Sound s :=
  Lts.run_invariant (fun _ _ _ hf hs => hf.step hs) init_sound h

end

/-! ## An observer that has left -/

/-- The key was given out, and is no more. -/
structure Gone (k : κ) (s : State n κ C ρ) : Prop where
  issued : k ∈ s.issued
  out : k ∉ s.list.map Prod.fst
  asked : ∀ i, k ∉ addeds (s.edits i)

/-- The calls of one observer by a thread, those still to come included. -/
def heard [DecidableEq κ] (i : Fin n) (k : κ) (s : State n κ C ρ) : List (ρ × κ × C) :=
  (callsOf i s.log ++ pending (s.cast i)).filter fun c => c.2.1 = k

section
variable {s s' : State n κ C ρ} {a : Act n κ C ρ} {k : κ}

theorem Gone.asks (h : Gone k s) {i : Fin n} {es : List (Edit κ C)} (hnew : s.Fresh es) :
    ∀ j, k ∉ addeds (Function.update s.edits i es j) := by
  intro j
  by_cases hj : j = i
  · rw [hj, Function.update_self]
    exact fun hk => hnew.2 k hk h.issued
  · rw [Function.update_of_ne hj]
    exact h.asked j

variable [DecidableEq κ]

theorem Gone.step (h : Gone k s) (hs : step s a = some s') : Gone k s' := by
  cases steps_of_step hs with
  | start | lock | copy | finish | lockEdit => exact ⟨h.issued, h.out, h.asked⟩
  | ask hnone hedits hnew | call hcopy hedits hnew =>
    exact ⟨List.mem_append.2 (.inl h.issued), h.out, h.asks hnew⟩
  | @edit i e es hedits hi =>
    have hown := h.asked i
    rw [hedits, addeds_cons, List.mem_append, not_or] at hown
    refine ⟨h.issued, fun hk => ?_, fun j => ?_⟩
    · rcases Edit.mem_apply hk with hk | hk
      · exact h.out hk
      · exact hown.1 hk
    · by_cases hj : j = i
      · rw [hj]
        simp only [Function.update_self]
        exact hown.2
      · simp only [Function.update_of_ne hj]
        exact h.asked j

/-- No copy brings it back. -/
theorem Gone.heard_step (h : Gone k s) (hs : Observers.step s a = some s') (j : Fin n) :
    heard j k s' = heard j k s := by
  have hcast {i : Fin n} {x : Option (ρ × Option (List (κ × C)))} (hpending : pending x = pending (s.cast i)) :
      pending (Function.update s.cast i x j) = pending (s.cast j) := by
    by_cases hj : j = i
    · rw [hj, Function.update_self, hpending]
    · rw [Function.update_of_ne hj]
  cases steps_of_step hs with
  | start hnone hedits =>
    simp only [heard]
    rw [hcast (by rw [hnone]; rfl)]
  | ask | lock | lockEdit => rfl
  | @copy i r hlock hi =>
    have hlist : (s.list.map fun o => (r, o)).filter (fun c => c.2.1 = k) = [] := by
      rw [List.filter_eq_nil_iff]
      intro c hc
      obtain ⟨o, ho, rfl⟩ := List.mem_map.1 hc
      simp only [decide_eq_true_eq]
      rintro rfl
      exact h.out (List.mem_map.2 ⟨o, ho, rfl⟩)
    by_cases hj : j = i
    · subst hj
      simp [heard, callsOf, hlock, pending] at hlist ⊢
      exact hlist
    · simp [heard, callsOf, Function.update_of_ne hj]
  | @call i es r o rest hcopy hedits hnew =>
    by_cases hj : j = i
    · subst hj
      simp [heard, callsOf, hcopy, pending]
    · simp [heard, callsOf, Function.update_of_ne hj, Ne.symm hj]
  | finish hcopy hedits =>
    simp only [heard]
    rw [hcast (by rw [hcopy]; rfl)]
  | edit hedits hi => simp [heard, callsOf]

/-- A key that a step takes out of the list is gone. -/
theorem Sound.gone (h : Sound s) (hk : k ∈ s.list.map Prod.fst) (hs : Observers.step s a = some s')
    (hout : k ∉ s'.list.map Prod.fst) : Gone k s' := by
  have hasked : ∀ i, k ∉ addeds (s.edits i) := fun i hi => (h.asked i k hi).2 hk
  cases steps_of_step hs with
  | start | ask | lock | copy | call | finish | lockEdit => exact absurd hk hout
  | @edit i e es hedits hi =>
    refine ⟨h.listed k hk, hout, fun j => ?_⟩
    by_cases hj : j = i
    · have hown := hasked i
      rw [hedits, addeds_cons, List.mem_append, not_or] at hown
      rw [hj]
      simp only [Function.update_self]
      exact hown.2
    · simp only [Function.update_of_ne hj]
      exact hasked j

/-- It stands in no copy twice. -/
theorem Sound.pending_le_one (h : Sound s) (i : Fin n) :
    ((pending (s.cast i)).filter fun c => c.2.1 = k).length ≤ 1 := by
  have hcopy : ∀ r rest, s.cast i = some (r, some rest) →
      (((rest.map fun o => (r, o)).filter fun c => c.2.1 = k).length ≤ 1) := by
    intro r rest hcast
    have hnodup := h.waiting i r rest hcast
    have hcount := List.nodup_iff_count_le_one.1 hnodup k
    rw [List.count_eq_countP, List.countP_map] at hcount
    rw [← List.countP_eq_length_filter, List.countP_map]
    exact hcount
  unfold pending
  split
  · exact hcopy _ _ ‹_›
  · exact Nat.zero_le _

theorem step_log (hs : Observers.step s a = some s') : s.log <+: s'.log := by
  cases steps_of_step hs with
  | start | ask | lock | finish | lockEdit => exact List.prefix_rfl
  | copy | call | edit => exact List.prefix_append _ _

theorem run_log {acts : List (Act n κ C ρ)} (h : Lts.run Observers.step s acts = some s') : s.log <+: s'.log :=
  Lts.run_invariant (I := fun s1 => s.log <+: s1.log) (fun _ _ _ hp hs => hp.trans (step_log hs)) List.prefix_rfl h

/-- The calls of one observer by a thread. -/
def callsTo (i : Fin n) (k : κ) (log : List (Event n κ C ρ)) : List (ρ × κ × C) :=
  (callsOf i log).filter fun c => c.2.1 = k

/-- **An observer that has left the list** is called at most once more by each thread, for the broadcast that the
thread was in. -/
theorem run_gone {before more : List (Act n κ C ρ)} {s0 s1 s2 : State n κ C ρ}
    (hbefore : Lts.run Observers.step init before = some s0) (hk : k ∈ s0.list.map Prod.fst)
    (hs : Observers.step s0 a = some s1) (hout : k ∉ s1.list.map Prod.fst)
    (hmore : Lts.run Observers.step s1 more = some s2) (i : Fin n) :
    ∃ late, callsTo i k s2.log = callsTo i k s1.log ++ late ∧ late.length ≤ 1 ∧
      ∀ c ∈ late, c ∈ pending (s1.cast i) := by
  have hsound := run_sound hbefore
  have hheard : heard i k s2 = heard i k s1 := by
    refine (Lts.run_invariant (I := fun s => Gone k s ∧ heard i k s = heard i k s1) ?_
      ⟨hsound.gone hk hs hout, rfl⟩ hmore).2
    intro s act s' hgone hstep
    exact ⟨hgone.1.step hstep, (hgone.1.heard_step hstep i).trans hgone.2⟩
  obtain ⟨since, hlog⟩ := run_log hmore
  have hcalls : callsTo i k s2.log = callsTo i k s1.log ++ callsTo i k since := by
    rw [← hlog, callsTo, callsOf, List.flatMap_append, List.filter_append]
    rfl
  -- what was called since then was pending then
  have hlate : callsTo i k since ++ (pending (s2.cast i)).filter (fun c => c.2.1 = k) =
      (pending (s1.cast i)).filter fun c => c.2.1 = k := by
    have hall : callsTo i k s2.log ++ (pending (s2.cast i)).filter (fun c => c.2.1 = k) =
        callsTo i k s1.log ++ (pending (s1.cast i)).filter fun c => c.2.1 = k := by
      rw [heard, heard, List.filter_append, List.filter_append] at hheard
      exact hheard
    rw [hcalls, List.append_assoc] at hall
    exact List.append_cancel_left hall
  refine ⟨callsTo i k since, hcalls, ?_, fun c hc => ?_⟩
  · have hone := (hsound.step hs).pending_le_one (k := k) i
    rw [← hlate, List.length_append] at hone
    omega
  · have hmem : c ∈ (pending (s1.cast i)).filter fun c => c.2.1 = k := by
      rw [← hlate]
      exact List.mem_append.2 (.inl hc)
    exact (List.mem_filter.1 hmem).1

end

/-! ## No thread waits for ever -/

/-- A step of a thread that has begun something. -/
def Act.own : Act n κ C ρ → Bool
  | .start .. | .ask .. => false
  | _ => true

def State.Idle (s : State n κ C ρ) : Prop := ∀ i, s.cast i = none ∧ s.edits i = []

section
variable {s s' : State n κ C ρ} {a : Act n κ C ρ}

variable [DecidableEq κ]

/-- **Who has the lock** needs no other lock to let it go. -/
theorem Sound.unlocks (h : Sound s) (i : Fin n) :
    (i ∈ s.readers → ∃ s', Observers.step s (.copy i) = some s') ∧
      (s.writer = some i → ∃ s', Observers.step s (.edit i) = some s') := by
  constructor
  · intro hi
    obtain ⟨r, hr⟩ := h.reader i hi
    exact ⟨_, by simp only [Observers.step, hr, hi, if_true]; rfl⟩
  · intro hi
    obtain ⟨e, es, hes⟩ := List.exists_cons_of_ne_nil (h.writer i hi)
    exact ⟨_, by simp only [Observers.step, hes, hi, if_true]; rfl⟩

/-- **No deadlock.** -/
theorem Sound.progress (h : Sound s) (hbusy : ¬ s.Idle) :
    ∃ a s', Act.own a = true ∧ Observers.step s a = some s' := by
  by_cases hwriter : s.writer = none
  · by_cases hreaders : s.readers = ∅
    · -- the lock is free
      obtain ⟨i, hi⟩ := not_forall.1 hbusy
      cases hedits : s.edits i with
      | cons e es =>
        exact ⟨.lockEdit i, _, rfl, by simp only [Observers.step, hedits, hwriter, hreaders, and_self, if_true]; rfl⟩
      | nil =>
        cases hcast : s.cast i with
        | none => exact absurd ⟨hcast, hedits⟩ hi
        | some c =>
          obtain ⟨r, rest⟩ := c
          cases rest with
          | none =>
            have hnot : i ∉ s.readers := hreaders ▸ Finset.notMem_empty i
            refine ⟨.lock i, { s with readers := insert i s.readers }, rfl, ?_⟩
            simp [Observers.step, hcast, hwriter, hnot]
          | some rest =>
            cases rest with
            | nil => exact ⟨.finish i, _, rfl, by simp only [Observers.step, hcast, hedits]; rfl⟩
            | cons o rest =>
              have hnew : s.Fresh [] := ⟨List.nodup_nil, fun k hk => absurd hk List.not_mem_nil⟩
              exact ⟨.call i [], _, rfl, by simp only [Observers.step, hcast, hedits, hnew, if_true]; rfl⟩
    · obtain ⟨i, hi⟩ := Finset.nonempty_iff_ne_empty.2 hreaders
      obtain ⟨s', hs⟩ := (h.unlocks i).1 hi
      exact ⟨.copy i, s', rfl, hs⟩
  · obtain ⟨i, hi⟩ := Option.ne_none_iff_exists'.1 hwriter
    obtain ⟨s', hs⟩ := (h.unlocks i).2 hi
    exact ⟨.edit i, s', rfl, hs⟩

end

/-- One value of a sum over all threads changes. -/
theorem sum_update {α : Type*} (g : α → ℕ) (c : Fin n → α) (i : Fin n) (x : α) :
    ∑ j, g (Function.update c i x j) + g (c i) = ∑ j, g (c j) + g x := by
  rw [← Finset.add_sum_erase _ _ (Finset.mem_univ i), ← Finset.add_sum_erase _ (fun j => g (c j)) (Finset.mem_univ i)]
  have hrest : ∑ j ∈ Finset.univ.erase i, g (Function.update c i x j) = ∑ j ∈ Finset.univ.erase i, g (c j) := by
    refine Finset.sum_congr rfl fun j hj => ?_
    rw [Function.update_of_ne (Finset.ne_of_mem_erase hj)]
  rw [Function.update_self, hrest]
  omega

/-- A broadcast without its copy. -/
def uncopied : Option (ρ × Option (List (κ × C))) → ℕ
  | some (_, none) => 1
  | _ => 0

/-- The calls and the end of a broadcast. -/
def toCall : Option (ρ × Option (List (κ × C))) → ℕ
  | some (_, some rest) => rest.length + 1
  | _ => 0

@[simp] theorem uncopied_none : uncopied (none : Option (ρ × Option (List (κ × C)))) = 0 := rfl

@[simp] theorem uncopied_new (r : ρ) : uncopied (some (r, (none : Option (List (κ × C))))) = 1 := rfl

@[simp] theorem uncopied_copied (r : ρ) (rest : List (κ × C)) : uncopied (some (r, some rest)) = 0 := rfl

@[simp] theorem toCall_none : toCall (none : Option (ρ × Option (List (κ × C)))) = 0 := rfl

@[simp] theorem toCall_copied (r : ρ) (rest : List (κ × C)) : toCall (some (r, some rest)) = rest.length + 1 := rfl

/-- Broadcasts to copy, calls to make, edits to do, and who has not got the lock: a step makes the first of these
smaller that it changes. -/
def measure (s : State n κ C ρ) : ℕ × ℕ × ℕ × ℕ :=
  (∑ i, uncopied (s.cast i), ∑ i, toCall (s.cast i), ∑ i, (s.edits i).length,
    n - s.readers.card + if s.writer = none then 1 else 0)

def Smaller : ℕ × ℕ × ℕ × ℕ → ℕ × ℕ × ℕ × ℕ → Prop :=
  Prod.Lex (· < ·) (Prod.Lex (· < ·) (Prod.Lex (· < ·) (· < ·)))

theorem smaller_wf : WellFounded Smaller :=
  Nat.lt_wfRel.wf.prod_lex (Nat.lt_wfRel.wf.prod_lex (Nat.lt_wfRel.wf.prod_lex Nat.lt_wfRel.wf))

section
variable {s s' : State n κ C ρ} {a : Act n κ C ρ}

theorem Smaller.second {b1 b1' b2 b2' : ℕ} {b3 b3' : ℕ × ℕ} (h1 : b1' = b1) (h2 : b2' < b2) :
    Smaller (b1', b2', b3') (b1, b2, b3) := by
  subst h1
  exact .right _ (.left _ _ h2)

variable [DecidableEq κ]

theorem measure_step (hs : Observers.step s a = some s') (ha : a.own = true) : Smaller (measure s') (measure s) := by
  cases steps_of_step hs with
  | start | ask => cases ha
  | @lock i r hlock hwriter hi =>
    refine .right _ (.right _ (.right _ ?_))
    have hcard := Finset.card_insert_of_notMem hi
    have hle := Finset.card_le_univ (insert i s.readers)
    rw [Fintype.card_fin] at hle
    simp only
    omega
  | @copy i r hlock hi =>
    have hsum := sum_update uncopied s.cast i (some (r, some s.list))
    rw [hlock, uncopied_new, uncopied_copied] at hsum
    refine .left _ _ ?_
    simp only
    omega
  | @call i es r o rest hcopy hedits hnew =>
    have huncopied := sum_update uncopied s.cast i (some (r, some rest))
    have hsum := sum_update toCall s.cast i (some (r, some rest))
    rw [hcopy, uncopied_copied, uncopied_copied] at huncopied
    rw [hcopy, toCall_copied, toCall_copied, List.length_cons] at hsum
    apply Smaller.second
    · simp only
      omega
    · simp only
      omega
  | @finish i r hcopy hedits =>
    have huncopied := sum_update uncopied s.cast i none
    have hsum := sum_update toCall s.cast i none
    rw [hcopy, uncopied_copied, uncopied_none] at huncopied
    rw [hcopy, toCall_copied, toCall_none] at hsum
    apply Smaller.second
    · simp only
      omega
    · simp only
      omega
  | @lockEdit i e es hedits hwriter hreaders =>
    refine .right _ (.right _ (.right _ ?_))
    simp [hwriter]
  | @edit i e es hedits hi =>
    have hsum := sum_update List.length s.edits i es
    rw [hedits, List.length_cons] at hsum
    refine .right _ (.right _ (.left _ _ ?_))
    simp only
    omega

/-- **Whatever is begun ends**, however long the observers' own edits are. -/
theorem no_endless_run (run : ℕ → State n κ C ρ) :
    ¬ ∀ m, ∃ a, Act.own a = true ∧ Observers.step (run m) a = some (run (m + 1)) := by
  intro hrun
  have hwf : WellFounded fun s' s : State n κ C ρ => Smaller (measure s') (measure s) := InvImage.wf measure smaller_wf
  refine (wellFounded_iff_isEmpty_descending_chain.1 hwf).elim ⟨run, fun m => ?_⟩
  obtain ⟨a, ha, hs⟩ := hrun m
  exact measure_step hs ha

end

end

end Observers
