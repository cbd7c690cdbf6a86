import Mathlib.Data.List.Basic
import Mathlib.Data.List.Nodup

/-!
# First come, first served, with free slots per class

A queue of keys, each of a class, and a number of free slots for each class. The keys are taken in
order: one whose class has a free slot is started and takes it, any other is kept. So a full class
holds back its own keys only.

* `started_or_kept`: every key is one or the other;
* `started_filter`: of each class the first keys are started, as many as it has slots;
* `started_class`, `kept_class`: admission of one class is that of its own keys to its own slots;
* `kept_used`: a key is kept only when its class is used up;
* `kept_ahead`: within a class nobody overtakes;
* `kept_add`: admitting in two goes keeps what one go with all the slots keeps;
* `kept_leave`: a key may leave before the admission or after it.
-/

namespace Admission

variable {κ D : Type*} [DecidableEq D]

/-- One slot of class `d` is taken. -/
def take (free : D → Nat) (d : D) : D → Nat := fun d' => if d' = d then free d' - 1 else free d'

/-- One slot of class `d`. -/
def single (d : D) : D → Nat := fun d' => if d' = d then 1 else 0

def started (cls : κ → D) : (D → Nat) → List κ → List κ
  | _, [] => []
  | free, k :: q =>
    if 0 < free (cls k) then k :: started cls (take free (cls k)) q else started cls free q

def kept (cls : κ → D) : (D → Nat) → List κ → List κ
  | _, [] => []
  | free, k :: q =>
    if 0 < free (cls k) then kept cls (take free (cls k)) q else k :: kept cls free q

/-- The slots of class `d` that are taken. -/
def used (cls : κ → D) (free : D → Nat) (q : List κ) (d : D) : Nat :=
  (started cls free q).countP fun k => cls k = d

section
variable {cls : κ → D} {free extra : D → Nat} {q : List κ} {k k' : κ} {d : D}

@[simp] theorem take_self : take free d d = free d - 1 := if_pos rfl

@[simp] theorem single_self : single d d = 1 := if_pos rfl

theorem take_of_ne {d' : D} (h : d' ≠ d) : take free d d' = free d' := if_neg h

theorem single_of_ne {d' : D} (h : d' ≠ d) : single d d' = 0 := if_neg h

theorem take_le (d' : D) : take free d d' ≤ free d' := by
  unfold take
  split <;> omega

/-! ## One queue -/

theorem started_sublist : (started cls free q).Sublist q := by
  induction q generalizing free with
  | nil => exact List.Sublist.slnil
  | cons k q ih =>
    unfold started
    split
    · exact ih.cons_cons k
    · exact ih.cons k

theorem kept_sublist : (kept cls free q).Sublist q := by
  induction q generalizing free with
  | nil => exact List.Sublist.slnil
  | cons k q ih =>
    unfold kept
    split
    · exact ih.cons k
    · exact ih.cons_cons k

theorem started_or_kept (h : k ∈ q) : k ∈ started cls free q ∨ k ∈ kept cls free q := by
  induction q generalizing free with
  | nil => cases h
  | cons k0 q ih =>
    unfold started kept
    by_cases hfree : 0 < free (cls k0)
    · simp only [if_pos hfree]
      rcases List.mem_cons.1 h with rfl | h
      · exact .inl List.mem_cons_self
      · exact (ih h).imp_left (List.mem_cons_of_mem _)
    · simp only [if_neg hfree]
      rcases List.mem_cons.1 h with rfl | h
      · exact .inr List.mem_cons_self
      · exact (ih h).imp_right (List.mem_cons_of_mem _)

theorem not_kept_of_started (hq : q.Nodup) (h : k ∈ started cls free q) : k ∉ kept cls free q := by
  induction q generalizing free with
  | nil => cases h
  | cons k0 q ih =>
    obtain ⟨hk0, hq⟩ := List.nodup_cons.1 hq
    unfold started at h
    unfold kept
    by_cases hfree : 0 < free (cls k0)
    · rw [if_pos hfree] at h ⊢
      rcases List.mem_cons.1 h with rfl | h
      · exact fun hkept => hk0 (kept_sublist.subset hkept)
      · exact ih hq h
    · rw [if_neg hfree] at h ⊢
      intro hkept
      rcases List.mem_cons.1 hkept with rfl | hkept
      · exact hk0 (started_sublist.subset h)
      · exact ih hq h hkept

theorem mem_started_iff (hq : q.Nodup) :
    k ∈ started cls free q ↔ k ∈ q ∧ k ∉ kept cls free q := by
  constructor
  · intro h
    exact ⟨started_sublist.subset h, not_kept_of_started hq h⟩
  · rintro ⟨hk, hkept⟩
    exact (started_or_kept hk).resolve_right hkept

/-- **First come, first served**: of each class the first keys are started, as many as there are slots. -/
theorem started_filter :
    (started cls free q).filter (fun k => cls k = d) = (q.filter fun k => cls k = d).take (free d) := by
  induction q generalizing free with
  | nil => simp [started]
  | cons k q ih =>
    unfold started
    by_cases hfree : 0 < free (cls k)
    · rw [if_pos hfree]
      by_cases hd : cls k = d
      · subst hd
        have hone : free (cls k) = free (cls k) - 1 + 1 := by omega
        rw [List.filter_cons_of_pos (by simp), List.filter_cons_of_pos (by simp), ih, take_self, hone,
          List.take_succ_cons, Nat.add_sub_cancel]
      · rw [List.filter_cons_of_neg (by simpa using hd), List.filter_cons_of_neg (by simpa using hd), ih,
          take_of_ne (Ne.symm hd)]
    · rw [if_neg hfree, ih]
      by_cases hd : cls k = d
      · subst hd
        have hzero : free (cls k) = 0 := by omega
        rw [hzero, List.take_zero, List.take_zero]
      · rw [List.filter_cons_of_neg (by simpa using hd)]

/-- The rest of them is kept. -/
theorem kept_filter :
    (kept cls free q).filter (fun k => cls k = d) = (q.filter fun k => cls k = d).drop (free d) := by
  induction q generalizing free with
  | nil => simp [kept]
  | cons k q ih =>
    unfold kept
    by_cases hfree : 0 < free (cls k)
    · rw [if_pos hfree, ih]
      by_cases hd : cls k = d
      · subst hd
        have hone : free (cls k) = free (cls k) - 1 + 1 := by omega
        rw [List.filter_cons_of_pos (by simp), take_self, hone, List.drop_succ_cons, Nat.add_sub_cancel]
      · rw [List.filter_cons_of_neg (by simpa using hd), take_of_ne (Ne.symm hd)]
    · rw [if_neg hfree]
      by_cases hd : cls k = d
      · subst hd
        have hzero : free (cls k) = 0 := by omega
        rw [List.filter_cons_of_pos (by simp), List.filter_cons_of_pos (by simp), ih, hzero, List.drop_zero,
          List.drop_zero]
      · rw [List.filter_cons_of_neg (by simpa using hd), List.filter_cons_of_neg (by simpa using hd), ih]

/-- **The classes do not see each other**: admission of one class is that of its own keys to its own slots. -/
theorem started_class {free' : D → Nat} (hfree : free d = free' d) :
    (started cls free q).filter (fun k => cls k = d) = started cls free' (q.filter fun k => cls k = d) := by
  have hall : ∀ k ∈ started cls free' (q.filter fun k => cls k = d), decide (cls k = d) = true := by
    intro k hk
    exact (List.mem_filter.1 (started_sublist.subset hk)).2
  rw [started_filter, ← List.filter_eq_self.2 hall, started_filter, List.filter_filter]
  simp [hfree]

theorem kept_class {free' : D → Nat} (hfree : free d = free' d) :
    (kept cls free q).filter (fun k => cls k = d) = kept cls free' (q.filter fun k => cls k = d) := by
  have hall : ∀ k ∈ kept cls free' (q.filter fun k => cls k = d), decide (cls k = d) = true := by
    intro k hk
    exact (List.mem_filter.1 (kept_sublist.subset hk)).2
  rw [kept_filter, ← List.filter_eq_self.2 hall, kept_filter, List.filter_filter]
  simp [hfree]

theorem free_pos_of_started (h : k ∈ started cls free q) : 0 < free (cls k) := by
  induction q generalizing free with
  | nil => cases h
  | cons k0 q ih =>
    unfold started at h
    split at h
    · rename_i hfree
      rcases List.mem_cons.1 h with rfl | h
      · exact hfree
      · exact Nat.lt_of_lt_of_le (ih h) (take_le _)
    · exact ih h

theorem used_cons_pos (h : 0 < free (cls k)) :
    used cls free (k :: q) d =
      used cls (take free (cls k)) q d + if cls k = d then 1 else 0 := by
  unfold used
  rw [started, if_pos h, List.countP_cons]
  simp

theorem used_cons_zero (h : ¬ 0 < free (cls k)) :
    used cls free (k :: q) d = used cls free q d := by
  unfold used
  rw [started, if_neg h]

theorem used_le : used cls free q d ≤ free d := by
  induction q generalizing free with
  | nil => exact Nat.zero_le _
  | cons k q ih =>
    by_cases hfree : 0 < free (cls k)
    · rw [used_cons_pos hfree]
      have hle := @ih (take free (cls k))
      by_cases hd : cls k = d
      · subst hd
        rw [take_self] at hle
        simp only [if_true]
        omega
      · rw [take_of_ne (Ne.symm hd)] at hle
        simpa [hd] using hle
    · rw [used_cons_zero hfree]
      exact ih

/-- **A key is kept only when its class is used up.** -/
theorem kept_used (h : k ∈ kept cls free q) : used cls free q (cls k) = free (cls k) := by
  induction q generalizing free with
  | nil => cases h
  | cons k0 q ih =>
    unfold kept at h
    by_cases hfree : 0 < free (cls k0)
    · rw [if_pos hfree] at h
      rw [used_cons_pos hfree, ih h]
      by_cases hd : cls k0 = cls k
      · rw [hd] at hfree ⊢
        simp only [take_self, if_true]
        omega
      · simp [hd, take_of_ne (Ne.symm hd)]
    · rw [if_neg hfree] at h
      rw [used_cons_zero hfree]
      rcases List.mem_cons.1 h with rfl | h
      · have hle : used cls free q (cls k) ≤ free (cls k) := used_le
        omega
      · exact ih h

theorem kept_full (h : ∀ k ∈ q, free (cls k) = 0) : kept cls free q = q := by
  induction q with
  | nil => rfl
  | cons k q ih =>
    have hk : ¬ 0 < free (cls k) := by
      rw [h k List.mem_cons_self]
      omega
    rw [kept, if_neg hk, ih fun k' hk' => h k' (List.mem_cons_of_mem _ hk')]

/-- **No overtaking.** While the key ahead is kept, so is one of its class behind it, and behind it. -/
theorem kept_ahead (hahead : [k, k'].Sublist q) (hcls : cls k' = cls k) (hq : q.Nodup)
    (hk : k ∈ kept cls free q) : [k, k'].Sublist (kept cls free q) := by
  induction q generalizing free with
  | nil => cases hahead
  | cons k0 q ih =>
    obtain ⟨hk0, hq⟩ := List.nodup_cons.1 hq
    unfold kept at hk ⊢
    cases hahead with
    | cons _ hahead =>
      split at hk
      · rename_i hfree
        rw [if_pos hfree]
        exact ih hahead hq hk
      · rename_i hfree
        rw [if_neg hfree]
        rcases List.mem_cons.1 hk with rfl | hk
        · exact absurd (hahead.subset List.mem_cons_self) hk0
        · exact (ih hahead hq hk).cons _
    | cons_cons _ hahead =>
      have hk' : k' ∈ q := List.singleton_sublist.1 hahead
      split at hk
      · exact absurd (kept_sublist.subset hk) hk0
      · rename_i hfree
        rw [if_neg hfree]
        refine List.Sublist.cons_cons k (List.singleton_sublist.2 ?_)
        -- the class is full, so it stays full for the rest of the queue
        refine (started_or_kept hk').resolve_left fun hs => hfree ?_
        exact hcls ▸ free_pos_of_started hs

/-- The keys that are started keep their order as well. -/
theorem started_ahead (hahead : [k, k'].Sublist q) (hq : q.Nodup) (hk : k ∈ started cls free q)
    (hk' : k' ∈ started cls free q) : [k, k'].Sublist (started cls free q) := by
  induction q generalizing free with
  | nil => cases hahead
  | cons k0 q ih =>
    obtain ⟨hk0, hq⟩ := List.nodup_cons.1 hq
    unfold started at hk hk' ⊢
    split at hk
    · rename_i hfree
      rw [if_pos hfree] at hk' ⊢
      cases hahead with
      | cons _ hahead =>
        have hne : ∀ k1 ∈ q, k1 ≠ k0 := fun k1 hk1 h => hk0 (h ▸ hk1)
        have h1 := (List.mem_cons.1 hk).resolve_left (hne k (hahead.subset List.mem_cons_self))
        have h2 := (List.mem_cons.1 hk').resolve_left (hne k' (hahead.subset (by simp)))
        exact (ih hahead hq h1 h2).cons _
      | cons_cons _ hahead =>
        have hne : k' ≠ k := fun h => hk0 (h ▸ List.singleton_sublist.1 hahead)
        have h2 := (List.mem_cons.1 hk').resolve_left hne
        exact (List.singleton_sublist.2 h2).cons_cons k
    · rename_i hfree
      rw [if_neg hfree] at hk' ⊢
      cases hahead with
      | cons _ hahead => exact ih hahead hq hk hk'
      | cons_cons _ hahead => exact absurd (started_sublist.subset hk) hk0

/-! ## Two goes -/

/-- **Admitting again**, with what is left of the slots and some more: the same as all at once. -/
theorem kept_add :
    kept cls (fun d => free d - used cls free q d + extra d) (kept cls free q) =
      kept cls (fun d => free d + extra d) q := by
  induction q generalizing free extra with
  | nil => rfl
  | cons k q ih =>
    by_cases hfree : 0 < free (cls k)
    · -- started in the first go
      have hsum : 0 < free (cls k) + extra (cls k) := by omega
      have hleft : (fun d => free d - used cls free (k :: q) d + extra d) =
          fun d => take free (cls k) d - used cls (take free (cls k)) q d + extra d := by
        funext d
        rw [used_cons_pos hfree]
        by_cases hd : cls k = d
        · subst hd
          simp only [take_self, if_true]
          omega
        · simp [take_of_ne (Ne.symm hd), hd]
      have hright : take (fun d => free d + extra d) (cls k) =
          fun d => take free (cls k) d + extra d := by
        funext d
        by_cases hd : d = cls k
        · subst hd
          simp only [take_self]
          omega
        · simp only [take_of_ne hd]
      rw [hleft]
      simp only [kept, if_pos hfree, if_pos hsum]
      rw [ih, hright]
    · have hzero : free (cls k) = 0 := by omega
      have hused : used cls free q (cls k) = 0 := by
        have hle : used cls free q (cls k) ≤ free (cls k) := used_le
        omega
      simp only [used_cons_zero hfree]
      by_cases hextra : 0 < extra (cls k)
      · -- started in the second go
        have h1 : 0 < free (cls k) - used cls free q (cls k) + extra (cls k) := by omega
        have h2 : 0 < free (cls k) + extra (cls k) := by omega
        have hleft : take (fun d => free d - used cls free q d + extra d) (cls k) =
            fun d => free d - used cls free q d + take extra (cls k) d := by
          funext d
          by_cases hd : d = cls k
          · subst hd
            simp only [take_self]
            omega
          · simp only [take_of_ne hd]
        have hright : take (fun d => free d + extra d) (cls k) =
            fun d => free d + take extra (cls k) d := by
          funext d
          by_cases hd : d = cls k
          · subst hd
            simp only [take_self]
            omega
          · simp only [take_of_ne hd]
        simp only [kept, if_neg hfree, if_pos h1, if_pos h2]
        rw [hleft, hright, ih]
      · have h1 : ¬ 0 < free (cls k) - used cls free q (cls k) + extra (cls k) := by omega
        have h2 : ¬ 0 < free (cls k) + extra (cls k) := by omega
        simp only [kept, if_neg hfree, if_neg h1, if_neg h2]
        rw [ih]

/-- What is left of the slots admits nobody who was kept. -/
theorem kept_again : kept cls (fun d => free d - used cls free q d) (kept cls free q) =
    kept cls free q := by
  refine kept_full fun k hk => ?_
  rw [kept_used hk, Nat.sub_self]

variable [DecidableEq κ]

/-- The keys that are kept, in the order of the queue. -/
theorem kept_eq_filter (hq : q.Nodup) : kept cls free q = q.filter fun k => k ∉ started cls free q := by
  induction q generalizing free with
  | nil => rfl
  | cons k q ih =>
    obtain ⟨hk, hq⟩ := List.nodup_cons.1 hq
    unfold started kept
    by_cases hfree : 0 < free (cls k)
    · rw [if_pos hfree, if_pos hfree, List.filter_cons_of_neg (by simp), ih hq]
      refine List.filter_congr fun k' hk' => ?_
      have hne : k' ≠ k := fun he => hk (he ▸ hk')
      simp [hne]
    · rw [if_neg hfree, if_neg hfree, List.filter_cons_of_pos, ih hq]
      have hnot : k ∉ started cls free q := fun hs => hk (started_sublist.subset hs)
      simpa using hnot

theorem filter_ne_of_not_mem (h : k ∉ q) : (q.filter fun k' => k' ≠ k) = q := by
  rw [List.filter_eq_self]
  intro k' hk'
  have hne : k' ≠ k := fun he => h (he ▸ hk')
  simpa using hne

/-- **A started key that leaves** gives its slot to the next in line. -/
theorem kept_filter_started (hq : q.Nodup) (h : k ∈ started cls free q) :
    kept cls free (q.filter fun k' => k' ≠ k) =
      kept cls (fun d => free d + single (cls k) d) q := by
  induction q generalizing free with
  | nil => cases h
  | cons k0 q ih =>
    obtain ⟨hk0, hq⟩ := List.nodup_cons.1 hq
    by_cases hk : k0 = k
    · subst hk
      have hpos : 0 < free (cls k0) + single (cls k0) (cls k0) := by simp
      have hback : take (fun d => free d + single (cls k0) d) (cls k0) = free := by
        funext d
        by_cases hd : d = cls k0
        · subst hd
          simp
        · simp [take_of_ne hd, single_of_ne hd]
      have hdrop : ((k0 :: q).filter fun k' => k' ≠ k0) = q := by
        rw [List.filter_cons_of_neg (by simp), filter_ne_of_not_mem hk0]
      rw [hdrop, kept, if_pos hpos, hback]
    · have hcons : ((k0 :: q).filter fun k' => k' ≠ k) = k0 :: q.filter fun k' => k' ≠ k :=
        List.filter_cons_of_pos (by simpa using hk)
      rw [hcons]
      unfold started at h
      by_cases hfree : 0 < free (cls k0)
      · rw [if_pos hfree] at h
        have h := (List.mem_cons.1 h).resolve_left (Ne.symm hk)
        have hsum : 0 < free (cls k0) + single (cls k) (cls k0) := by omega
        have hright : take (fun d => free d + single (cls k) d) (cls k0) =
            fun d => take free (cls k0) d + single (cls k) d := by
          funext d
          by_cases hd : d = cls k0
          · subst hd
            simp only [take_self]
            omega
          · simp only [take_of_ne hd]
        simp only [kept, if_pos hfree, if_pos hsum]
        rw [ih hq h, hright]
      · rw [if_neg hfree] at h
        -- the class of `k` had a slot, so `k0` is of another one
        have hne : cls k0 ≠ cls k := fun he => hfree (he ▸ free_pos_of_started h)
        have hsum : ¬ 0 < free (cls k0) + single (cls k) (cls k0) := by
          rw [single_of_ne hne]
          omega
        simp only [kept, if_neg hfree, if_neg hsum]
        rw [ih hq h]

/-- **A kept key that leaves** changes nothing for the others. -/
theorem kept_filter_kept (hq : q.Nodup) (h : k ∈ kept cls free q) :
    kept cls free (q.filter fun k' => k' ≠ k) = (kept cls free q).filter fun k' => k' ≠ k := by
  induction q generalizing free with
  | nil => cases h
  | cons k0 q ih =>
    obtain ⟨hk0, hq⟩ := List.nodup_cons.1 hq
    unfold kept at h
    by_cases hk : k0 = k
    · subst hk
      have hfree : ¬ 0 < free (cls k0) := by
        intro hfree
        rw [if_pos hfree] at h
        exact hk0 (kept_sublist.subset h)
      have hkept : k0 ∉ kept cls free q := fun hm => hk0 (kept_sublist.subset hm)
      rw [List.filter_cons_of_neg (by simp), filter_ne_of_not_mem hk0, kept, if_neg hfree,
        List.filter_cons_of_neg (by simp), filter_ne_of_not_mem hkept]
    · rw [List.filter_cons_of_pos (by simpa using hk)]
      by_cases hfree : 0 < free (cls k0)
      · rw [if_pos hfree] at h
        simp only [kept, if_pos hfree]
        exact ih hq h
      · rw [if_neg hfree] at h
        have h := (List.mem_cons.1 h).resolve_left (Ne.symm hk)
        simp only [kept, if_neg hfree]
        rw [List.filter_cons_of_pos (by simpa using hk), ih hq h]

/-- **A key that leaves after the others were admitted**, with the slot it was given, leaves what admitting
without it keeps. -/
theorem kept_leave [Decidable (k ∈ started cls free q)] (hq : q.Nodup) :
    kept cls (fun d => free d - used cls free q d +
        if k ∈ started cls free q then single (cls k) d else 0)
      ((kept cls free q).filter fun k' => k' ≠ k) = kept cls free (q.filter fun k' => k' ≠ k) := by
  by_cases hs : k ∈ started cls free q
  · -- its slot goes to the next in line in both orders
    have hk : k ∉ kept cls free q := not_kept_of_started hq hs
    simp only [hs, if_true]
    rw [filter_ne_of_not_mem hk, kept_add, kept_filter_started hq hs]
  · simp only [hs, if_false, Nat.add_zero]
    by_cases hk : k ∈ kept cls free q
    · have hfull : ∀ k' ∈ (kept cls free q).filter fun k' => k' ≠ k,
          free (cls k') - used cls free q (cls k') = 0 := by
        intro k' hk'
        rw [kept_used (List.mem_filter.1 hk').1, Nat.sub_self]
      rw [kept_full hfull, kept_filter_kept hq hk]
    · have hgone : k ∉ q := fun hm => (started_or_kept hm).elim hs hk
      rw [filter_ne_of_not_mem hk, filter_ne_of_not_mem hgone, kept_again]

end

end Admission
