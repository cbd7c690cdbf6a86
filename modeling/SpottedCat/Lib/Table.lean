import Mathlib.Algebra.Order.BigOperators.Group.List
import Mathlib.Algebra.Order.Ring.Nat
import Mathlib.Data.Finmap

/-!
# Finite tables

A hash map whose values all have one type is a `Finmap` over a constant family: two tables are
equal when every lookup is. The lemmas read a lookup through one update, as one `if`.

A list is also a table, of its places: `Places` reads a lookup through the update of one place and
through an element added at the end.
-/

/-- A finite map from `κ` to `ν`. -/
abbrev Table (κ ν : Type*) := Finmap fun _ : κ => ν

namespace Table

variable {κ ν : Type*} [DecidableEq κ]

theorem lookup_insert_ite (t : Table κ ν) (a b : κ) (v : ν) :
    (t.insert a v).lookup b = if b = a then some v else t.lookup b := by
  by_cases h : b = a
  · subst h; simp
  · simp [h, Finmap.lookup_insert_of_ne]

theorem lookup_erase_ite (t : Table κ ν) (a b : κ) :
    (t.erase a).lookup b = if b = a then none else t.lookup b := by
  by_cases h : b = a
  · subst h; simp
  · simp [h, Finmap.lookup_erase_ne]

theorem keys_insert (t : Table κ ν) (a : κ) (v : ν) :
    (t.insert a v).keys = insert a t.keys := by
  ext b
  simp [Finmap.mem_keys]

theorem card_keys_insert_le (t : Table κ ν) (a : κ) (v : ν) (p : κ → Prop) [DecidablePred p] :
    ((t.insert a v).keys.filter p).card ≤ (t.keys.filter p).card + 1 := by
  rw [keys_insert, Finset.filter_insert]
  split
  · exact Finset.card_insert_le _ _
  · omega

theorem card_keys_insert_of_not (t : Table κ ν) (a : κ) (v : ν) (p : κ → Prop) [DecidablePred p]
    (h : ¬ p a) : ((t.insert a v).keys.filter p).card = (t.keys.filter p).card := by
  rw [keys_insert, Finset.filter_insert, if_neg h]

theorem card_keys_insert_new (t : Table κ ν) (a : κ) (v : ν) (p : κ → Prop) [DecidablePred p]
    (h : a ∉ t) : ((t.insert a v).keys.filter p).card = (t.keys.filter p).card + if p a then 1 else 0 := by
  have ha : a ∉ t.keys.filter p := fun hm => h (Finmap.mem_keys.1 (Finset.mem_filter.1 hm).1)
  rw [keys_insert, Finset.filter_insert]
  split
  · exact Finset.card_insert_of_notMem ha
  · rfl

theorem card_keys_erase_le (t : Table κ ν) (a : κ) (p : κ → Prop) [DecidablePred p] :
    ((t.erase a).keys.filter p).card ≤ (t.keys.filter p).card := by
  rw [Finmap.keys_erase]
  exact Finset.card_le_card (Finset.filter_subset_filter _ (Finset.erase_subset _ _))

theorem card_keys_le_erase (t : Table κ ν) (a : κ) (p : κ → Prop) [DecidablePred p] :
    (t.keys.filter p).card ≤ ((t.erase a).keys.filter p).card + 1 := by
  rw [Finmap.keys_erase, Finset.filter_erase]
  have hcard := Finset.pred_card_le_card_erase (s := t.keys.filter p) (a := a)
  omega

theorem card_keys_erase_mem {t : Table κ ν} {a : κ} (p : κ → Prop) [DecidablePred p] (h : a ∈ t) :
    ((t.erase a).keys.filter p).card + (if p a then 1 else 0) = (t.keys.filter p).card := by
  rw [Finmap.keys_erase, Finset.filter_erase]
  split
  · rename_i hp
    exact Finset.card_erase_add_one (Finset.mem_filter.2 ⟨Finmap.mem_keys.2 h, hp⟩)
  · rename_i hp
    rw [Finset.erase_eq_of_notMem fun hm => hp (Finset.mem_filter.1 hm).2]
    rfl

theorem erase_of_notMem {t : Table κ ν} {a : κ} (h : a ∉ t) : t.erase a = t := by
  refine Finmap.ext_lookup fun b => ?_
  rw [lookup_erase_ite]
  split
  · rename_i hb
    rw [hb, Finmap.lookup_eq_none.2 h]
  · rfl

end Table

namespace Places

variable {α : Type*} {l : List α} {i j : Nat} {a b : α}

/-- A lookup after one element was replaced. -/
theorem lookup_set : (l.set i a)[j]? = some b ↔
    (j = i ∧ i < l.length ∧ b = a) ∨ (j ≠ i ∧ l[j]? = some b) := by
  rw [List.getElem?_set]
  by_cases h : i = j
  · subst h
    by_cases hl : i < l.length
    · simp [hl, eq_comm]
    · simp [hl]
  · simp [h, Ne.symm h]

/-- A lookup after an element was added. -/
theorem lookup_push : (l ++ [a])[j]? = some b ↔ l[j]? = some b ∨ (j = l.length ∧ b = a) := by
  rcases lt_trichotomy j l.length with h | h | h
  · rw [List.getElem?_append_left h]
    simp [Nat.ne_of_lt h]
  · subst h
    simp [eq_comm]
  · rw [List.getElem?_append_right h.le]
    have h1 : l[j]? = none := List.getElem?_eq_none h.le
    have h2 : j - l.length ≠ 0 := by omega
    simp [h1, h2, Nat.ne_of_gt h]

/-- A sum after one element was replaced. -/
theorem sum_set (f : α → Nat) (h : l[i]? = some a) :
    ((l.set i b).map f).sum + f a = (l.map f).sum + f b := by
  induction l generalizing i with
  | nil => cases h
  | cons c l ih =>
    cases i with
    | zero =>
      obtain rfl : c = a := Option.some.inj h
      simp only [List.set_cons_zero, List.map_cons, List.sum_cons]
      omega
    | succ i =>
      have hrest := ih (List.getElem?_cons_succ ▸ h)
      simp only [List.set_cons_succ, List.map_cons, List.sum_cons]
      omega

/-- Two places with the same mark are one, if the marks of all places differ. -/
theorem eq_of_nodup_filterMap {β : Type*} {f : α → Option β} (hnodup : (l.filterMap f).Nodup) (hi : l[i]? = some a)
    (hj : l[j]? = some b) {c : β} (ha : f a = some c) (hb : f b = some c) : i = j := by
  obtain ⟨hil, rfl⟩ := List.getElem?_eq_some_iff.1 hi
  obtain ⟨hjl, rfl⟩ := List.getElem?_eq_some_iff.1 hj
  have hpair := List.pairwise_iff_getElem.1 (List.pairwise_filterMap.1 hnodup)
  by_contra hne
  rcases Nat.lt_or_gt_of_ne hne with hlt | hlt
  · exact hpair i j hil hjl hlt c ha c hb rfl
  · exact hpair j i hjl hil hlt c hb c ha rfl

end Places
