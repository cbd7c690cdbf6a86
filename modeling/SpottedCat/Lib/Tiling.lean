import Mathlib.Tactic.Common

/-!
# Cutting a range into windows

`tiles size start stop` are the consecutive windows of `size` elements over `[start, stop)`, each as
its first and last element; the last one may be shorter. Facts about all windows are inductions along
`tiles_cons`, one window at a time.

* `tiles_partition`: they partition the range;
* `tiles_fit_iff`: where the last of them starts, if a bound on every start is wanted.
-/

def tiles (size start stop : Nat) : List (Nat × Nat) :=
  if 0 < size ∧ start < stop then
    (start, min (start + size) stop - 1) :: tiles size (min (start + size) stop) stop
  else []
termination_by stop - start
decreasing_by omega

section
variable {size start stop : Nat}

theorem tiles_cons (hsize : 0 < size) (h : start < stop) :
    tiles size start stop =
      (start, min (start + size) stop - 1) :: tiles size (min (start + size) stop) stop := by
  rw [tiles, if_pos ⟨hsize, h⟩]

theorem tiles_done (h : stop ≤ start) : tiles size start stop = [] := by
  rw [tiles, if_neg (by omega)]

theorem tiles_ne_nil (hsize : 0 < size) (h : start < stop) : tiles size start stop ≠ [] := by
  rw [tiles_cons hsize h]
  simp

/-- A window lies in the range, and is as long as the rest of the range allows. -/
theorem tiles_bounds {w : Nat × Nat} (h : w ∈ tiles size start stop) :
    start ≤ w.1 ∧ w.1 ≤ w.2 ∧ w.2 < stop ∧ w.2 - w.1 + 1 = min size (stop - w.1) := by
  induction start using tiles.induct size stop with
  | case1 start hlt ih =>
    rw [tiles_cons hlt.1 hlt.2] at h
    rcases List.mem_cons.1 h with rfl | h
    · simp only
      omega
    · have := ih h
      omega
  | case2 start hlt =>
    rw [tiles, if_neg hlt] at h
    cases h

/-- Each window ends before the next begins. -/
theorem tiles_ordered : (tiles size start stop).Pairwise fun v w => v.2 < w.1 := by
  induction start using tiles.induct size stop with
  | case1 start hlt ih =>
    rw [tiles_cons hlt.1 hlt.2, List.pairwise_cons]
    refine ⟨fun w hw => ?_, ih⟩
    have := tiles_bounds hw
    simp only
    omega
  | case2 start hlt =>
    rw [tiles, if_neg hlt]
    exact List.Pairwise.nil

/-- Every element of the range is in a window. -/
theorem tiles_cover (hsize : 0 < size) {x : Nat} (hx : start ≤ x ∧ x < stop) :
    ∃ w ∈ tiles size start stop, w.1 ≤ x ∧ x ≤ w.2 := by
  induction start using tiles.induct size stop with
  | case1 start hlt ih =>
    rw [tiles_cons hlt.1 hlt.2]
    by_cases hfirst : x < min (start + size) stop
    · exact ⟨_, List.mem_cons_self, hx.1, by simp only; omega⟩
    · obtain ⟨w, hw, hin⟩ := ih ⟨by omega, hx.2⟩
      exact ⟨w, List.mem_cons_of_mem _ hw, hin⟩
  | case2 start hlt => omega

/-- Windows in order, each as long as the rest of the range allows, with every element in one of them. -/
structure Partitions (size start stop : Nat) (ws : List (Nat × Nat)) : Prop where
  bounds : ∀ w ∈ ws, start ≤ w.1 ∧ w.1 ≤ w.2 ∧ w.2 < stop ∧ w.2 - w.1 + 1 = min size (stop - w.1)
  ordered : ws.Pairwise fun v w => v.2 < w.1
  cover : ∀ x, start ≤ x → x < stop → ∃ w ∈ ws, w.1 ≤ x ∧ x ≤ w.2

theorem tiles_partition (hsize : 0 < size) (start stop : Nat) :
    Partitions size start stop (tiles size start stop) where
  bounds _ hw := tiles_bounds hw
  ordered := tiles_ordered
  cover _ hstart hstop := tiles_cover hsize ⟨hstart, hstop⟩

/-- The windows start `size` apart, so the last start is known from the number of windows. -/
theorem tiles_fit_iff (hsize : 0 < size) (h : start < stop) (bound : Nat) :
    (∀ w ∈ tiles size start stop, w.1 + size < bound) ↔
      start + (stop - start + size - 1) / size * size < bound := by
  induction start using tiles.induct size stop with
  | case1 start hlt ih =>
    rw [tiles_cons hlt.1 hlt.2, List.forall_mem_cons]
    by_cases hlast : stop ≤ start + size
    · have hone : (stop - start + size - 1) / size = 1 :=
        Nat.div_eq_of_lt_le (by omega) (by omega)
      rw [tiles_done (by omega), hone, Nat.one_mul]
      simp
    · have hmin : min (start + size) stop = start + size := by omega
      rw [hmin] at ih ⊢
      rw [ih (by omega)]
      have hrest : stop - start + size - 1 = (stop - (start + size) + size - 1) + size := by omega
      rw [hrest, Nat.add_div_right _ hsize, Nat.succ_mul]
      have hle : size ≤ (stop - (start + size) + size - 1) / size * size + size := by omega
      omega
  | case2 start hlt => omega

end
