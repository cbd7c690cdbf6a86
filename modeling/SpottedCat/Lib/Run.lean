import Mathlib.Data.List.Basic

/-!
# Runs of a partial step function

`step s a` is the state after action `a`, `none` when `a` is not enabled in `s`. A run is a list
of actions; `Meets` says that every step of a run is taken from a state where its action meets a
condition, and `tally` counts those that do. Six rules carry the inductions of a development: an invariant
preserved by one step is preserved by a run (`run_invariant`), the same when only steps that meet a condition
preserve it (`run_invariant_of_meets`), a potential that steps lower bounds a run (`run_potential`), an
invariant may know how many steps have met a condition (`run_tally`), and a step-wise simulation maps runs to
runs (`run_simulation`), also one that drops actions (`run_filterMap`).
-/

namespace Lts

variable {σ α : Type*}

/-- The state after the actions in order. -/
def run (step : σ → α → Option σ) : σ → List α → Option σ
  | s, [] => some s
  | s, a :: as => (step s a).bind fun s' => run step s' as

/-- The last state of a run, `s` if the run gets stuck. -/
def final (step : σ → α → Option σ) (s : σ) (as : List α) : σ := (run step s as).getD s

/-- Every step of the run of `as` from `s` meets `C`. -/
def Meets (step : σ → α → Option σ) (C : σ → α → Prop) : σ → List α → Prop
  | _, [] => True
  | s, a :: as => C s a ∧ ∀ s', step s a = some s' → Meets step C s' as

/-- How many steps of the run of `as` from `s` meet `p`. -/
def tally (step : σ → α → Option σ) (p : σ → α → Bool) : σ → List α → ℕ
  | _, [] => 0
  | s, a :: as =>
    (if p s a = true then 1 else 0) +
      match step s a with
      | some s' => tally step p s' as
      | none => 0

section
variable {step : σ → α → Option σ}

@[simp] theorem run_nil (s : σ) : run step s [] = some s := rfl

theorem run_cons {s s'' : σ} {a : α} {as : List α} :
    run step s (a :: as) = some s'' ↔ ∃ s', step s a = some s' ∧ run step s' as = some s'' := by
  simp [run, Option.bind_eq_some_iff]

theorem tally_cons {p : σ → α → Bool} {s s' : σ} {a : α} {as : List α} (h : step s a = some s') :
    tally step p s (a :: as) = (if p s a = true then 1 else 0) + tally step p s' as := by
  simp only [tally, h]

theorem run_final {s : σ} {as : List α} (h : (run step s as).isSome) :
    run step s as = some (final step s as) := by
  obtain ⟨s', hs⟩ := Option.isSome_iff_exists.1 h
  rw [final, hs, Option.getD_some]

theorem run_append {s s'' : σ} {as bs : List α} :
    run step s (as ++ bs) = some s'' ↔ ∃ s', run step s as = some s' ∧ run step s' bs = some s'' := by
  induction as generalizing s with
  | nil => simp
  | cons a as ih =>
    simp only [List.cons_append, run_cons, ih]
    constructor
    · rintro ⟨s1, h1, s2, h2, h3⟩; exact ⟨s2, ⟨s1, h1, h2⟩, h3⟩
    · rintro ⟨s2, ⟨s1, h1, h2⟩, h3⟩; exact ⟨s1, h1, s2, h2, h3⟩

theorem run_snoc {s s'' : σ} {as : List α} {a : α} :
    run step s (as ++ [a]) = some s'' ↔ ∃ s', run step s as = some s' ∧ step s' a = some s'' := by
  rw [run_append]
  simp [run_cons]

instance decidableMeets {C : σ → α → Prop} [∀ s a, Decidable (C s a)] :
    ∀ (s : σ) (as : List α), Decidable (Meets step C s as)
  | _, [] => isTrue trivial
  | s, a :: as =>
    match h : step s a with
    | some s' =>
      have : Decidable (Meets step C s' as) := decidableMeets s' as
      decidable_of_iff (C s a ∧ Meets step C s' as)
        ⟨fun ⟨hc, hm⟩ => ⟨hc, fun _ hs => Option.some.inj (h.symm.trans hs) ▸ hm⟩,
          fun ⟨hc, hm⟩ => ⟨hc, hm s' h⟩⟩
    | none =>
      decidable_of_iff (C s a)
        ⟨fun hc => ⟨hc, fun s'' hs => absurd (h.symm.trans hs) (Option.some_ne_none s'').symm⟩, And.left⟩

/-- Actions that each leave `s` in place. -/
theorem run_fixed {s : σ} : ∀ {as : List α}, (∀ a ∈ as, step s a = some s) → run step s as = some s
  | [], _ => rfl
  | a :: _, h =>
    run_cons.2 ⟨s, h a List.mem_cons_self, run_fixed fun b hb => h b (List.mem_cons_of_mem _ hb)⟩

/-- Actions that are always enabled. -/
theorem run_enabled : ∀ {as : List α} {s : σ}, (∀ a ∈ as, ∀ s, ∃ s', step s a = some s') →
    ∃ s', run step s as = some s'
  | [], s, _ => ⟨s, rfl⟩
  | a :: _, s, h => by
    obtain ⟨s1, h1⟩ := h a List.mem_cons_self s
    obtain ⟨s2, h2⟩ := run_enabled (s := s1) fun b hb => h b (List.mem_cons_of_mem _ hb)
    exact ⟨s2, run_cons.2 ⟨s1, h1, h2⟩⟩

/-- A condition on the actions alone. -/
theorem Meets.of_forall {C : σ → α → Prop} :
    ∀ {as : List α} {s : σ}, (∀ a ∈ as, ∀ s, C s a) → Meets step C s as
  | [], _, _ => trivial
  | a :: _, s, h =>
    ⟨h a List.mem_cons_self s, fun _ _ => Meets.of_forall fun b hb => h b (List.mem_cons_of_mem _ hb)⟩

theorem Meets.and {C D : σ → α → Prop} {as : List α} {s : σ} (h : Meets step C s as)
    (h' : Meets step D s as) : Meets step (fun s a => C s a ∧ D s a) s as := by
  induction as generalizing s with
  | nil => trivial
  | cons a as ih => exact ⟨⟨h.1, h'.1⟩, fun s' hs => ih (h.2 s' hs) (h'.2 s' hs)⟩

theorem Meets.mono {C D : σ → α → Prop} (hCD : ∀ s a, C s a → D s a) {as : List α} {s : σ}
    (h : Meets step C s as) : Meets step D s as := by
  induction as generalizing s with
  | nil => trivial
  | cons a as ih => exact ⟨hCD s a h.1, fun s' hs => ih (h.2 s' hs)⟩

/-- A condition that follows from another wherever an invariant of such runs holds. -/
theorem Meets.of_invariant {I : σ → Prop} {C D : σ → α → Prop}
    (hstep : ∀ s a s', I s → C s a → step s a = some s' → I s') (hCD : ∀ s a, I s → C s a → D s a)
    {as : List α} {s : σ} (hi : I s) (h : Meets step C s as) : Meets step D s as := by
  induction as generalizing s with
  | nil => trivial
  | cons a as ih =>
    exact ⟨hCD s a hi h.1, fun s' hs => ih (hstep s a s' hi h.1 hs) (h.2 s' hs)⟩

theorem Meets.left {C : σ → α → Prop} {as bs : List α} {s : σ} (h : Meets step C s (as ++ bs)) :
    Meets step C s as := by
  induction as generalizing s with
  | nil => trivial
  | cons a as ih => exact ⟨h.1, fun s' hs => ih (h.2 s' hs)⟩

theorem Meets.right {C : σ → α → Prop} {as bs : List α} {s s' : σ} (h : Meets step C s (as ++ bs))
    (hrun : run step s as = some s') : Meets step C s' bs := by
  induction as generalizing s with
  | nil => cases hrun; exact h
  | cons a as ih =>
    obtain ⟨s1, h1, h2⟩ := run_cons.1 hrun
    exact ih (h.2 s1 h1) h2

/-- What a condition says of the actions alone. -/
theorem Meets.forall_mem {C : σ → α → Prop} {D : α → Prop} (hD : ∀ s a, C s a → D a) {as : List α} {s s' : σ}
    (hm : Meets step C s as) (h : run step s as = some s') : ∀ a ∈ as, D a := by
  induction as generalizing s with
  | nil => exact fun a ha => nomatch ha
  | cons a as ih =>
    obtain ⟨s1, h1, h2⟩ := run_cons.1 h
    rw [List.forall_mem_cons]
    exact ⟨hD s a hm.1, ih (hm.2 s1 h1) h2⟩

/-- **Conditional invariant.** What every step that meets `C` preserves holds after every run whose
steps all meet `C`. -/
theorem run_invariant_of_meets {I : σ → Prop} {C : σ → α → Prop}
    (hstep : ∀ s a s', I s → C s a → step s a = some s' → I s') :
    ∀ {as : List α} {s s' : σ}, I s → Meets step C s as → run step s as = some s' → I s'
  | [], s, s', hi, _, h => by cases h; exact hi
  | a :: as, s, s', hi, hm, h => by
    obtain ⟨s1, h1, h2⟩ := run_cons.1 h
    exact run_invariant_of_meets hstep (hstep s a s1 hi hm.1 h1) (hm.2 s1 h1) h2

/-- **Invariant.** What every step preserves holds after every run. -/
theorem run_invariant {I : σ → Prop} (hstep : ∀ s a s', I s → step s a = some s' → I s')
    {as : List α} {s s' : σ} (hi : I s) (h : run step s as = some s') : I s' := by
  induction as generalizing s with
  | nil => cases h; exact hi
  | cons a as ih =>
    obtain ⟨s1, h1, h2⟩ := run_cons.1 h
    exact ih (hstep s a s1 hi h1) h2

/-- **Conditional potential.** If every step that meets `C` keeps `I`, and lowers `f` if `p` counts it, a run
has as many of those as `f` has come down by. -/
theorem run_potential_of_meets {I : σ → Prop} {C : σ → α → Prop} {f : σ → ℕ} {p : α → Bool}
    (hstep : ∀ s a s', I s → C s a → step s a = some s' →
      I s' ∧ f s' + (if p a = true then 1 else 0) ≤ f s)
    {as : List α} {s s' : σ} (hi : I s) (hm : Meets step C s as) (h : run step s as = some s') :
    I s' ∧ f s' + as.countP p ≤ f s := by
  induction as generalizing s with
  | nil => cases h; exact ⟨hi, Nat.le_refl _⟩
  | cons a as ih =>
    obtain ⟨s1, h1, h2⟩ := run_cons.1 h
    obtain ⟨hi1, hf1⟩ := hstep s a s1 hi hm.1 h1
    obtain ⟨hi', hf'⟩ := ih hi1 (hm.2 s1 h1) h2
    refine ⟨hi', ?_⟩
    rw [List.countP_cons]
    omega

/-- **Potential.** -/
theorem run_potential {I : σ → Prop} {f : σ → ℕ} {p : α → Bool}
    (hstep : ∀ s a s', I s → step s a = some s' → I s' ∧ f s' + (if p a = true then 1 else 0) ≤ f s)
    {as : List α} {s s' : σ} (hi : I s) (h : run step s as = some s') :
    I s' ∧ f s' + as.countP p ≤ f s :=
  run_potential_of_meets (C := fun _ _ => True) (fun s a s' hi _ => hstep s a s' hi) hi
    (Meets.of_forall fun _ _ _ => trivial) h

/-- **Counting.** An invariant that says how many steps met `p`. -/
theorem run_tally {I : σ → ℕ → Prop} {C : σ → α → Prop} {p : σ → α → Bool}
    (hstep : ∀ s a s' n, I s n → C s a → step s a = some s' → I s' (n + if p s a = true then 1 else 0))
    {as : List α} {s s' : σ} {n : ℕ} (hi : I s n) (hm : Meets step C s as) (h : run step s as = some s') :
    I s' (n + tally step p s as) := by
  induction as generalizing s n with
  | nil => cases h; exact hi
  | cons a as ih =>
    obtain ⟨s1, h1, h2⟩ := run_cons.1 h
    have h' := ih (hstep s a s1 n hi hm.1 h1) (hm.2 s1 h1) h2
    rwa [Nat.add_assoc, ← tally_cons h1] at h'

/-- **Termination.** If the runs of actions in `P` are never stuck before they reach `D`, and cannot
be longer than `n`, one of them reaches it. -/
theorem exists_run {P : α → Prop} {D : σ → Prop} {n : ℕ} {s : σ}
    (hbound : ∀ as s', (∀ a ∈ as, P a) → run step s as = some s' → as.length ≤ n)
    (hnext : ∀ as s', (∀ a ∈ as, P a) → run step s as = some s' → ¬ D s' →
      ∃ a s'', P a ∧ step s' a = some s'') :
    ∃ as s', (∀ a ∈ as, P a) ∧ run step s as = some s' ∧ D s' := by
  by_contra hnever
  -- otherwise there are runs of every length
  have hlong (k : ℕ) : ∃ as s', (∀ a ∈ as, P a) ∧ run step s as = some s' ∧ as.length = k := by
    induction k with
    | zero => exact ⟨[], s, by simp, rfl, rfl⟩
    | succ k ih =>
      obtain ⟨as, s', has, hrun, hlen⟩ := ih
      obtain ⟨a, s'', ha, hstep⟩ := hnext as s' has hrun fun hd => hnever ⟨as, s', has, hrun, hd⟩
      refine ⟨as ++ [a], s'', fun b hb => ?_, run_snoc.2 ⟨s', hrun, hstep⟩, by simp [hlen]⟩
      rcases List.mem_append.1 hb with hb | hb
      · exact has b hb
      · rw [List.mem_singleton.1 hb]
        exact ha
  obtain ⟨as, s', has, hrun, hlen⟩ := hlong (n + 1)
  have := hbound as s' has hrun
  omega

/-- **Simulation.** If each step is matched by a run of the other system on related states, so is
each run. -/
theorem run_simulation {τ β : Type*} {step' : τ → β → Option τ} {R : σ → τ → Prop}
    (hstep : ∀ s a s' t, R s t → step s a = some s' → ∃ bs t', run step' t bs = some t' ∧ R s' t')
    {as : List α} {s s' : σ} {t : τ} (hR : R s t) (h : run step s as = some s') :
    ∃ bs t', run step' t bs = some t' ∧ R s' t' := by
  induction as generalizing s t with
  | nil => cases h; exact ⟨[], t, rfl, hR⟩
  | cons a as ih =>
    obtain ⟨s1, h1, h2⟩ := run_cons.1 h
    obtain ⟨bs1, t1, hb1, hR1⟩ := hstep s a s1 t hR h1
    obtain ⟨bs2, t2, hb2, hR2⟩ := ih hR1 h2
    exact ⟨bs1 ++ bs2, t2, run_append.2 ⟨t1, hb1, hb2⟩, hR2⟩

/-- **Projection.** If `f` drops only actions that the other system need not notice, and maps each of the rest to
one that it takes as well, a run is a run of what `f` leaves of it. -/
theorem run_filterMap {τ β : Type*} {step' : τ → β → Option τ} {f : α → Option β} {R : σ → τ → Prop}
    {as : List α} {s s' : σ} {t : τ}
    (hkeep : ∀ a ∈ as, ∀ b s s' t, f a = some b → R s t → step s a = some s' → ∃ t', step' t b = some t' ∧ R s' t')
    (hdrop : ∀ a ∈ as, ∀ s s' t, f a = none → R s t → step s a = some s' → R s' t)
    (hR : R s t) (h : run step s as = some s') : ∃ t', run step' t (as.filterMap f) = some t' ∧ R s' t' := by
  induction as generalizing s t with
  | nil => cases h; exact ⟨t, rfl, hR⟩
  | cons a as ih =>
    obtain ⟨s1, h1, h2⟩ := run_cons.1 h
    have hkeep' := fun b hb => hkeep b (List.mem_cons_of_mem a hb)
    have hdrop' := fun b hb => hdrop b (List.mem_cons_of_mem a hb)
    cases hf : f a with
    | none =>
      rw [List.filterMap_cons_none hf]
      exact ih hkeep' hdrop' (hdrop a List.mem_cons_self s s1 t hf hR h1) h2
    | some b =>
      obtain ⟨t1, ht1, hR1⟩ := hkeep a List.mem_cons_self b s s1 t hf hR h1
      obtain ⟨t', ht', hR'⟩ := ih hkeep' hdrop' hR1 h2
      rw [List.filterMap_cons_some hf]
      exact ⟨t', run_cons.2 ⟨t1, ht1, ht'⟩, hR'⟩

end

end Lts
