import Mathlib.Init

/-!
# Computations that may fail, on a state that is kept either way

`Comp σ ε α` changes a state and ends with a value or with an error; unlike in a transaction, what it
did to the state before an error stays. `Triple P m Q E` says that from every state in `P` it ends with
a value and a state in `Q`, or with an error and a state in `E`. The rules follow the way such programs
are written: one operation after the other (`Triple.bind`), each with its own error.
-/

theorem Except.bind_eq_ok.{u, v} {ε : Type u} {α β : Type v} {x : Except ε α} {f : α → Except ε β} {b : β} :
    x >>= f = .ok b ↔ ∃ a, x = .ok a ∧ f a = .ok b := by
  cases x with
  | ok a => simp [bind, Except.bind]
  | error e => simp [bind, Except.bind]

theorem Except.bind_eq_error.{u, v} {ε : Type u} {α β : Type v} {x : Except ε α} {f : α → Except ε β} {e : ε} :
    x >>= f = .error e ↔ x = .error e ∨ ∃ a, x = .ok a ∧ f a = .error e := by
  cases x with
  | ok a => simp [bind, Except.bind]
  | error e => simp [bind, Except.bind]

/-- A computation on a state `σ` that returns an `α` or fails with an `ε`. -/
def Comp (σ ε α : Type*) := σ → Except ε α × σ

namespace Comp

universe u v w

variable {σ : Type u} {ε : Type w} {α β : Type v}

def pure (a : α) : Comp σ ε α := fun s => (.ok a, s)

def bind (m : Comp σ ε α) (f : α → Comp σ ε β) : Comp σ ε β := fun s =>
  match m s with
  | (.ok a, s') => f a s'
  | (.error e, s') => (.error e, s')

instance : Monad (Comp σ ε) where
  pure := pure
  bind := bind

/-- A result computed without the state. -/
def lift (r : Except ε α) : Comp σ ε α := fun s => (r, s)

def get : Comp σ ε σ := fun s => (.ok s, s)

def modify (f : σ → σ) : Comp σ ε Unit := fun s => (.ok (), f s)

/-- A sequence that succeeds. -/
theorem bind_eq_ok {m : Comp σ ε α} {f : α → Comp σ ε β} {s s' : σ} {b : β} :
    (m >>= f) s = (.ok b, s') ↔ ∃ a s1, m s = (.ok a, s1) ∧ f a s1 = (.ok b, s') := by
  change Comp.bind m f s = _ ↔ _
  unfold Comp.bind
  rcases m s with ⟨e | a, s1⟩
  · simp
  · constructor
    · exact fun h => ⟨a, s1, rfl, h⟩
    · rintro ⟨_, _, heq, h⟩
      cases heq
      exact h

theorem lift_eq_ok {r : Except ε α} {s s' : σ} {a : α} :
    (lift r : Comp σ ε α) s = (.ok a, s') ↔ r = .ok a ∧ s = s' := by
  simp [lift]

end Comp

def Triple {σ ε α : Type*} (P : σ → Prop) (m : Comp σ ε α) (Q : α → σ → Prop) (E : ε → σ → Prop) : Prop :=
  ∀ s, P s → match m s with
    | (.ok a, s') => Q a s'
    | (.error e, s') => E e s'

namespace Triple

universe u v w

variable {σ : Type u} {ε : Type w} {α β : Type v} {P : σ → Prop} {Q : α → σ → Prop} {E : ε → σ → Prop}

theorem pure {a : α} (h : ∀ s, P s → Q a s) : Triple P (Pure.pure a : Comp σ ε α) Q E := h

theorem lift {r : Except ε α}
    (h : ∀ s, P s → match r with | .ok a => Q a s | .error e => E e s) :
    Triple P (Comp.lift r : Comp σ ε α) Q E := by
  intro s hs
  have := h s hs
  cases r <;> exact this

theorem modify {f : σ → σ} {R : Unit → σ → Prop} (h : ∀ s, P s → R () (f s)) :
    Triple P (Comp.modify f : Comp σ ε Unit) R E := h

theorem get {R : σ → σ → Prop} (h : ∀ s, P s → R s s) : Triple P (Comp.get : Comp σ ε σ) R E := h

/-- **Sequencing.** The error postcondition is shared: an error of the first part ends the whole. -/
theorem bind {m : Comp σ ε α} {f : α → Comp σ ε β} {R : β → σ → Prop} (hm : Triple P m Q E)
    (hf : ∀ a, Triple (Q a) (f a) R E) : Triple P (m >>= f) R E := by
  intro s hs
  have h1 := hm s hs
  change match Comp.bind m f s with | (.ok b, s') => R b s' | (.error e, s') => E e s'
  unfold Comp.bind
  rcases hms : m s with ⟨r, s'⟩
  rw [hms] at h1
  cases r with
  | ok a => exact hf a s' h1
  | error e => exact h1

theorem mono {P' : σ → Prop} {Q' : α → σ → Prop} {E' : ε → σ → Prop} {m : Comp σ ε α}
    (h : Triple P m Q E) (hP : ∀ s, P' s → P s) (hQ : ∀ a s, Q a s → Q' a s)
    (hE : ∀ e s, E e s → E' e s) : Triple P' m Q' E' := by
  intro s hs
  have h1 := h s (hP s hs)
  rcases hms : m s with ⟨r, s'⟩
  rw [hms] at h1
  cases r with
  | ok a => exact hQ a s' h1
  | error e => exact hE e s' h1

/-- Two things that hold of the same run. -/
theorem and {Q' : α → σ → Prop} {E' : ε → σ → Prop} {m : Comp σ ε α} (h : Triple P m Q E)
    (h' : Triple P m Q' E') : Triple P m (fun a s => Q a s ∧ Q' a s) (fun e s => E e s ∧ E' e s) := by
  intro s hs
  have h1 := h s hs
  have h2 := h' s hs
  rcases hms : m s with ⟨r, s'⟩
  rw [hms] at h1 h2
  cases r with
  | ok a => exact ⟨h1, h2⟩
  | error e => exact ⟨h1, h2⟩

/-- A part of the precondition that does not speak of the state. -/
theorem assuming {φ : Prop} {m : Comp σ ε α} (h : φ → Triple P m Q E) :
    Triple (fun s => φ ∧ P s) m Q E := fun s hs => h hs.1 s hs.2

/-- A change of the state before the computation. -/
theorem precomp {P' : σ → Prop} {m : Comp σ ε α} {g : σ → σ} (h : Triple P m Q E)
    (hg : ∀ s, P' s → P (g s)) : Triple P' (fun s => m (g s)) Q E := fun s hs => h (g s) (hg s hs)

/-- What the triple says of one run. -/
theorem run {m : Comp σ ε α} (h : Triple P m Q E) {s : σ} (hs : P s) :
    (∃ a, (m s).1 = .ok a ∧ Q a (m s).2) ∨ ∃ e, (m s).1 = .error e ∧ E e (m s).2 := by
  have h1 := h s hs
  rcases hms : m s with ⟨r, s'⟩
  rw [hms] at h1
  cases r with
  | ok a => exact .inl ⟨a, rfl, h1⟩
  | error e => exact .inr ⟨e, rfl, h1⟩

end Triple
