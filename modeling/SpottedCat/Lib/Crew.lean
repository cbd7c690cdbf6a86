import Mathlib.Data.Finset.Basic
import Mathlib.Data.List.Flatten
import SpottedCat.Lib.Run
import SpottedCat.Lib.Table

/-!
# A leader whose batches of effects are interleaved with the members' steps

A leader acts on its own state and answers each action with a list of effects, which put tokens out or let members
join. The members are independent: each has its own state and its own token, and sees of all the rest only whether
its token is out. In `Crew.step` the effects of an action happen at once. In `Crew.busyStep` they happen one by
one, and the members move on in between, each with the tokens that are out by then.

`Crew.refines`: if the leader cannot tell whether a member has moved before or after it acted, and no token is put
out after a member has joined (`Crew.Lawful`), the second way can do nothing that the first cannot: once the
remaining effects have happened, some run of the first has come to the same leader, members and tokens, and has
logged the same, though perhaps in another order.

The proof lets the first way lag behind: a member whose token is not out yet moves there as well, and commutes with
the leader's action; the steps of the others are kept (`Behind.walks`) until the effects have all happened.
-/

structure Crew (γ μ ι ε κ η α : Type) where
  token : μ → κ
  /-- A member moves on, knowing whether its token is out. -/
  move : Bool → μ → ι → Option (μ × List ε)
  /-- The leader acts: its next state, the members without what it took from them, and its effects. -/
  lead : γ → List μ → α → Option (γ × List μ × List η)
  puts : η → Option κ
  joins : η → Option μ

namespace Crew

variable {γ μ ι ε κ η α : Type}

structure Lawful (c : Crew γ μ ι ε κ η α) : Prop where
  token_move : ∀ {b m x m' said}, c.move b m x = some (m', said) → c.token m' = c.token m
  /-- What the leader takes from a member, it could as well take after the member's step. -/
  lead_move : ∀ {g ms a g' ms' es i b n x n' said}, c.lead g ms a = some (g', ms', es) → ms'[i]? = some n →
    c.move b n x = some (n', said) → ∃ m m', ms[i]? = some m ∧ c.token m = c.token n ∧
      c.move b m x = some (m', said) ∧ c.lead g (ms.set i m') a = some (g', ms'.set i n', es)
  /-- No token is put out after a member has joined. -/
  ordered : ∀ {g ms a g' ms' es}, c.lead g ms a = some (g', ms', es) →
    es.Pairwise fun e e' => c.joins e = none ∨ c.puts e' = none

structure State (γ μ ε κ : Type) where
  leader : γ
  members : List μ
  out : Finset κ
  log : List ε

inductive Act (ι α : Type) where
  | lead (a : α)
  | move (i : Nat) (x : ι)

/-- The leader may still have effects to come. -/
structure Busy (γ μ ε κ η : Type) where
  state : State γ μ ε κ
  pending : List η

inductive BusyAct (ι α : Type) where
  | lead (a : α)
  | effect
  | move (i : Nat) (x : ι)

section
variable [DecidableEq κ] (c : Crew γ μ ι ε κ η α)

def absorb (s : State γ μ ε κ) (es : List η) : State γ μ ε κ :=
  { s with
    members := s.members ++ es.filterMap c.joins
    out := s.out ∪ (es.filterMap c.puts).toFinset }

def moved (s : State γ μ ε κ) (i : Nat) (x : ι) : Option (State γ μ ε κ) :=
  s.members[i]?.bind fun m =>
    (c.move (decide (c.token m ∈ s.out)) m x).map fun (m', said) =>
      { s with members := s.members.set i m', log := s.log ++ said }

def step (s : State γ μ ε κ) : Act ι α → Option (State γ μ ε κ)
  | .lead a =>
    (c.lead s.leader s.members a).map fun (g, ms, es) => c.absorb { s with leader := g, members := ms } es
  | .move i x => c.moved s i x

def busyStep (b : Busy γ μ ε κ η) : BusyAct ι α → Option (Busy γ μ ε κ η)
  | .lead a =>
    match b.pending with
    | [] =>
      (c.lead b.state.leader b.state.members a).map fun (g, ms, es) =>
        ⟨{ b.state with leader := g, members := ms }, es⟩
    | _ :: _ => none
  | .effect =>
    match b.pending with
    | e :: es => some ⟨c.absorb b.state [e], es⟩
    | [] => none
  | .move i x => (c.moved b.state i x).map fun s => { b with state := s }

end

/-- All but the order of the log. -/
structure Alike (s t : State γ μ ε κ) : Prop where
  leader : s.leader = t.leader
  members : s.members = t.members
  out : s.out = t.out
  log : s.log.Perm t.log

/-- The own steps of one member. -/
inductive Walk (c : Crew γ μ ι ε κ η α) (b : Bool) (m0 : μ) : μ → List ε → Prop
  | refl : Walk c b m0 m0 []
  | snoc {m m' : μ} {said said' : List ε} {x : ι} (walk : Walk c b m0 m said)
      (move : c.move b m x = some (m', said')) : Walk c b m0 m' (said ++ said')

theorem Walk.token {c : Crew γ μ ι ε κ η α} (h : c.Lawful) {b : Bool} {m0 m : μ} {said : List ε}
    (hw : c.Walk b m0 m said) : c.token m = c.token m0 := by
  induction hw with
  | refl => rfl
  | snoc _ hmove ih => rw [h.token_move hmove, ih]

section
variable [DecidableEq κ] {c : Crew γ μ ι ε κ η α} {s s' t : State γ μ ε κ} {i : Nat} {x : ι}

theorem busyStep_lead {b : Busy γ μ ε κ η} {a : α} {g : γ} {ms : List μ} {es : List η} (hpending : b.pending = [])
    (hlead : c.lead b.state.leader b.state.members a = some (g, ms, es)) :
    c.busyStep b (.lead a) = some ⟨{ b.state with leader := g, members := ms }, es⟩ := by
  simp only [busyStep, hpending, hlead, Option.map_some]

theorem moved_eq_some : c.moved s i x = some s' ↔ ∃ m m' said, s.members[i]? = some m ∧
    c.move (decide (c.token m ∈ s.out)) m x = some (m', said) ∧
    s' = { s with members := s.members.set i m', log := s.log ++ said } := by
  simp only [moved, Option.bind_eq_some_iff, Option.map_eq_some_iff, Prod.exists]
  constructor
  · rintro ⟨m, hm, m', said, hmove, rfl⟩
    exact ⟨m, m', said, hm, hmove, rfl⟩
  · rintro ⟨m, m', said, hm, hmove, rfl⟩
    exact ⟨m, hm, m', said, hmove, rfl⟩

theorem Alike.moved (h : Alike s t) (hs : c.moved s i x = some s') : ∃ t', c.moved t i x = some t' ∧ Alike s' t' := by
  obtain ⟨m, m', said, hm, hmove, rfl⟩ := moved_eq_some.1 hs
  rw [h.members] at hm
  rw [h.out] at hmove
  refine ⟨_, moved_eq_some.2 ⟨m, m', said, hm, hmove, rfl⟩, h.leader, ?_, h.out, h.log.append_right said⟩
  simp only [h.members]

/-! ## Catching up -/

/-- One member repeats its steps. -/
theorem Walk.replay (h : c.Lawful) {m0 m : μ} {said : List ε} (hi : s.members[i]? = some m0)
    (hw : c.Walk (decide (c.token m0 ∈ s.out)) m0 m said) : ∃ acts, Lts.run c.step s acts =
      some { s with members := s.members.set i m, log := s.log ++ said } := by
  induction hw with
  | refl =>
    have hself : s.members.set i m0 = s.members := by
      obtain ⟨hlt, rfl⟩ := List.getElem?_eq_some_iff.1 hi
      exact List.set_getElem_self hlt
    refine ⟨[], ?_⟩
    rw [Lts.run_nil, List.append_nil, hself]
  | @snoc m1 m2 said1 said2 x hw hmove ih =>
    obtain ⟨acts, hrun⟩ := ih
    have hlen : i < s.members.length := (List.getElem?_eq_some_iff.1 hi).1
    have hi1 : (s.members.set i m1)[i]? = some m1 := Places.lookup_set.2 (.inl ⟨rfl, hlen, rfl⟩)
    have hnext : c.step { s with members := s.members.set i m1, log := s.log ++ said1 } (.move i x) =
        some { s with members := s.members.set i m2, log := s.log ++ (said1 ++ said2) } := by
      refine moved_eq_some.2 ⟨m1, m2, said2, hi1, ?_, ?_⟩
      · rw [hw.token h]
        exact hmove
      · rw [List.set_set, List.append_assoc]
    exact ⟨acts ++ [.move i x], Lts.run_snoc.2 ⟨_, hrun, hnext⟩⟩

/-- The first `k` members repeat theirs. -/
theorem replay (h : c.Lawful) {targets : List μ} {said : Nat → List ε} (hlen : targets.length = s.members.length)
    (hwalks : ∀ (i : Nat) m0 m, s.members[i]? = some m0 → targets[i]? = some m →
      c.Walk (decide (c.token m0 ∈ s.out)) m0 m (said i)) (k : Nat) (hk : k ≤ targets.length) :
    ∃ acts ms, Lts.run c.step s acts = some { s with members := ms, log := s.log ++ (List.range k).flatMap said } ∧
      ∀ j : Nat, ms[j]? = if j < k then targets[j]? else s.members[j]? := by
  induction k with
  | zero =>
    refine ⟨[], s.members, ?_, fun j => by simp⟩
    simp
  | succ k ih =>
    obtain ⟨acts, ms, hrun, hms⟩ := ih (Nat.le_of_succ_le hk)
    obtain ⟨m, hm⟩ : ∃ m, targets[k]? = some m := ⟨_, List.getElem?_eq_getElem hk⟩
    obtain ⟨m0, hm0⟩ : ∃ m0, s.members[k]? = some m0 := ⟨_, List.getElem?_eq_getElem (hlen ▸ hk)⟩
    have hmsk : ms[k]? = some m0 := by
      rw [hms, if_neg (Nat.lt_irrefl k), hm0]
    obtain ⟨acts', hrun'⟩ := Walk.replay (s := ⟨s.leader, ms, s.out, s.log ++ (List.range k).flatMap said⟩) h hmsk
      (hwalks k m0 m hm0 hm)
    refine ⟨acts ++ acts', ms.set k m, Lts.run_append.2 ⟨_, hrun, ?_⟩, fun j => ?_⟩
    · rw [hrun', List.range_succ, List.flatMap_append, List.flatMap_singleton, List.append_assoc]
    · rw [List.getElem?_set]
      by_cases hj : k = j
      · subst hj
        have hklen : k < ms.length := (List.getElem?_eq_some_iff.1 hmsk).1
        rw [if_pos rfl, if_pos hklen, if_pos (Nat.lt_succ_self k), hm]
      · rw [if_neg hj, hms]
        have hiff : j < k ↔ j < k + 1 := by omega
        simp only [hiff]

/-! ## Falling behind -/

/-- `t` has not acted yet. Of the effects of `a`, `done` have happened to `b`, and `said i` is what member `i` has said
since without `t`. -/
structure Behind (c : Crew γ μ ι ε κ η α) (t : State γ μ ε κ) (a : α) (b : Busy γ μ ε κ η) (ms : List μ) (done : List η)
    (said : Nat → List ε) : Prop where
  lead : c.lead t.leader t.members a = some (b.state.leader, ms, done ++ b.pending)
  out : b.state.out = t.out ∪ (done.filterMap c.puts).toFinset
  length : b.state.members.length = (ms ++ done.filterMap c.joins).length
  /-- A member has kept to itself what it did with the tokens that are out in the end. -/
  walks : ∀ (i : Nat) m m', (ms ++ done.filterMap c.joins)[i]? = some m → b.state.members[i]? = some m' →
    c.Walk (decide (c.token m ∈ t.out ∪ ((done ++ b.pending).filterMap c.puts).toFinset)) m m' (said i)
  /-- The rest was done by `t` as well. -/
  still : ∀ (i : Nat) m, i < ms.length → b.state.members[i]? = some m → c.token m ∉ b.state.out →
    ms[i]? = some m ∧ said i = []
  quiet : ∀ i, b.state.members.length ≤ i → said i = []
  log : b.state.log.Perm (t.log ++ (List.range b.state.members.length).flatMap said)

/-- One says something more. -/
theorem flatMap_update_perm (said : Nat → List ε) (more : List ε) {n i : Nat} (h : i < n) :
    ((List.range n).flatMap (Function.update said i (said i ++ more))).Perm ((List.range n).flatMap said ++ more) := by
  induction n with
  | zero => exact absurd h (Nat.not_lt_zero i)
  | succ n ih =>
    rw [List.range_succ, List.flatMap_append, List.flatMap_append, List.flatMap_singleton, List.flatMap_singleton]
    by_cases hi : i = n
    · subst hi
      have hsame : (List.range i).flatMap (Function.update said i (said i ++ more)) = (List.range i).flatMap said := by
        refine List.flatMap_congr fun j hj => ?_
        have hne : j ≠ i := by
          have := List.mem_range.1 hj
          omega
        exact Function.update_of_ne hne _ _
      rw [hsame, Function.update_self, List.append_assoc]
    · have hne : n ≠ i := fun he => hi he.symm
      rw [Function.update_of_ne hne, List.append_assoc]
      refine ((ih (by omega)).append_right _).trans ?_
      rw [List.append_assoc]
      exact List.perm_append_comm.append_left _

/-- Who joins has not said anything. -/
theorem flatMap_range_add {said : Nat → List ε} {n : Nat} (hquiet : ∀ i, n ≤ i → said i = []) (k : Nat) :
    (List.range (n + k)).flatMap said = (List.range n).flatMap said := by
  induction k with
  | zero => rfl
  | succ k ih =>
    rw [← Nat.add_assoc, List.range_succ, List.flatMap_append, ih, List.flatMap_singleton,
      hquiet _ (Nat.le_add_right n k), List.append_nil]

variable {a : α} {b b' : Busy γ μ ε κ η} {ms : List μ} {done : List η} {said : Nat → List ε}

/-- The leader acts. -/
theorem Behind.start (halike : Alike b.state t) {g : γ} {es : List η}
    (hlead : c.lead b.state.leader b.state.members a = some (g, ms, es)) :
    c.Behind t a ⟨{ b.state with leader := g, members := ms }, es⟩ ms [] fun _ => [] where
  lead := by
    rw [← halike.leader, ← halike.members, hlead]
    rfl
  out := by simp [halike.out]
  length := by simp
  walks := by
    intro i m m' hm hm'
    have hm1 : ms[i]? = some m := by simpa using hm
    rw [hm1] at hm'
    cases hm'
    exact .refl
  still := fun i m _ hm _ => ⟨hm, rfl⟩
  quiet := fun _ _ => rfl
  log := by
    have hnone : (List.range ms.length).flatMap (fun _ => ([] : List ε)) = [] :=
      List.flatMap_eq_nil_iff.2 fun _ _ => rfl
    rw [hnone, List.append_nil]
    exact halike.log

/-- One effect happens. -/
theorem Behind.effect {e : η} {es : List η} (h : c.Behind t a b ms done said) (hpending : b.pending = e :: es) :
    c.Behind t a ⟨c.absorb b.state [e], es⟩ ms (done ++ [e]) said := by
  have hall : done ++ [e] ++ es = done ++ b.pending := by rw [hpending, List.append_assoc, List.singleton_append]
  have hlen : (c.absorb b.state [e]).members.length = (ms ++ (done ++ [e]).filterMap c.joins).length := by
    rw [List.filterMap_append, ← List.append_assoc, List.length_append, ← h.length, ← List.length_append]
    rfl
  constructor
  · rw [hall]
    exact h.lead
  · rw [List.filterMap_append, List.toFinset_append, ← Finset.union_assoc, ← h.out]
    rfl
  · exact hlen
  · intro i m m' hm hm'
    rw [hall]
    rw [List.filterMap_append, ← List.append_assoc] at hm
    simp only [absorb] at hm'
    by_cases hi : i < b.state.members.length
    · rw [List.getElem?_append_left hi] at hm'
      rw [List.getElem?_append_left (h.length ▸ hi)] at hm
      exact h.walks i m m' hm hm'
    · have hi' : b.state.members.length ≤ i := Nat.le_of_not_lt hi
      rw [List.getElem?_append_right hi'] at hm'
      rw [List.getElem?_append_right (h.length ▸ hi'), ← h.length, hm'] at hm
      cases hm
      rw [h.quiet i hi']
      exact .refl
  · intro i m hi hm hout
    have hmem : i < b.state.members.length := by
      rw [h.length, List.length_append]
      omega
    simp only [absorb, List.getElem?_append_left hmem] at hm
    exact h.still i m hi hm fun hin => hout (Finset.mem_union_left _ hin)
  · intro i hi
    refine h.quiet i (le_trans ?_ hi)
    simp [absorb]
  · have hrange : (List.range (c.absorb b.state [e]).members.length).flatMap said =
        (List.range b.state.members.length).flatMap said := by
      simp only [absorb, List.length_append]
      exact flatMap_range_add h.quiet _
    rw [hrange]
    exact h.log

/-- A member moves on whose token may be seen already, and keeps it to itself. -/
theorem Behind.keep (h : c.Lawful) (hb : c.Behind t a b ms done said) {m m' : μ} {more : List ε}
    (hm : b.state.members[i]? = some m) (hmove : c.move (decide (c.token m ∈ b.state.out)) m x = some (m', more))
    (hseen : i < ms.length → c.token m ∈ b.state.out) :
    c.Behind t a { b with state := { b.state with members := b.state.members.set i m', log := b.state.log ++ more } }
      ms done (Function.update said i (said i ++ more)) := by
  obtain ⟨hlt, _⟩ := List.getElem?_eq_some_iff.1 hm
  have hall : b.state.out ⊆ t.out ∪ ((done ++ b.pending).filterMap c.puts).toFinset := by
    rw [hb.out, List.filterMap_append, List.toFinset_append, ← Finset.union_assoc]
    exact Finset.subset_union_left
  -- after a member has joined, all tokens are out
  have hflag : ∀ m0, (ms ++ done.filterMap c.joins)[i]? = some m0 → c.token m = c.token m0 →
      decide (c.token m0 ∈ t.out ∪ ((done ++ b.pending).filterMap c.puts).toFinset) =
        decide (c.token m ∈ b.state.out) := by
    intro m0 hm0 htoken
    rw [← htoken, decide_eq_decide]
    refine ⟨fun hin => ?_, fun hin => hall hin⟩
    by_cases hi : i < ms.length
    · exact hseen hi
    rw [List.getElem?_append_right (Nat.le_of_not_lt hi)] at hm0
    obtain ⟨e, he, hjoins⟩ := List.mem_filterMap.1 (List.mem_of_getElem? hm0)
    have hrest : b.pending.filterMap c.puts = [] := by
      refine List.filterMap_eq_nil_iff.2 fun e' he' => ?_
      rcases (List.pairwise_append.1 (h.ordered hb.lead)).2.2 e he e' he' with hno | hno
      · rw [hjoins] at hno
        cases hno
      · exact hno
    rw [List.filterMap_append, hrest, List.append_nil, ← hb.out] at hin
    exact hin
  constructor
  · exact hb.lead
  · exact hb.out
  · rw [← hb.length]
    exact List.length_set
  · intro j m0 m1 hm0 hm1
    rcases Places.lookup_set.1 hm1 with ⟨rfl, _, rfl⟩ | ⟨hj, hm1⟩
    · have hwalk := hb.walks j m0 m hm0 hm
      rw [Function.update_self]
      refine hwalk.snoc (x := x) ?_
      rw [hflag m0 hm0 (hwalk.token h)]
      exact hmove
    · rw [Function.update_of_ne hj]
      exact hb.walks j m0 m1 hm0 hm1
  · intro j m1 hj hm1 hout
    rcases Places.lookup_set.1 hm1 with ⟨rfl, _, rfl⟩ | ⟨hne, hm1⟩
    · exact absurd (h.token_move hmove ▸ hseen hj) hout
    · rw [Function.update_of_ne hne]
      exact hb.still j m1 hj hm1 hout
  · intro j hj
    have hj' : b.state.members.length ≤ j := by simpa using hj
    have hne : j ≠ i := by omega
    rw [Function.update_of_ne hne]
    exact hb.quiet j hj'
  · have hperm := (hb.log.append_right more).trans ((List.append_assoc _ _ _).symm ▸
      ((flatMap_update_perm said more hlt).symm.append_left t.log))
    simpa using hperm

/-- A member moves on whose token is not out, and so could as well have done before the leader acted. -/
theorem Behind.mirror (h : c.Lawful) (hb : c.Behind t a b ms done said) {m m' : μ} {more : List ε}
    (hm : b.state.members[i]? = some m) (hmove : c.move (decide (c.token m ∈ b.state.out)) m x = some (m', more))
    (hi : i < ms.length) (hout : c.token m ∉ b.state.out) : ∃ t', c.step t (.move i x) = some t' ∧
      c.Behind t' a { b with state := { b.state with members := b.state.members.set i m', log := b.state.log ++ more } }
        (ms.set i m') done said := by
  obtain ⟨hms, hsaid⟩ := hb.still i m hi hm hout
  rw [decide_eq_false hout] at hmove
  obtain ⟨m0, m0', hm0, htoken, hmove0, hlead⟩ := h.lead_move hb.lead hms hmove
  have hout0 : c.token m0 ∉ t.out := by
    rw [htoken]
    intro hin
    rw [hb.out] at hout
    exact hout (Finset.mem_union_left _ hin)
  rw [← decide_eq_false hout0] at hmove0
  refine ⟨{ t with members := t.members.set i m0', log := t.log ++ more },
    moved_eq_some.2 ⟨m0, m0', more, hm0, hmove0, rfl⟩, ?_⟩
  constructor
  · exact hlead
  · exact hb.out
  · have hlen := hb.length
    simp only [List.length_append, List.length_set] at hlen ⊢
    exact hlen
  · intro j m1 m2 hm1 hm2
    rcases Places.lookup_set.1 hm2 with ⟨rfl, _, rfl⟩ | ⟨hj, hm2⟩
    · rw [List.getElem?_append_left (by simpa using hi)] at hm1
      rcases Places.lookup_set.1 hm1 with ⟨_, _, rfl⟩ | ⟨hne, _⟩
      · rw [hsaid]
        exact .refl
      · exact absurd rfl hne
    · refine hb.walks j m1 m2 ?_ hm2
      rw [List.set_append_left _ _ hi |>.symm, List.getElem?_set_ne (Ne.symm hj)] at hm1
      exact hm1
  · intro j m1 hj hm1 hout1
    rcases Places.lookup_set.1 hm1 with ⟨rfl, _, rfl⟩ | ⟨hne, hm1⟩
    · exact ⟨Places.lookup_set.2 (.inl ⟨rfl, hi, rfl⟩), hsaid⟩
    · obtain ⟨hms1, hsaid1⟩ := hb.still j m1 (by simpa using hj) hm1 hout1
      exact ⟨Places.lookup_set.2 (.inr ⟨hne, hms1⟩), hsaid1⟩
  · intro j hj
    exact hb.quiet j (by simpa using hj)
  · have hperm : (b.state.log ++ more).Perm
        (t.log ++ more ++ (List.range b.state.members.length).flatMap said) := by
      refine (hb.log.append_right more).trans ?_
      rw [List.append_assoc, List.append_assoc]
      exact List.perm_append_comm.append_left _
    simpa using hperm

/-- All effects have happened, and the first way acts and then catches up with the members. -/
theorem Behind.catch_up (h : c.Lawful) (hb : c.Behind t a b ms done said) (hpending : b.pending = []) :
    ∃ acts t', Lts.run c.step t acts = some t' ∧ Alike b.state t' := by
  have hlead : c.step t (.lead a) = some (c.absorb { t with leader := b.state.leader, members := ms } done) := by
    have hl := hb.lead
    rw [hpending, List.append_nil] at hl
    simp only [step, hl, Option.map_some]
  have hout : (c.absorb { t with leader := b.state.leader, members := ms } done).out = b.state.out := hb.out.symm
  have hwalks : ∀ (i : Nat) m0 m, (ms ++ done.filterMap c.joins)[i]? = some m0 → b.state.members[i]? = some m →
      c.Walk (decide (c.token m0 ∈ b.state.out)) m0 m (said i) := by
    intro i m0 m hm0 hm
    have hwalk := hb.walks i m0 m hm0 hm
    rw [hpending, List.append_nil, ← hb.out] at hwalk
    exact hwalk
  obtain ⟨acts, ms', hrun, hms'⟩ := replay (s := c.absorb { t with leader := b.state.leader, members := ms } done) h
    hb.length (hout ▸ hwalks) b.state.members.length (Nat.le_refl _)
  have hmembers : b.state.members = ms' := by
    refine List.ext_getElem? fun j => ?_
    rw [hms' j]
    split
    · rfl
    · rename_i hj
      have hj' := Nat.le_of_not_lt hj
      have hlen : (c.absorb { t with leader := b.state.leader, members := ms } done).members.length ≤ j :=
        hb.length ▸ hj'
      rw [List.getElem?_eq_none hj', List.getElem?_eq_none hlen]
  exact ⟨.lead a :: acts, _, Lts.run_cons.2 ⟨_, hlead, hrun⟩, rfl, hmembers, hout.symm, hb.log⟩

/-! ## The two ways -/

/-- A run of the first way stands where the second does, or where it stood before the leader last acted. -/
def Followed (c : Crew γ μ ι ε κ η α) (s : State γ μ ε κ) (b : Busy γ μ ε κ η) : Prop :=
  ∃ acts t, Lts.run c.step s acts = some t ∧ ((b.pending = [] ∧ Alike b.state t) ∨
    ∃ a ms done said, c.Behind t a b ms done said)

theorem Followed.idle (h : c.Lawful) (hf : c.Followed s b) (hpending : b.pending = []) :
    ∃ acts t, Lts.run c.step s acts = some t ∧ Alike b.state t := by
  obtain ⟨acts, t, hrun, ⟨_, halike⟩ | ⟨a, ms, done, said, hb⟩⟩ := hf
  · exact ⟨acts, t, hrun, halike⟩
  · obtain ⟨acts', t', hrun', halike⟩ := hb.catch_up h hpending
    exact ⟨acts ++ acts', t', Lts.run_append.2 ⟨t, hrun, hrun'⟩, halike⟩

theorem Followed.step (h : c.Lawful) (hf : c.Followed s b) {act : BusyAct ι α} (hs : c.busyStep b act = some b') :
    c.Followed s b' := by
  cases act with
  | lead a =>
    cases hpending : b.pending with
    | cons e es =>
      rw [busyStep, hpending] at hs
      cases hs
    | nil =>
      rw [busyStep, hpending] at hs
      obtain ⟨⟨g, ms, es⟩, hlead, rfl⟩ := Option.map_eq_some_iff.1 hs
      obtain ⟨acts, t, hrun, halike⟩ := hf.idle h hpending
      exact ⟨acts, t, hrun, .inr ⟨a, ms, [], _, .start halike hlead⟩⟩
  | effect =>
    cases hpending : b.pending with
    | nil =>
      rw [busyStep, hpending] at hs
      cases hs
    | cons e es =>
      rw [busyStep, hpending] at hs
      cases hs
      obtain ⟨acts, t, hrun, ⟨hnone, _⟩ | ⟨a, ms, done, said, hb⟩⟩ := hf
      · rw [hpending] at hnone
        cases hnone
      · exact ⟨acts, t, hrun, .inr ⟨a, ms, _, said, hb.effect hpending⟩⟩
  | move i x =>
    obtain ⟨s', hmoved, rfl⟩ := Option.map_eq_some_iff.1 hs
    obtain ⟨acts, t, hrun, ⟨hnone, halike⟩ | ⟨a, ms, done, said, hb⟩⟩ := hf
    · obtain ⟨t', hmoved', halike'⟩ := halike.moved hmoved
      have hs' : c.step t (.move i x) = some t' := hmoved'
      exact ⟨acts ++ [.move i x], t', Lts.run_snoc.2 ⟨t, hrun, hs'⟩, .inl ⟨hnone, halike'⟩⟩
    · obtain ⟨m, m', more, hm, hmove, rfl⟩ := moved_eq_some.1 hmoved
      by_cases hearly : i < ms.length ∧ c.token m ∉ b.state.out
      · obtain ⟨t', hs', hb'⟩ := hb.mirror h hm hmove hearly.1 hearly.2
        exact ⟨acts ++ [.move i x], t', Lts.run_snoc.2 ⟨t, hrun, hs'⟩, .inr ⟨a, _, done, said, hb'⟩⟩
      · refine ⟨acts, t, hrun, .inr ⟨a, ms, done, _, hb.keep h hm hmove fun hi => ?_⟩⟩
        by_contra hout
        exact hearly ⟨hi, hout⟩

end

end Crew
