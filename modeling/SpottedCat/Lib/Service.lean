import SpottedCat.Lib.Run
import SpottedCat.Lib.Table

/-!
# Calls to a server behind a channel

Any number of callers send requests into a bounded channel that one server receives from. A caller that waits gets
its answer by a channel of its own, which breaks when the server is gone; one that does not goes on as soon as its
request is in the channel. A caller may also give up, at any time.

| step | |
| --- | --- |
| `call`    | a further call begins |
| `send`    | it sends its request, or finds the channel full or its receiver gone |
| `receive` | the server handles the oldest request |
| `act`     | the server does something else |
| `leave`   | the server is over; the receiver goes, and all requests in the channel with it |
| `ret`     | a call gets its answer, or finds that there will be none |
| `abandon` | a caller gives up |

* `run_serves`: **one at a time**. The server sees the requests one after the other, whoever makes them;
* `run_consistent`: each request is handled at most once, an answer is the one that was given to this request, and
  the request of a call that failed was never handled;
* `run_real_time`: a call that begins after another one was over is also handled after it;
* `run_left`, `Consistent.still`: no call hangs, as long as the server takes what it is sent.
-/

namespace Service

/-- A server, with requests, answers, choices it makes in handling a request, and other things it does. -/
structure Server (σ Req Res χ α : Type*) where
  /-- It handles a request, and may answer it. -/
  serve : σ → χ → Req → Option (σ × Option Res)
  act : σ → α → Option σ
  /-- It receives no more. -/
  ended : σ → Bool
  /-- The room in the channel. -/
  capacity : Nat
  /-- The caller waits, for room in the channel and for an answer. -/
  waits : Req → Bool
  answers : ∀ s c req s' res, serve s c req = some (s', res) → res.isSome = waits req

/-- What a call comes to. -/
inductive Ret (Res : Type*) where
  /-- The request is in the channel. -/
  | posted
  | answer (res : Res)
  /-- There was no room. -/
  | full
  /-- The receiver was gone. -/
  | closed
  /-- The request went with the receiver. -/
  | unanswered
deriving DecidableEq

/-- Where a call stands. -/
inductive Pc (Res : Type*) where
  | sending
  | waiting
  | answered (res : Res)
  /-- The sender of its answer was dropped. -/
  | dropped
  | returned (ret : Ret Res)
  | abandoned
deriving DecidableEq

namespace Pc

variable {Res : Type*}

/-- The caller has gone on. -/
def done : Pc Res → Bool
  | returned _ | abandoned => true
  | _ => false

/-- The request has been handled; nobody hears the answer unless he waits. -/
def hear (res : Option Res) : Pc Res → Pc Res
  | waiting => res.elim dropped answered
  | pc => pc

def drop : Pc Res → Pc Res
  | waiting => dropped
  | pc => pc

/-- The steps that are left to a call, with the one that handles its request. -/
def left : Pc Res → Nat
  | sending => 4
  | waiting => 2
  | answered _ | dropped => 1
  | returned _ | abandoned => 0

end Pc

structure State (σ Req Res : Type*) where
  server : σ
  /-- All calls so far. -/
  calls : List (Req × Pc Res)
  /-- The numbers of the calls whose requests are in the channel, oldest first. -/
  queue : List Nat
  /-- The calls whose requests were handled, oldest first, with the answers. -/
  served : List (Nat × Option Res)
  /-- The receiver is gone. -/
  gone : Bool

inductive Action (Req χ α : Type*) where
  | call (req : Req)
  | send (i : Nat)
  | receive (c : χ)
  | act (a : α)
  | leave
  | ret (i : Nat)
  | abandon (i : Nat)

/-- A step of a caller or of the channel. -/
def Action.counts {Req χ α : Type*} : Action Req χ α → Bool
  | .act _ => false
  | _ => true

section
variable {σ Req Res χ α : Type*}

namespace State

def init (server : σ) : State σ Req Res := ⟨server, [], [], [], false⟩

def put (s : State σ Req Res) (i : Nat) (req : Req) (pc : Pc Res) : State σ Req Res :=
  { s with calls := s.calls.set i (req, pc) }

/-- The receiver goes, and the requests in the channel with it. -/
def vacate (s : State σ Req Res) : State σ Req Res :=
  { s with
    calls := s.calls.mapIdx fun i call => (call.1, if i ∈ s.queue then call.2.drop else call.2)
    queue := []
    gone := true }

/-- All requests so far, in the order in which they came into the channel, less those that went with it. -/
def order (s : State σ Req Res) : List Nat := s.served.map Prod.fst ++ s.queue

/-- What was handled, and how it was answered. -/
def history (s : State σ Req Res) : List (Req × Option Res) :=
  s.served.filterMap fun x => s.calls[x.1]?.map fun call => (call.1, x.2)

end State

def step (S : Server σ Req Res χ α) (s : State σ Req Res) : Action Req χ α → Option (State σ Req Res)
  | .call req => some { s with calls := s.calls ++ [(req, .sending)] }
  | .send i =>
    match s.calls[i]? with
    | some (req, .sending) =>
      if s.gone then some (s.put i req (.returned .closed))
      else if s.queue.length < S.capacity then
        some { s.put i req (if S.waits req then .waiting else .returned .posted) with queue := s.queue ++ [i] }
      else if S.waits req then none
      else some (s.put i req (.returned .full))
    | _ => none
  | .receive c =>
    match s.queue with
    | i :: rest =>
      if s.gone = true ∨ S.ended s.server = true then none
      else
        match s.calls[i]? with
        | some (req, pc) =>
          (S.serve s.server c req).map fun (server, res) =>
            { s.put i req (pc.hear res) with
              server := server, queue := rest, served := s.served ++ [(i, res)] }
        | none => none
    | [] => none
  | .act a => if s.gone then none else (S.act s.server a).map fun server => { s with server := server }
  | .leave =>
    if s.gone = false ∧ S.ended s.server = true then some s.vacate else none
  | .ret i =>
    match s.calls[i]? with
    | some (req, .answered res) => some (s.put i req (.returned (.answer res)))
    | some (req, .dropped) => some (s.put i req (.returned .unanswered))
    | _ => none
  | .abandon i =>
    match s.calls[i]? with
    | some (req, pc) => if pc.done then none else some (s.put i req .abandoned)
    | none => none

/-- What a step does, case by case. -/
inductive Steps (S : Server σ Req Res χ α) (s : State σ Req Res) : Action Req χ α → State σ Req Res → Prop
  | call (req : Req) : Steps S s (.call req) { s with calls := s.calls ++ [(req, .sending)] }
  | refused {i : Nat} {req : Req} {ret : Ret Res} (h : s.calls[i]? = some (req, .sending))
      (hret : ret = .closed ∨ ret = .full) : Steps S s (.send i) (s.put i req (.returned ret))
  | sent {i : Nat} {req : Req} (h : s.calls[i]? = some (req, .sending)) (hgone : s.gone = false) :
      Steps S s (.send i)
        { s.put i req (if S.waits req then .waiting else .returned .posted) with queue := s.queue ++ [i] }
  | received {i : Nat} {rest : List Nat} {req : Req} {pc : Pc Res} {c : χ} {server : σ} {res : Option Res}
      (hq : s.queue = i :: rest) (h : s.calls[i]? = some (req, pc))
      (hserve : S.serve s.server c req = some (server, res)) :
      Steps S s (.receive c) { s.put i req (pc.hear res) with
        server := server, queue := rest, served := s.served ++ [(i, res)] }
  | acted {a : α} {server : σ} (h : S.act s.server a = some server) : Steps S s (.act a) { s with server := server }
  | left (hgone : s.gone = false) : Steps S s .leave s.vacate
  | answered {i : Nat} {req : Req} {res : Res} (h : s.calls[i]? = some (req, .answered res)) :
      Steps S s (.ret i) (s.put i req (.returned (.answer res)))
  | unanswered {i : Nat} {req : Req} (h : s.calls[i]? = some (req, .dropped)) :
      Steps S s (.ret i) (s.put i req (.returned .unanswered))
  | abandoned {i : Nat} {req : Req} {pc : Pc Res} (h : s.calls[i]? = some (req, pc)) (hpc : pc.done = false) :
      Steps S s (.abandon i) (s.put i req .abandoned)

variable {S : Server σ Req Res χ α} {s s' : State σ Req Res} {a : Action Req χ α}

/-- Who waits for the answer to a request in the channel will get none. -/
theorem State.vacate_calls {i : Nat} {req : Req} {pc : Pc Res} (h : s.vacate.calls[i]? = some (req, pc)) :
    ∃ pc0, s.calls[i]? = some (req, pc0) ∧
      (pc0 = .waiting ∧ i ∈ s.queue ∧ pc = .dropped ∨ (pc0 = .waiting → i ∉ s.queue) ∧ pc = pc0) := by
  simp only [State.vacate, List.getElem?_mapIdx, Option.map_eq_some_iff] at h
  obtain ⟨⟨req0, pc0⟩, hcall, heq⟩ := h
  obtain ⟨rfl, rfl⟩ := Prod.mk.inj heq
  refine ⟨pc0, hcall, ?_⟩
  by_cases hi : i ∈ s.queue
  · cases pc0 <;> simp [hi, Pc.drop]
  · simp [hi]

theorem step_cases (h : step S s a = some s') : Steps S s a s' := by
  cases a with
  | call req =>
    cases h
    exact .call req
  | send i =>
    simp only [step] at h
    split at h
    · rename_i req hcall
      split at h
      · cases h
        exact .refused hcall (.inl rfl)
      · rename_i hgone
        split at h
        · cases h
          exact .sent hcall (Bool.eq_false_iff.2 hgone)
        · split at h
          · cases h
          · cases h
            exact .refused hcall (.inr rfl)
    · cases h
  | receive c =>
    simp only [step] at h
    split at h
    · rename_i i rest hq
      split at h
      · cases h
      · split at h
        · rename_i req pc hcall
          obtain ⟨⟨server, res⟩, hserve, rfl⟩ := Option.map_eq_some_iff.1 h
          exact .received hq hcall hserve
        · cases h
    · cases h
  | act a =>
    simp only [step] at h
    split at h
    · cases h
    · obtain ⟨server, hact, rfl⟩ := Option.map_eq_some_iff.1 h
      exact .acted hact
  | leave =>
    simp only [step] at h
    split at h
    · rename_i hover
      cases h
      exact .left hover.1
    · cases h
  | ret i =>
    simp only [step] at h
    split at h
    · rename_i req res hcall
      cases h
      exact .answered hcall
    · rename_i req hcall
      cases h
      exact .unanswered hcall
    · cases h
  | abandon i =>
    simp only [step] at h
    split at h
    · rename_i req pc hcall
      split at h
      · cases h
      · rename_i hpc
        cases h
        exact .abandoned hcall (Bool.eq_false_iff.2 hpc)
    · cases h

/-! ## Every call and its request -/

/-- What the channel and the server know of call `i`. -/
def State.Knows (s : State σ Req Res) (i : Nat) : Pc Res → Prop
  | .sending | .dropped => i ∉ s.order
  | .waiting => i ∈ s.queue
  | .answered res | .returned (.answer res) => (i, some res) ∈ s.served
  | .returned .posted => i ∈ s.order ∨ s.gone = true
  | .returned .full | .returned .closed | .returned .unanswered => i ∉ s.order
  | .abandoned => True

structure Consistent (S : Server σ Req Res χ α) (s : State σ Req Res) : Prop where
  nodup : s.order.Nodup
  called : ∀ i ∈ s.order, i < s.calls.length
  knows : ∀ (i : Nat) (req : Req) (pc : Pc Res), s.calls[i]? = some (req, pc) → s.Knows i pc
  waits : ∀ (i : Nat) (req : Req), s.calls[i]? = some (req, .waiting) → S.waits req = true
  left : s.gone = true → s.queue = []

theorem State.Knows.mono {i : Nat} {pc : Pc Res} (h : s.Knows i pc) (hnew : i ∈ s'.order → i ∈ s.order)
    (hold : i ∈ s.order ∨ s.gone = true → i ∈ s'.order ∨ s'.gone = true)
    (hqueue : pc = .waiting → i ∈ s.queue → i ∈ s'.queue) (hserved : s.served ⊆ s'.served) : s'.Knows i pc := by
  cases pc with
  | sending | dropped => exact fun hi => h (hnew hi)
  | waiting => exact hqueue rfl h
  | answered res => exact hserved h
  | abandoned => exact trivial
  | returned ret =>
    cases ret with
    | posted => exact hold h
    | answer res => exact hserved h
    | full | closed | unanswered => exact fun hi => h (hnew hi)

theorem Consistent.init (server : σ) : Consistent S (.init server : State σ Req Res) where
  nodup := List.nodup_nil
  called := fun i hi => absurd hi List.not_mem_nil
  knows := fun i req pc h => by cases h
  waits := fun i req h => by cases h
  left := fun _ => rfl

/-- A step of one call that leaves the channel alone. -/
theorem Consistent.put (h : Consistent S s) {i : Nat} {req : Req} {pc pc' : Pc Res}
    (hcall : s.calls[i]? = some (req, pc)) (hpc : s.Knows i pc → s.Knows i pc') (hwaiting : pc' ≠ .waiting) :
    Consistent S (s.put i req pc') where
  nodup := h.nodup
  called := by
    intro j hj
    show j < (s.calls.set i (req, pc')).length
    rw [List.length_set]
    exact h.called j hj
  knows := by
    intro j req' pc'' hj
    rcases Places.lookup_set.1 hj with ⟨rfl, -, heq⟩ | ⟨-, hj⟩
    · cases heq
      exact hpc (h.knows _ _ _ hcall)
    · exact h.knows j req' pc'' hj
  waits := by
    intro j req' hj
    rcases Places.lookup_set.1 hj with ⟨rfl, -, heq⟩ | ⟨-, hj⟩
    · cases heq
      exact absurd rfl hwaiting
    · exact h.waits j req' hj
  left := h.left

/-- **One step.** -/
theorem Consistent.step (h : Consistent S s) (hs : Service.step S s a = some s') : Consistent S s' := by
  cases step_cases hs with
  | call req =>
    refine ⟨h.nodup, fun i hi => ?_, fun i req' pc hi => ?_, fun i req' hi => ?_, h.left⟩
    · show i < (s.calls ++ [(req, Pc.sending)]).length
      rw [List.length_append]
      exact Nat.lt_add_right _ (h.called i hi)
    · rcases Places.lookup_push.1 hi with hi | ⟨rfl, heq⟩
      · exact h.knows i req' pc hi
      · cases heq
        exact fun hi => Nat.lt_irrefl _ (h.called _ hi)
    · rcases Places.lookup_push.1 hi with hi | ⟨rfl, heq⟩
      · exact h.waits i req' hi
      · cases heq
  | @refused i req ret hcall hret =>
    refine h.put hcall (fun hk => ?_) (by simp)
    rcases hret with rfl | rfl
    · exact hk
    · exact hk
  | @sent i req hcall hgone =>
    have hfresh : i ∉ s.order := h.knows i req _ hcall
    have hi : i < s.calls.length := (List.getElem?_eq_some_iff.1 hcall).1
    have horder (pc : Pc Res) : State.order { s.put i req pc with queue := s.queue ++ [i] } = s.order ++ [i] :=
      (List.append_assoc _ _ _).symm
    refine ⟨?_, fun j hj => ?_, fun j req' pc hj => ?_, fun j req' hj => ?_, fun hg => ?_⟩
    · rw [horder, List.nodup_append]
      refine ⟨h.nodup, List.nodup_singleton i, fun j hj k hk heq => ?_⟩
      rw [List.mem_singleton] at hk
      exact hfresh (hk ▸ heq ▸ hj)
    · rw [horder] at hj
      show j < (s.calls.set i _).length
      rw [List.length_set]
      rcases List.mem_append.1 hj with hj | hj
      · exact h.called j hj
      · rw [List.mem_singleton.1 hj]
        exact hi
    · rcases Places.lookup_set.1 hj with ⟨rfl, -, heq⟩ | ⟨hne, hj⟩
      · obtain ⟨rfl, rfl⟩ := Prod.mk.inj heq
        cases S.waits req' with
        | false => exact .inl (by rw [horder]; simp)
        | true => exact List.mem_append_right _ (List.mem_singleton.2 rfl)
      · refine (h.knows j req' pc hj).mono (fun hm => ?_) (fun hm => ?_) (fun _ => List.mem_append_left _)
          (List.Subset.refl _)
        · rw [horder] at hm
          rcases List.mem_append.1 hm with hm | hm
          · exact hm
          · exact absurd (List.mem_singleton.1 hm) hne
        · rw [horder]
          exact hm.imp (List.mem_append_left _) fun hg => hg
    · rcases Places.lookup_set.1 hj with ⟨rfl, -, heq⟩ | ⟨-, hj⟩
      · obtain ⟨rfl, hpc⟩ := Prod.mk.inj heq
        by_contra hwaits
        rw [if_neg hwaits] at hpc
        cases hpc
      · exact h.waits j req' hj
    · rw [show s.gone = true from hg] at hgone
      cases hgone
  | @received i rest req pc c server res hq hcall hserve =>
    have horder : s.order = s.served.map Prod.fst ++ i :: rest := by
      rw [State.order, hq]
    have horder' (call : Pc Res) : State.order { s.put i req call with
        server := server, queue := rest, served := s.served ++ [(i, res)] } = s.order := by
      rw [horder, State.order]
      simp
    have hunserved : i ∉ s.served.map Prod.fst := by
      have hnodup := h.nodup
      rw [horder] at hnodup
      exact fun hm => (List.nodup_append.1 hnodup).2.2 i hm i List.mem_cons_self rfl
    refine ⟨?_, fun j hj => ?_, fun j req' pc' hj => ?_, fun j req' hj => ?_, fun hg => ?_⟩
    · rw [horder']
      exact h.nodup
    · rw [horder'] at hj
      show j < (s.calls.set i _).length
      rw [List.length_set]
      exact h.called j hj
    · rcases Places.lookup_set.1 hj with ⟨rfl, -, heq⟩ | ⟨hne, hj⟩
      · obtain ⟨rfl, rfl⟩ := Prod.mk.inj heq
        have hknows := h.knows j _ _ hcall
        have hin : j ∈ s.order := by
          rw [horder]
          simp
        cases pc with
        | sending | dropped => exact absurd hin hknows
        | waiting =>
          have hanswers := S.answers _ _ _ _ _ hserve
          rw [h.waits j _ hcall] at hanswers
          obtain ⟨r, rfl⟩ := Option.isSome_iff_exists.1 hanswers
          exact List.mem_append_right _ (List.mem_singleton.2 rfl)
        | answered r => exact absurd (List.mem_map.2 ⟨_, hknows, rfl⟩) hunserved
        | abandoned => exact trivial
        | returned ret =>
          cases ret with
          | posted => exact .inl (by rw [horder']; exact hin)
          | answer r => exact absurd (List.mem_map.2 ⟨_, hknows, rfl⟩) hunserved
          | full | closed | unanswered => exact absurd hin hknows
      · refine (h.knows j req' pc' hj).mono (fun hm => ?_) (fun hm => ?_) (fun _ hm => ?_)
          (List.subset_append_left _ _)
        · rw [horder'] at hm
          exact hm
        · rw [horder']
          exact hm
        · rw [hq] at hm
          exact (List.mem_cons.1 hm).resolve_left hne
    · rcases Places.lookup_set.1 hj with ⟨rfl, -, heq⟩ | ⟨-, hj⟩
      · obtain ⟨rfl, hpc⟩ := Prod.mk.inj heq
        cases pc with
        | waiting => cases res <;> cases hpc
        | sending | answered | dropped | returned | abandoned => cases hpc
      · exact h.waits j req' hj
    · rw [h.left hg] at hq
      cases hq
  | acted => exact ⟨h.nodup, h.called, h.knows, h.waits, h.left⟩
  | left hgone =>
    have horder : s.vacate.order = s.served.map Prod.fst := List.append_nil _
    have hsub : ∀ j ∈ s.vacate.order, j ∈ s.order := by
      rw [horder]
      exact fun j => List.mem_append_left _
    refine ⟨?_, fun j hj => ?_, fun j req pc hj => ?_, fun j req hj => ?_, fun _ => rfl⟩
    · rw [horder]
      exact h.nodup.sublist (List.sublist_append_left _ _)
    · show j < (s.calls.mapIdx _).length
      rw [List.length_mapIdx]
      exact h.called j (hsub j hj)
    · obtain ⟨pc0, hcall, ⟨rfl, hqueued, rfl⟩ | ⟨hqueued, rfl⟩⟩ := State.vacate_calls hj
      · intro hm
        rw [horder] at hm
        exact (List.nodup_append.1 h.nodup).2.2 j hm j hqueued rfl
      · exact (h.knows j req pc hcall).mono (hsub j) (fun _ => .inr rfl)
          (fun hpc hm => absurd hm (hqueued hpc)) (List.Subset.refl _)
    · obtain ⟨pc0, hcall, ⟨-, -, hpc⟩ | ⟨hqueued, rfl⟩⟩ := State.vacate_calls hj
      · cases hpc
      · exact absurd (h.knows j req _ hcall) (hqueued rfl)
  | answered hcall => exact h.put hcall (fun hk => hk) (by simp)
  | unanswered hcall => exact h.put hcall (fun hk => hk) (by simp)
  | abandoned hcall => exact h.put hcall (fun _ => trivial) (by simp)

theorem run_consistent {acts : List (Action Req χ α)} {server : σ}
    (hrun : Lts.run (step S) (.init server) acts = some s) : Consistent S s :=
  Lts.run_invariant (fun _ _ _ h hs => h.step hs) (.init server) hrun

/-! ## One at a time -/

/-- The server takes requests one after the other, and gives these answers. -/
inductive Server.Serves (S : Server σ Req Res χ α) (start : σ) : List (Req × Option Res) → σ → Prop
  | start : S.Serves start [] start
  | act {hist : List (Req × Option Res)} {s s' : σ} {a : α} (h : S.Serves start hist s)
      (hact : S.act s a = some s') : S.Serves start hist s'
  | request {hist : List (Req × Option Res)} {s s' : σ} {c : χ} {req : Req} {res : Option Res}
      (h : S.Serves start hist s) (hserve : S.serve s c req = some (s', res)) :
      S.Serves start (hist ++ [(req, res)]) s'

theorem State.put_request {i j : Nat} {req : Req} {pc pc' : Pc Res} (h : s.calls[i]? = some (req, pc)) :
    (s.put i req pc').calls[j]?.map Prod.fst = s.calls[j]?.map Prod.fst := by
  simp only [State.put, List.getElem?_set]
  split
  · rename_i hij
    subst hij
    rw [h, if_pos (List.getElem?_eq_some_iff.1 h).1]
    rfl
  · rfl

/-- Unless a call begins, the requests of all calls stay. -/
theorem step_requests (hs : step S s a = some s') (hcall : ∀ req, a ≠ .call req) (j : Nat) :
    s'.calls[j]?.map Prod.fst = s.calls[j]?.map Prod.fst := by
  cases step_cases hs with
  | call req => exact absurd rfl (hcall req)
  | acted => rfl
  | left =>
    simp only [State.vacate, List.getElem?_mapIdx, Option.map_map]
    rfl
  | refused h => exact State.put_request h
  | sent h => exact State.put_request h
  | received _ h => exact State.put_request h
  | answered h => exact State.put_request h
  | unanswered h => exact State.put_request h
  | abandoned h => exact State.put_request h

/-- A call keeps its request. -/
theorem step_request (hs : step S s a = some s') {j : Nat} (hj : j < s.calls.length) :
    s'.calls[j]?.map Prod.fst = s.calls[j]?.map Prod.fst := by
  by_cases hcall : ∃ req, a = .call req
  · obtain ⟨req, rfl⟩ := hcall
    cases hs
    rw [List.getElem?_append_left hj]
  · exact step_requests hs (fun req h => hcall ⟨req, h⟩) j

theorem State.history_congr
    (hcalls : ∀ i ∈ s.served.map Prod.fst, s'.calls[i]?.map Prod.fst = s.calls[i]?.map Prod.fst)
    (hserved : s'.served = s.served) : s'.history = s.history := by
  unfold State.history
  rw [hserved]
  apply List.filterMap_congr
  intro x hx
  have hcall := hcalls x.1 (List.mem_map.2 ⟨x, hx, rfl⟩)
  have hmap (calls : List (Req × Pc Res)) : calls[x.1]?.map (fun call => (call.1, x.2)) =
      (calls[x.1]?.map Prod.fst).map fun req => (req, x.2) := by
    rw [Option.map_map]
    rfl
  rw [hmap, hmap, hcall]

/-- **One step** is none of the server, or one. -/
theorem serves_step {start : σ} (hc : Consistent S s) (h : S.Serves start s.history s.server)
    (hs : step S s a = some s') : S.Serves start s'.history s'.server := by
  have hknown : ∀ i ∈ s.served.map Prod.fst, s'.calls[i]?.map Prod.fst = s.calls[i]?.map Prod.fst :=
    fun i hi => step_request hs (hc.called i (List.mem_append_left _ hi))
  cases step_cases hs with
  | call | refused | sent | left | answered | unanswered | abandoned =>
    rw [State.history_congr hknown rfl]
    exact h
  | acted hact =>
    rw [State.history_congr hknown rfl]
    exact h.act hact
  | @received i rest req pc c server res hq hcall hserve =>
    have hi : (s.calls.set i (req, pc.hear res))[i]? = some (req, pc.hear res) :=
      List.getElem?_set_self (List.getElem?_eq_some_iff.1 hcall).1
    have hhistory : State.history { s.put i req (pc.hear res) with
        server := server, queue := rest, served := s.served ++ [(i, res)] } = s.history ++ [(req, res)] := by
      have hbefore : State.history { s.put i req (pc.hear res) with server := server, queue := rest } =
          s.history := State.history_congr hknown rfl
      rw [← hbefore]
      simp only [State.history, List.filterMap_append, List.filterMap_cons, List.filterMap_nil, State.put, hi,
        Option.map_some]
    rw [hhistory]
    exact h.request hserve

/-- **One at a time.** In every run the server has handled the requests one after the other, in the order of
`served`, and given these answers. -/
theorem run_serves {acts : List (Action Req χ α)} {server : σ}
    (hrun : Lts.run (step S) (.init server) acts = some s) : S.Serves server s.history s.server := by
  have hinit : Consistent S (.init server : State σ Req Res) ∧
      S.Serves server (State.init server : State σ Req Res).history server := ⟨.init server, .start⟩
  exact (Lts.run_invariant (I := fun s : State σ Req Res => Consistent S s ∧ S.Serves server s.history s.server)
    (fun _ _ _ h hs => ⟨h.1.step hs, serves_step h.1 h.2 hs⟩) hinit hrun).2

/-- Every request that was handled is that of a call. -/
theorem Consistent.history (h : Consistent S s) :
    s.history.map (fun x => (some x.1, x.2)) = s.served.map fun x => (s.calls[x.1]?.map Prod.fst, x.2) := by
  have hcalled : ∀ x ∈ s.served, x.1 < s.calls.length := fun x hx =>
    h.called x.1 (List.mem_append_left _ (List.mem_map.2 ⟨x, hx, rfl⟩))
  unfold State.history
  generalize s.served = served at hcalled
  induction served with
  | nil => rfl
  | cons x rest ih =>
    rw [List.filterMap_cons, List.getElem?_eq_getElem (hcalled x List.mem_cons_self), List.map_cons,
      List.getElem?_eq_getElem (hcalled x List.mem_cons_self)]
    simp only [Option.map_some, List.map_cons]
    rw [ih fun y hy => hcalled y (List.mem_cons_of_mem _ hy)]

/-! ## Real time -/

/-- A call that is over stays as it is. -/
theorem step_done (hs : step S s a = some s') {j : Nat} {req : Req} {pc : Pc Res}
    (h : s.calls[j]? = some (req, pc)) (hdone : pc.done = true) : s'.calls[j]? = some (req, pc) := by
  have hput {i : Nat} {req' : Req} {pc' pc'' : Pc Res} (hcall : s.calls[i]? = some (req', pc'))
      (hopen : pc'.done = false) : (s.put i req' pc'').calls[j]? = some (req, pc) := by
    refine Places.lookup_set.2 (.inr ⟨?_, h⟩)
    rintro rfl
    rw [h] at hcall
    cases hcall
    rw [hdone] at hopen
    cases hopen
  cases step_cases hs with
  | call req' => exact Places.lookup_push.2 (.inl h)
  | acted => exact h
  | left =>
    have hsame (b : Prop) [Decidable b] : (if b then pc.drop else pc) = pc := by
      cases pc <;> simp [Pc.done, Pc.drop] at hdone ⊢
    simp only [State.vacate, List.getElem?_mapIdx, h, Option.map_some, hsame]
  | refused hcall => exact hput hcall rfl
  | sent hcall => exact hput hcall rfl
  | answered hcall => exact hput hcall rfl
  | unanswered hcall => exact hput hcall rfl
  | abandoned hcall hpc => exact hput hcall hpc
  | @received i rest req' pc' c server res hq hcall hserve =>
    cases hpc : pc'.done with
    | false => exact hput hcall hpc
    | true =>
      have hsame : pc'.hear res = pc' := by
        cases pc' <;> simp [Pc.done, Pc.hear] at hpc ⊢
      by_cases hij : j = i
      · subst hij
        rw [h] at hcall
        cases hcall
        rw [hsame]
        exact List.getElem?_set_self (List.getElem?_eq_some_iff.1 h).1
      · exact Places.lookup_set.2 (.inr ⟨hij, h⟩)

/-- The order only grows at its end, by a call that is sending; or the requests in the channel go. -/
theorem step_order (hs : step S s a = some s') : s'.order <+: s.order ∨
    ∃ i req, s.calls[i]? = some (req, .sending) ∧ s'.order = s.order ++ [i] := by
  cases step_cases hs with
  | call | refused | acted | answered | unanswered | abandoned => exact .inl (List.prefix_refl _)
  | left => exact .inl ⟨s.queue, by simp [State.order, State.vacate]⟩
  | received hq => exact .inl ⟨[], by simp [State.order, hq]⟩
  | @sent i req hcall => exact .inr ⟨i, req, hcall, by simp [State.order, State.put]⟩

/-- **Real time.** What was over before another call began comes before it. -/
theorem run_real_time {before after : List (Action Req χ α)} {server : σ} {i j : Nat} {req : Req} {pc : Pc Res}
    (hbefore : Lts.run (step S) (.init server) before = some s)
    (hdone : s.calls[i]? = some (req, pc)) (hpc : pc.done = true) (hj : s.calls.length ≤ j)
    (hafter : Lts.run (step S) s after = some s') (hi : i ∈ s'.served.map Prod.fst)
    (hserved : j ∈ s'.served.map Prod.fst) : [i, j].Sublist (s'.served.map Prod.fst) := by
  have hcalled := (run_consistent hbefore).called
  -- what was in order then, as far as it is still there, and what has come since
  have hsplit := Lts.run_invariant
    (I := fun t : State σ Req Res => t.calls[i]? = some (req, pc) ∧
      ∃ old new, t.order = old ++ new ∧ old <+: s.order ∧ i ∉ new)
    (fun t act t' ht hs => ?_) ⟨hdone, s.order, [], (List.append_nil _).symm, List.prefix_refl _, List.not_mem_nil⟩
    hafter
  · obtain ⟨-, old, new, horder, hold, hnew⟩ := hsplit
    have hpre : s'.served.map Prod.fst <+: old ++ new := horder ▸ List.prefix_append _ _
    have hjold : j ∉ old := fun hm => Nat.not_lt.2 hj (hcalled j (hold.subset hm))
    rcases List.prefix_or_prefix_of_prefix hpre (List.prefix_append old new) with hshort | ⟨rest, hrest⟩
    · exact absurd (hshort.subset hserved) hjold
    · rw [← hrest] at hi hserved hpre ⊢
      have hrestnew : rest ⊆ new := (List.prefix_append_right_inj old |>.1 hpre).subset
      have hi' := (List.mem_append.1 hi).resolve_right fun hm => hnew (hrestnew hm)
      have hj' := (List.mem_append.1 hserved).resolve_left hjold
      exact (List.singleton_sublist.2 hi').append (List.singleton_sublist.2 hj')
  · obtain ⟨hcall, old, new, horder, hold, hnew⟩ := ht
    refine ⟨step_done hs hcall hpc, ?_⟩
    rcases step_order hs with hpre | ⟨k, req', hk, hgrown⟩
    · rw [horder] at hpre
      rcases List.prefix_or_prefix_of_prefix hpre (List.prefix_append old new) with hshort | ⟨rest, hrest⟩
      · exact ⟨t'.order, [], (List.append_nil _).symm, hshort.trans hold, List.not_mem_nil⟩
      · rw [← hrest] at hpre
        have hrestnew : rest ⊆ new := (List.prefix_append_right_inj old |>.1 hpre).subset
        exact ⟨old, rest, hrest.symm, hold, fun hm => hnew (hrestnew hm)⟩
    · refine ⟨old, new ++ [k], by rw [hgrown, horder, List.append_assoc], hold, fun hm => ?_⟩
      rcases List.mem_append.1 hm with hm | hm
      · exact hnew hm
      · rw [List.mem_singleton] at hm
        rw [← hm, hcall] at hk
        cases hk
        cases hpc

/-! ## No call hangs -/

/-- The steps that are left if no further call begins. -/
def State.left (s : State σ Req Res) : Nat :=
  (s.calls.map fun call => call.2.left).sum + s.queue.length + (!s.gone).toNat

theorem Pc.drop_left (pc : Pc Res) : pc.drop.left ≤ pc.left := by
  cases pc <;> simp [Pc.drop, Pc.left]

theorem Pc.hear_left (pc : Pc Res) (res : Option Res) : (pc.hear res).left ≤ pc.left := by
  cases pc with
  | waiting => cases res <;> simp [Pc.hear, Pc.left]
  | sending | answered | dropped | returned | abandoned => exact Nat.le_refl _

theorem State.put_left {i : Nat} {req : Req} {pc : Pc Res} (pc' : Pc Res) (h : s.calls[i]? = some (req, pc)) :
    ((s.put i req pc').calls.map fun call => call.2.left).sum + pc.left =
      (s.calls.map fun call => call.2.left).sum + pc'.left :=
  Places.sum_set (b := (req, pc')) (fun call => call.2.left) h

/-- A step of a caller or of the channel leaves less to do. -/
theorem step_left (hs : step S s a = some s') (hcall : ∀ req, a ≠ .call req) :
    s'.left + (if a.counts = true then 1 else 0) ≤ s.left := by
  cases step_cases hs with
  | call req => exact absurd rfl (hcall req)
  | acted => exact Nat.le_refl _
  | @refused i req ret h =>
    have hput := State.put_left (.returned ret) h
    simp only [State.left, State.put, Action.counts, if_true] at hput ⊢
    rw [show (Pc.sending : Pc Res).left = 4 from rfl, show (Pc.returned ret).left = 0 from rfl] at hput
    omega
  | @sent i req h =>
    have hput := State.put_left (if S.waits req then .waiting else .returned .posted) h
    have hpc : (if S.waits req then Pc.waiting else .returned .posted : Pc Res).left ≤ 2 := by
      cases S.waits req <;> simp [Pc.left]
    simp only [State.left, State.put, Action.counts, if_true, List.length_append, List.length_singleton] at hput ⊢
    rw [show (Pc.sending : Pc Res).left = 4 from rfl] at hput
    omega
  | @received i rest req pc c server res hq h =>
    have hput := State.put_left (pc.hear res) h
    have hpc := Pc.hear_left pc res
    simp only [State.left, State.put, Action.counts, if_true, hq, List.length_cons] at hput ⊢
    omega
  | left hgone =>
    have hsum : (s.vacate.calls.map fun call => call.2.left).sum ≤ (s.calls.map fun call => call.2.left).sum := by
      simp only [State.vacate, List.mapIdx_eq_zipIdx_map, List.map_map]
      conv_rhs => rw [← List.zipIdx_map_fst 0 s.calls, List.map_map]
      apply List.sum_le_sum
      intro x _
      simp only [Function.comp_apply]
      split
      · exact Pc.drop_left _
      · exact Nat.le_refl _
    simp only [State.left, hgone, Action.counts]
    simp only [State.vacate, List.length_nil, if_true, Bool.not_true, Bool.not_false, Bool.toNat_true,
      Bool.toNat_false] at hsum ⊢
    omega
  | @answered i req res h =>
    have hput := State.put_left (.returned (.answer res)) h
    simp only [State.left, State.put, Action.counts, if_true] at hput ⊢
    rw [show (Pc.answered res).left = 1 from rfl, show (Pc.returned (Ret.answer res)).left = 0 from rfl] at hput
    omega
  | @unanswered i req h =>
    have hput := State.put_left (.returned .unanswered) h
    simp only [State.left, State.put, Action.counts, if_true] at hput ⊢
    rw [show (Pc.dropped : Pc Res).left = 1 from rfl, show (Pc.returned (Ret.unanswered : Ret Res)).left = 0 from rfl]
      at hput
    omega
  | @abandoned i req pc h hpc =>
    have hput := State.put_left .abandoned h
    have hpos : 1 ≤ pc.left := by
      cases pc <;> simp [Pc.done, Pc.left] at hpc ⊢
    simp only [State.left, State.put, Action.counts, if_true] at hput ⊢
    rw [show (Pc.abandoned : Pc Res).left = 0 from rfl] at hput
    omega

/-- **Bounded.** Without further calls, callers and channel take no more than `left` steps, whatever the server does
in between. -/
theorem run_left {acts : List (Action Req χ α)} (hcalls : ∀ a ∈ acts, ∀ req, a ≠ .call req)
    (hrun : Lts.run (step S) s acts = some s') : acts.countP Action.counts ≤ s.left := by
  have hpotential := Lts.run_potential_of_meets (I := fun _ : State σ Req Res => True) (f := State.left)
    (C := fun _ (a : Action Req χ α) => ∀ req, a ≠ .call req) (p := Action.counts)
    (fun _ _ _ _ hc hs => ⟨trivial, step_left hs hc⟩) trivial
    (Lts.Meets.of_forall fun a ha _ => hcalls a ha) hrun
  omega

/-- Without further calls. -/
theorem run_requests {acts : List (Action Req χ α)} (hcalls : ∀ a ∈ acts, ∀ req, a ≠ .call req)
    (hrun : Lts.run (step S) s acts = some s') : s'.calls.map Prod.fst = s.calls.map Prod.fst := by
  refine Lts.run_invariant_of_meets (I := fun t : State σ Req Res => t.calls.map Prod.fst = s.calls.map Prod.fst)
    (C := fun _ (a : Action Req χ α) => ∀ req, a ≠ .call req) (fun t a t' ht hc hs => ?_) rfl
    (Lts.Meets.of_forall fun a ha _ => hcalls a ha) hrun
  rw [← ht]
  apply List.ext_getElem?
  intro j
  rw [List.getElem?_map, List.getElem?_map]
  exact step_requests hs hc j

/-- Neither a new call, nor giving one up, nor a step of the server alone. -/
def Action.Forward : Action Req χ α → Prop
  | .send _ | .receive _ | .leave | .ret _ => True
  | .call _ | .act _ | .abandon _ => False

theorem Action.Forward.not_call (h : a.Forward) (req : Req) : a ≠ .call req := by
  rintro rfl
  exact h

theorem Action.Forward.counts (h : a.Forward) : a.counts = true := by
  cases a with
  | act => exact h.elim
  | call | send | receive | leave | ret | abandon => rfl

/-- **No call hangs.** Where nothing goes forward all calls are over and the channel is empty, if the server takes
the oldest request unless it is over. -/
theorem Consistent.still (h : Consistent S s) (hroom : 0 < S.capacity)
    (hready : ∀ (i : Nat) (rest : List Nat) (req : Req) (pc : Pc Res), s.queue = i :: rest →
      s.calls[i]? = some (req, pc) → S.ended s.server = false → ∃ c, (S.serve s.server c req).isSome)
    (hstill : ∀ a : Action Req χ α, a.Forward → Service.step S s a = none) :
    s.queue = [] ∧ ∀ (i : Nat) (req : Req) (pc : Pc Res), s.calls[i]? = some (req, pc) → pc.done = true := by
  have hqueue : s.queue = [] := by
    cases hq : s.queue with
    | nil => rfl
    | cons i rest =>
      exfalso
      have hgone : s.gone = false := by
        by_contra hgone
        rw [h.left (Bool.eq_true_of_not_eq_false hgone)] at hq
        cases hq
      have hi : i < s.calls.length := h.called i (by simp [State.order, hq])
      cases hover : S.ended s.server with
      | true =>
        have hleave := hstill .leave trivial
        simp [Service.step, hgone, hover] at hleave
      | false =>
        rcases hcall : s.calls[i] with ⟨req, pc⟩
        have hget : s.calls[i]? = some (req, pc) := by rw [List.getElem?_eq_getElem hi, hcall]
        obtain ⟨c, hserve⟩ := hready i rest req pc hq hget hover
        obtain ⟨x, hx⟩ := Option.isSome_iff_exists.1 hserve
        have hreceive := hstill (.receive c) trivial
        simp [Service.step, hq, hgone, hover, hget, hx] at hreceive
  refine ⟨hqueue, fun i req pc hcall => ?_⟩
  cases pc with
  | returned | abandoned => rfl
  | waiting =>
    have hin : i ∈ s.queue := h.knows i req _ hcall
    rw [hqueue] at hin
    cases hin
  | sending =>
    have hsend := hstill (.send i) trivial
    cases hgone : s.gone <;> simp [Service.step, hcall, hgone, hqueue, hroom] at hsend
  | answered res =>
    have hret := hstill (.ret i) trivial
    simp [Service.step, hcall] at hret
  | dropped =>
    have hret := hstill (.ret i) trivial
    simp [Service.step, hcall] at hret

end

end Service
