import SpottedCat.Lib.Observers
import SpottedCat.Sched.Loop

/-!
# The global listeners under their lock (`meow_client.rs:90-146`, `exec_impl/emit.rs:19-40`)

| here | there |
| --- | --- |
| `Listening`      | the `Arc<RwLock<Vec<..>>>` that all clones of a client and all their schedulers share, and the threads that use it |
| `start` to `finish` | one `emit_global_progress`: read guard, clone of the `Arc`s, guard dropped, one call after the other |
| `lockEdit`, `edit`  | a register, unregister or clear, by a client or by a listener that is being called |
| `ListenerOp.edit`   | what they do to the list |

`Loop` takes the edits between two of its iterations and a whole broadcast as one effect. Here they come in between,
and a listener may do what it likes to the list before it returns, or panics, which `invoke_progress_cb` catches.

What runs under the write guard is no user's code, with two exceptions: an unregister drops the listener it takes out
if nobody else holds it (meow_client.rs:121), as a clear does with all of them (:144), and an unregister calls the
debug log listener (:122, :129). Neither is taken to touch the list, nor to panic. So no thread panics with the guard,
and the lock is never poisoned: the branches for that (:99-104, :114-119, :138-143, emit.rs:23-29) are left out.

* `listeners_exact`: a broadcast is `emitGlobalProgress` of the list as it was when the guard was held; and once an
  unregister or clear has taken a listener out, each scheduler calls it at most once more;
* `listeners_never_block`: neither a broadcast nor an edit waits for ever.
-/

namespace SpottedCat

open Observers

/-- meow_client.rs:105, :120-121, :144 -/
def ListenerOp.edit : ListenerOp → Edit GlobalProgressListenerId ProgressCb
  | .register id cb => .add id cb
  | .unregister id => .drop id
  | .clear => .clear

theorem ListenerOp.edit_apply (ls : List (GlobalProgressListenerId × ProgressCb)) (op : ListenerOp) :
    op.edit.apply ls = op.apply ls := by
  cases op <;> rfl

abbrev Listening (n : Nat) := Observers.State n GlobalProgressListenerId ProgressCb FileTransferRecord

abbrev ListeningAct (n : Nat) := Observers.Act n GlobalProgressListenerId ProgressCb FileTransferRecord

/-- A call of a listener, as the loop has it. -/
def broadcastOf (c : FileTransferRecord × GlobalProgressListenerId × ProgressCb) : Effect :=
  .broadcast c.2.1 c.2.2 c.1

/-- A broadcast of the loop is one that copies the loop's list. -/
theorem emitGlobalProgress_eq (state : SchedulerState) (dto : FileTransferRecord) :
    emitGlobalProgress state dto =
      (state.globalProgressListener.map fun o => (dto, o)).map broadcastOf := by
  rw [List.map_map]
  rfl

section
variable {n : Nat} {s : Listening n} {acts : List (ListeningAct n)}

/-- **Listeners hear each record once.** For any number of threads that broadcast, register, unregister and clear in
any interleaving, with listeners that edit the list themselves: what a thread has called, and is still to call, is
what `emit_global_progress` does to the lists that it copied; each of these is the list as the edits before had made
it; and a listener that an edit has taken out is called by each thread at most once more, for the record that the
thread was broadcasting then. -/
theorem listeners_exact (hrun : Lts.run Observers.step Observers.init acts = some s) :
    (∀ i (state : SchedulerState), (callsOf i s.log ++ pending (s.cast i)).map broadcastOf =
      (copiesOf i s.log).flatMap fun c => emitGlobalProgress { state with globalProgressListener := c.2 } c.1) ∧
    (∀ before i dto copy after, s.log = before ++ .copied i dto copy :: after → copy = listAfter before) ∧
    ∀ before a more s0 s1 id, acts = before ++ a :: more →
      Lts.run Observers.step Observers.init before = some s0 → id ∈ s0.list.map Prod.fst →
      Observers.step s0 a = some s1 → id ∉ s1.list.map Prod.fst → ∀ i, ∃ late,
        callsTo i id s.log = callsTo i id s1.log ++ late ∧ late.length ≤ 1 ∧ ∀ c ∈ late, c ∈ pending (s1.cast i) := by
  have hfaithful := run_faithful hrun
  refine ⟨fun i state => ?_, hfaithful.copied, ?_⟩
  · rw [hfaithful.called i, List.map_flatMap]
    simp only [emitGlobalProgress_eq]
  · rintro before a more s0 s1 id rfl hbefore hin hstep hout i
    obtain ⟨mid, hmid, hrest⟩ := Lts.run_append.1 hrun
    rw [hbefore] at hmid
    cases hmid
    obtain ⟨next, hnext, hmore⟩ := Lts.run_cons.1 hrest
    rw [hstep] at hnext
    cases hnext
    exact run_gone hbefore hin hstep hout hmore i

/-- **Nobody waits for ever** at the lock. In every reachable state a thread that has the lock can let it go without
another; unless all are done some thread can go on; and there is no endless run in which nothing new is begun, however
much the listeners do to the list. -/
theorem listeners_never_block (hrun : Lts.run Observers.step Observers.init acts = some s) :
    (∀ i, (i ∈ s.readers → ∃ s', Observers.step s (.copy i) = some s') ∧
      (s.writer = some i → ∃ s', Observers.step s (.edit i) = some s')) ∧
    (¬ s.Idle → ∃ a s', Act.own a = true ∧ Observers.step s a = some s') ∧
    ∀ run : ℕ → Listening n, run 0 = s →
      ¬ ∀ m, ∃ a, Act.own a = true ∧ Observers.step (run m) a = some (run (m + 1)) := by
  have hsound := run_sound hrun
  exact ⟨hsound.unlocks, hsound.progress, fun run _ => no_endless_run run⟩

end

/-- A record for runs on fixed inputs. -/
def sampleRecord : FileTransferRecord := toRecordInner (sampleTask 0) .transmission 4 8

/-- Thread 1 registers two listeners, and will unregister the first when thread 0 has copied the list. -/
def copyThenDrop : List (ListeningAct 2) :=
  [.ask 1 [(ListenerOp.register ⟨0⟩ ⟨0⟩).edit, (ListenerOp.register ⟨1⟩ ⟨1⟩).edit], .lockEdit 1, .edit 1, .lockEdit 1,
    .edit 1, .start 0 sampleRecord, .lock 0, .copy 0, .ask 1 [(ListenerOp.unregister ⟨0⟩).edit], .lockEdit 1]

/-- The first is called after it is out, and registers a third. -/
def lateCall : List (ListeningAct 2) :=
  copyThenDrop ++ .edit 1 :: [.call 0 [(ListenerOp.register ⟨2⟩ ⟨2⟩).edit], .lockEdit 0]

theorem listeners_exact_late : ∃ (s s1 : Listening 2) (late : _),
    Lts.run Observers.step Observers.init lateCall = some s ∧
      callsTo 0 ⟨0⟩ s.log = callsTo 0 ⟨0⟩ s1.log ++ late ∧ late.length ≤ 1 ∧
      callsTo 0 ⟨0⟩ s1.log = [] ∧ (callsTo 0 ⟨0⟩ s.log).length = 1 := by
  have hrun : Lts.run Observers.step Observers.init lateCall = some _ := Lts.run_final (by decide)
  have hbefore : Lts.run Observers.step Observers.init copyThenDrop = some _ := Lts.run_final (by decide)
  have hstep : Observers.step (Lts.final Observers.step Observers.init copyThenDrop) (.edit 1) = some _ := rfl
  obtain ⟨late, hcalls, hlate, -⟩ :=
    (listeners_exact hrun).2.2 _ _ _ _ _ ⟨0⟩ rfl hbefore (by decide) hstep (by decide) 0
  exact ⟨_, _, late, hrun, hcalls, hlate, rfl, by decide⟩

/-- There thread 1 has the lock. -/
theorem listeners_never_block_locked : ∃ s : Listening 2,
    Lts.run Observers.step Observers.init copyThenDrop = some s ∧ s.writer = some 1 ∧
      ∃ s', Observers.step s (.edit 1) = some s' := by
  have hrun : Lts.run Observers.step Observers.init copyThenDrop = some _ := Lts.run_final (by decide)
  have hlocked : (Lts.final Observers.step (Observers.init : Listening 2) copyThenDrop).writer = some 1 := by decide
  exact ⟨_, hrun, hlocked, ((listeners_never_block hrun).1 1).2 hlocked⟩

end SpottedCat
