import SpottedCat.Data.Error
import SpottedCat.Lib.Triple

/-!
# The local file of a task

`FileOps` are the `tokio::fs` calls of a download on its one file, over any file system state `W` and
any handle `H`; `Local` and `fileCall` serve uploads as well. `Disk.ops` is the immediate file system: a
call takes effect when it returns, and nobody else touches the file. Each call may fail, as a plan of
faults says; a failing write may have written some of its bytes.
-/

namespace SpottedCat

abbrev Bytes := List UInt8

inductive StatResult where
  | len (n : Nat)
  | notFound
  | failed
deriving DecidableEq, Repr

/-- `none` is a failed call; its `io::Error` becomes the `source` of a `MeowError`, which nothing
reads. -/
structure FileOps (W H : Type) where
  /-- `tokio::fs::metadata(path)` -/
  metadata : W → StatResult × W
  /-- `tokio::fs::create_dir_all(parent)` -/
  createDirAll : String → W → Option Unit × W
  /-- `OpenOptions` with `write`, `create` and `truncate` -/
  createTruncate : W → Option H × W
  /-- `OpenOptions` with `write` and `create` -/
  openWrite : W → Option H × W
  /-- `opened.metadata()` -/
  fileLen : H → W → Option Nat × W
  seek : H → Nat → W → Option Unit × W
  writeAll : H → Bytes → W → Option Unit × W

/-- What a call of the executor works on: the world outside, and the slot of the task's open file
(transfer_task.rs:30, :32), empty when the task starts. -/
structure Local (W H : Type) where
  world : W
  slot : Option H

/-- A file call, reported as `e` when it fails. -/
def fileCall {W H α : Type} (op : W → Option α × W) (e : MeowError) : Comp (Local W H) Failure α :=
  fun l =>
    match op l.world with
    | (some a, world) => (.ok a, { l with world := world })
    | (none, world) => (.error (.err e), { l with world := world })

theorem fileCall_eq_ok {W H α : Type} {op : W → Option α × W} {e : MeowError} {l l' : Local W H} {a : α} :
    fileCall op e l = (.ok a, l') ↔ op l.world = (some a, l'.world) ∧ l.slot = l'.slot := by
  obtain ⟨world, slot⟩ := l
  obtain ⟨world', slot'⟩ := l'
  unfold fileCall
  rcases op world with ⟨_ | b, w⟩
  · simp
  · simp [and_assoc]

/-! ## The immediate file system -/

/-- How a call fails: for a write, after `written` of its bytes. -/
structure Fault where
  written : Nat
deriving DecidableEq, Repr

structure Disk where
  file : Option Bytes
  /-- Position of the open handle. -/
  cursor : Nat
  /-- The outcomes of the next calls; further ones succeed. -/
  faults : List (Option Fault)
  /-- A write has failed after writing a part of its bytes, and none has succeeded since. -/
  torn : Bool
deriving DecidableEq, Repr

/-- Writing at a position, over a hole of zeros if it is past the end. -/
def writeAt (bs : Bytes) (pos : Nat) (data : Bytes) : Bytes :=
  bs.take pos ++ List.replicate (pos - bs.length) 0 ++ data ++ bs.drop (pos + data.length)

namespace Disk

/-- The file, empty if there is none. -/
def content (d : Disk) : Bytes := d.file.getD []

/-- The outcome of the next call. -/
def fault (d : Disk) : Option Fault := d.faults.head?.join

def next (d : Disk) : Disk := { d with faults := d.faults.tail }

def orFail {α : Type} (d : Disk) (ok : α × Disk) : Option α × Disk :=
  match d.fault with
  | some _ => (none, d.next)
  | none => (some ok.1, ok.2)

def ops : FileOps Disk Unit where
  metadata d :=
    match d.fault, d.file with
    | some _, _ => (.failed, d.next)
    | none, some bs => (.len bs.length, d.next)
    | none, none => (.notFound, d.next)
  createDirAll _ d := d.orFail ((), d.next)
  createTruncate d := d.orFail ((), { d.next with file := some [], cursor := 0 })
  openWrite d := d.orFail ((), { d.next with file := some d.content, cursor := 0 })
  fileLen _ d := d.orFail (d.content.length, d.next)
  seek _ pos d := d.orFail ((), { d.next with cursor := pos })
  writeAll _ data d :=
    match d.fault with
    | some fault =>
      let part := data.take fault.written
      (none, { d.next with
        file := some (writeAt d.content d.cursor part)
        torn := d.torn || part ≠ [] })
    | none =>
      (some (), { d.next with
        file := some (writeAt d.content d.cursor data)
        cursor := d.cursor + data.length
        torn := false })

end Disk

/-- Writes take effect as a whole or not at all. -/
def WholeWrites (faults : List (Option Fault)) : Prop :=
  ∀ fault, some fault ∈ faults → fault.written = 0

theorem WholeWrites.tail {faults : List (Option Fault)} (h : WholeWrites faults) :
    WholeWrites faults.tail :=
  fun fault hmem => h fault (List.mem_of_mem_tail hmem)

theorem WholeWrites.fault {d : Disk} {fault : Fault} (h : WholeWrites d.faults)
    (hfault : d.fault = some fault) : fault.written = 0 :=
  h fault (List.mem_of_head? (Option.join_eq_some_iff.1 hfault))

/-- Appending at the end. -/
theorem writeAt_length (bs data : Bytes) : writeAt bs bs.length data = bs ++ data := by
  simp [writeAt]

section
variable {W H α : Type}

/-- **A file call in a triple.** -/
theorem Triple.fileCall {P : Local W H → Prop} {Q : α → Local W H → Prop}
    {E : Failure → Local W H → Prop} {op : W → Option α × W} {e : MeowError}
    (h : ∀ l, P l → match op l.world with
      | (some a, world) => Q a { l with world := world }
      | (none, world) => E (.err e) { l with world := world }) :
    Triple P (SpottedCat.fileCall op e) Q E := by
  intro l hl
  have h1 := h l hl
  unfold SpottedCat.fileCall
  rcases hop : op l.world with ⟨o, world⟩
  rw [hop] at h1
  cases o <;> exact h1

/-- A call of the immediate file system that fails without a trace. -/
theorem Triple.orFail {P : Local Disk H → Prop} {Q : α → Local Disk H → Prop}
    {E : Failure → Local Disk H → Prop} {e : MeowError} {op : Disk → α × Disk}
    (hok : ∀ l, P l → Q (op l.world).1 { l with world := (op l.world).2 })
    (hfail : ∀ l, P l → E (.err e) { l with world := l.world.next }) :
    Triple P (SpottedCat.fileCall (fun d => d.orFail (op d)) e) Q E := by
  refine Triple.fileCall fun l hl => ?_
  unfold Disk.orFail
  cases l.world.fault with
  | some fault => exact hfail l hl
  | none => exact hok l hl

/-- A call of the immediate file system that does not fail. -/
theorem Triple.orFail_quiet {P : Local Disk H → Prop} {Q : α → Local Disk H → Prop}
    {E : Failure → Local Disk H → Prop} {e : MeowError} {op : Disk → α × Disk}
    (hquiet : ∀ l, P l → l.world.faults = [])
    (hok : ∀ l, P l → Q (op l.world).1 { l with world := (op l.world).2 }) :
    Triple P (SpottedCat.fileCall (fun d => d.orFail (op d)) e) Q E := by
  refine Triple.fileCall fun l hl => ?_
  have hfault : l.world.fault = none := by rw [Disk.fault, hquiet l hl]; rfl
  unfold Disk.orFail
  rw [hfault]
  exact hok l hl

end

end SpottedCat
