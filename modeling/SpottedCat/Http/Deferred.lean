import SpottedCat.Http.WorkerEnds
import SpottedCat.Worker.Moves

/-!
# Writes in the background (`default_http_client.rs:599-675`, `transfer_task.rs:29-33`, `exec.rs:234-263`)

`write_all` of a `tokio::fs::File` hands its bytes to another thread. It may return before they are written; if
that write fails, the next write through the same handle reports it, and a handle that is dropped reports
nothing. `FileOps.inBackground` is any file system with such handles.

`download_one_chunk` never flushes. Within a run each chunk but the last is followed by a write through the
same handle, so its failure ends the run; the failure of the last one is dropped with the handle, after
`Completed` was sent.

* `downloadOneChunk_owing`: a chunk that succeeds leaves at most the last write of each handle unreported;
* `completed_means_written_iff`: when `Completed` means that every write took effect;
* `last_write_decides`: the same where offsets cannot wrap around, so that a run has one handle;
* `last_write_lost`: a download of one chunk, `Completed` over an empty file.
-/

namespace SpottedCat

/-- A write of a chunk through a handle. -/
structure Write where
  handle : Nat
  tookEffect : Bool
deriving DecidableEq, Repr

structure Background (W : Type) where
  world : W
  /-- How many handles were opened; they are numbered in this order. -/
  opened : Nat
  /-- The handles with a failed write that no call has reported. -/
  unreported : List Nat
  /-- Whether the next writes report their own failures; further ones do not. -/
  prompt : List Bool
  /-- Every write of the run. -/
  writes : List Write
deriving DecidableEq, Repr

section
variable {W H α : Type}

namespace Background

/-- A call that reports no write. -/
def through (op : W → α × W) (b : Background W) : α × Background W :=
  ((op b.world).1, { b with world := (op b.world).2 })

def opening (op : W → Option H × W) (b : Background W) : Option (Nat × H) × Background W :=
  match op b.world with
  | (some f, world) => (some (b.opened, f), { b with world := world, opened := b.opened + 1 })
  | (none, world) => (none, { b with world := world })

def writing (op : W → Option Unit × W) (handle : Nat) (b : Background W) : Option Unit × Background W :=
  if handle ∈ b.unreported then
    -- an earlier failure is reported here, and nothing is written
    (none, { b with unreported := b.unreported.erase handle, writes := b.writes ++ [⟨handle, false⟩] })
  else
    match op b.world with
    | (some (), world) =>
      (some (), { b with world := world, prompt := b.prompt.tail, writes := b.writes ++ [⟨handle, true⟩] })
    | (none, world) =>
      if b.prompt.head? = some true then
        (none, { b with world := world, prompt := b.prompt.tail, writes := b.writes ++ [⟨handle, false⟩] })
      else
        (some (), { b with
          world := world
          unreported := handle :: b.unreported
          prompt := b.prompt.tail
          writes := b.writes ++ [⟨handle, false⟩] })

end Background

/-- The state of a task whose file is such a file. -/
abbrev LocalBehind (W H : Type) : Type := Local (Background W) (Nat × H)

def FileOps.inBackground (fs : FileOps W H) : FileOps (Background W) (Nat × H) where
  metadata := Background.through fs.metadata
  createDirAll parent := Background.through (fs.createDirAll parent)
  createTruncate := Background.opening fs.createTruncate
  openWrite := Background.opening fs.openWrite
  fileLen f := Background.through (fs.fileLen f.2)
  seek f pos := Background.through (fs.seek f.2 pos)
  writeAll f data := Background.writing (fs.writeAll f.2 data) f.1

/-! ## What is still to be reported -/

/-- A write that has failed is the last one of its handle, and still to be reported. -/
structure Owing (l : LocalBehind W H) : Prop where
  slot : ∀ f, l.slot = some f → f.1 < l.world.opened
  opened : ∀ w ∈ l.world.writes, w.handle < l.world.opened
  unreported : ∀ w ∈ l.world.writes, w.tookEffect = false → w.handle ∈ l.world.unreported
  last : l.world.writes.Pairwise fun w w' => w.tookEffect = false → w'.handle ≠ w.handle

/-- The same, with an open handle. -/
def OwingThrough (handle : Nat) (l : LocalBehind W H) : Prop := Owing l ∧ handle < l.world.opened

/-- A failure that is tried again leaves nothing behind. -/
def Unsettled (e : Failure) (l : LocalBehind W H) : Prop := ¬ e.Final → Owing l

variable {fs : FileOps W H} {build : Build} {task : InnerTask} {l : LocalBehind W H}

theorem Failure.Final.unsettled (e : Failure) (l : LocalBehind W H) (h : e.Final) : Unsettled e l :=
  fun hretry => absurd h hretry

theorem unsettled_io {msg : String} : Unsettled (.err (.fromCode .ioError msg)) l :=
  (final_fromCode (by decide) (by decide)).unsettled _ _

namespace Owing

/-- The world and the timing of the writes do not matter. -/
theorem world (hl : Owing l) (world : W) (prompt : List Bool) :
    Owing { l with world := { l.world with world := world, prompt := prompt } } :=
  ⟨hl.slot, hl.opened, hl.unreported, hl.last⟩

theorem opening (hl : Owing l) (world : W) :
    Owing { l with world := { l.world with world := world, opened := l.world.opened + 1 } } :=
  ⟨fun f hf => Nat.lt_succ_of_lt (hl.slot f hf), fun w hw => Nat.lt_succ_of_lt (hl.opened w hw), hl.unreported,
    hl.last⟩

theorem fill (hl : Owing l) {f : Nat × H} (hf : f.1 < l.world.opened) : Owing { l with slot := some f } := by
  refine ⟨fun f' hf' => ?_, hl.opened, hl.unreported, hl.last⟩
  cases hf'
  exact hf

/-- **One more write**, through a handle that has nothing to report. -/
theorem write (hl : Owing l) {handle : Nat} (hopen : handle < l.world.opened)
    (hhandle : handle ∉ l.world.unreported) (took : Bool) {unreported : List Nat}
    (hkept : ∀ i ∈ l.world.unreported, i ∈ unreported) (hnew : took = false → handle ∈ unreported) (world : W)
    (prompt : List Bool) :
    Owing { l with world := { l.world with
      world := world
      unreported := unreported
      prompt := prompt
      writes := l.world.writes ++ [⟨handle, took⟩] } } := by
  refine ⟨hl.slot, ?_, ?_, ?_⟩
  · intro w hw
    rcases List.mem_append.1 hw with hold | hlast
    · exact hl.opened w hold
    · rw [List.mem_singleton.1 hlast]
      exact hopen
  · intro w hw hfailed
    rcases List.mem_append.1 hw with hold | hlast
    · exact hkept _ (hl.unreported w hold hfailed)
    · rw [List.mem_singleton.1 hlast] at hfailed ⊢
      exact hnew hfailed
  · refine List.pairwise_append.2 ⟨hl.last, List.pairwise_singleton _ _, ?_⟩
    intro w hw w' hw' hfailed heq
    rw [List.mem_singleton.1 hw'] at heq
    have hstill : w.handle ∈ l.world.unreported := hl.unreported w hw hfailed
    rw [← heq] at hstill
    exact hhandle hstill

end Owing

/-! ## The file calls -/

section
variable {msg : String} {P : LocalBehind W H → Prop} {E : Failure → LocalBehind W H → Prop}

/-- A call that passes through. -/
theorem through_keeps {op : W → Option α × W} (hE : ∀ e l, Failure.Final e → E e l)
    (hP : ∀ l world, P l → P { l with world := { l.world with world := world } }) :
    Triple P (fileCall (Background.through op) (.fromCode .ioError msg)) (fun _ => P) E := by
  apply Triple.fileCall
  intro l hl
  unfold Background.through
  rcases op l.world.world with ⟨_ | a, world⟩
  · exact hE _ _ (final_fromCode (by decide) (by decide))
  · exact hP l world hl

theorem createParent_keeps {offset : Nat} (hE : ∀ e l, Failure.Final e → E e l)
    (hP : ∀ l world, P l → P { l with world := { l.world with world := world } }) :
    Triple P (createParent fs.inBackground task offset) (fun _ => P) E := by
  unfold createParent
  split
  · split
    · exact through_keeps hE hP
    · exact Triple.pure fun _ hl => hl
  · exact Triple.pure fun _ hl => hl

theorem downloadPrepare_keeps {head : Except String HeadResponse}
    (hP : ∀ l world, P l → P { l with world := { l.world with world := world } }) :
    Triple P (downloadPrepare fs.inBackground task head) (fun _ => P) (fun _ _ => True) := by
  unfold downloadPrepare
  refine Triple.bind (Q := fun _ => P) ?_ fun start => ?_
  · intro l hl
    simp only [localLen, FileOps.inBackground, Background.through]
    rcases fs.metadata l.world.world with ⟨n | _ | _, world⟩
    · exact hP l world hl
    · exact hP l world hl
    · exact trivial
  · apply Triple.lift
    intro l hl
    cases planResume start head with
    | ok plan => exact hl
    | error e => exact trivial

/-- The slot, and what is open. -/
theorem opening_owing {op : W → Option H × W} :
    Triple (Owing (H := H)) (fileCall (Background.opening op) (.fromCode .ioError msg))
      (fun f => OwingThrough f.1) Unsettled := by
  apply Triple.fileCall
  intro l hl
  unfold Background.opening
  rcases op l.world.world with ⟨_ | f, world⟩
  · exact unsettled_io
  · exact ⟨hl.opening world, Nat.lt_succ_self _⟩

/-- **A write**: either the handle had something to report, and the chunk fails, or it owes this write at
most. -/
theorem writing_owing {op : W → Option Unit × W} (handle : Nat) :
    Triple (OwingThrough (H := H) handle)
      (fileCall (Background.writing op handle) (.fromCode .ioError msg)) (fun _ => Owing) Unsettled := by
  apply Triple.fileCall
  rintro l ⟨hl, hopen⟩
  unfold Background.writing
  by_cases hhandle : handle ∈ l.world.unreported
  · rw [if_pos hhandle]
    exact unsettled_io
  · rw [if_neg hhandle]
    rcases op l.world.world with ⟨_ | ⟨⟩, world⟩
    · by_cases hprompt : l.world.prompt.head? = some true
      · simp only [if_pos hprompt]
        exact unsettled_io
      · simp only [if_neg hprompt]
        exact hl.write hopen hhandle false (fun i hi => List.mem_cons_of_mem _ hi)
          (fun _ => List.mem_cons_self) world _
    · exact hl.write hopen hhandle true (fun i hi => hi) nofun world _

theorem openSlot_owing (offset : Nat) :
    Triple Owing (openSlot fs.inBackground task offset) (fun f => OwingThrough f.1) Unsettled := by
  unfold openSlot
  by_cases hoffset : offset = 0
  · rw [if_pos hoffset]
    refine opening_owing.bind fun f => ?_
    refine Triple.bind (Q := fun _ => OwingThrough f.1) ?_ fun _ => Triple.pure fun l hl => hl
    exact Triple.modify fun l hl => ⟨hl.1.fill hl.2, hl.2⟩
  · rw [if_neg hoffset]
    refine Triple.bind (Q := fun l l' => l = l' ∧ Owing l') (Triple.get fun l hl => ⟨rfl, hl⟩) fun l => ?_
    cases hslot : l.slot with
    | some f =>
      apply Triple.pure
      rintro l' ⟨rfl, hl⟩
      exact ⟨hl, hl.slot f hslot⟩
    | none =>
      refine Triple.bind (Q := fun f => OwingThrough f.1)
        (opening_owing.mono (fun l' hl => hl.2) (fun _ _ h => h) fun _ _ h => h) fun f => ?_
      refine Triple.bind (Q := fun _ => OwingThrough f.1)
        (through_keeps Failure.Final.unsettled fun l world hl => ⟨hl.1.world world _, hl.2⟩) fun localLen => ?_
      split
      · exact Triple.lift fun l hl _ => hl.1
      · refine Triple.bind (Q := fun _ => OwingThrough f.1) ?_ fun _ => Triple.pure fun l hl => hl
        exact Triple.modify fun l hl => ⟨hl.1.fill hl.2, hl.2⟩

theorem storeChunk_owing (offset : Nat) (data : Bytes) :
    Triple Owing (storeChunk fs.inBackground task offset data) (fun _ => Owing) Unsettled := by
  unfold storeChunk
  refine (createParent_keeps Failure.Final.unsettled fun l world hl => hl.world world _).bind fun _ => ?_
  refine (openSlot_owing offset).bind fun f => ?_
  refine Triple.bind (Q := fun _ => OwingThrough f.1) ?_ fun _ => writing_owing f.1
  exact through_keeps Failure.Final.unsettled fun l world hl => ⟨hl.1.world world _, hl.2⟩

/-- **A chunk.** Whatever it ends with, a failed write is still to be reported or the chunk is not tried
again. -/
theorem downloadOneChunk_owing (server : String → Except String RangeResponse) (offset chunkSize total : Nat) :
    Triple Owing (downloadOneChunk fs.inBackground build task server offset chunkSize total) (fun _ => Owing)
      Unsettled := by
  unfold downloadOneChunk
  by_cases hoffset : offset ≥ total
  · simp only [if_pos hoffset]
    exact Triple.pure fun _ hl => hl
  · simp only [if_neg hoffset]
    refine Triple.bind (Q := fun _ => Owing) ?_ fun data => (storeChunk_owing offset data).bind fun _ => ?_
    · apply Triple.lift
      intro l hl
      cases fetchChunk build server offset chunkSize total with
      | ok data => exact hl
      | error e => exact fun _ => hl
    · refine Triple.bind (Q := fun _ => Owing) ?_ fun next => Triple.pure fun _ hl => hl
      apply Triple.lift
      intro l hl
      cases u64Add build offset data.length with
      | ok next => exact hl
      | error e => exact fun _ => hl

end

/-! ## Every run -/

/-- The world outside changes what is its own, and how soon writes fail. -/
def Outside (change : Background W → Background W) : Prop :=
  ∀ b, ∃ world prompt, change b = { b with world := world, prompt := prompt }

def OutsideAct : DriveAct (PrepareCall (Background W)) (TransferCall (Background W)) → Prop
  | .prepare call => Outside call.before
  | .chunk call => Outside call.before
  | .worker _ => True

theorem Outside.eq {change : Background W → Background W} (h : Outside change) (l : LocalBehind W H) :
    ∃ world prompt,
      l.after change = { l with world := { l.world with world := world, prompt := prompt } } := by
  obtain ⟨world, prompt, heq⟩ := h l.world
  exact ⟨world, prompt, congrArg (fun b => (⟨b, l.slot⟩ : LocalBehind W H)) heq⟩

theorem Owing.after (hl : Owing l) {change : Background W → Background W} (h : Outside change) :
    Owing (l.after change) := by
  obtain ⟨world, prompt, heq⟩ := h.eq l
  rw [heq]
  exact hl.world world prompt

variable {up : UploadOps (Background W) (Nat × H)} {decode : String → Except String DefaultUploadResp}
  {category : String}

theorem retains_owing (hdown : task.direction = .download) (startOffset : Nat) :
    Retains (defaultHttpClient fs.inBackground up build decode category) OutsideAct Owing (fun _ => Owing) task
      startOffset where
  prepare call hcall l hl := by
    rw [prepare_download hdown]
    exact downloadPrepare_keeps (fun l world hl => hl.world world _) (l.after call.before) (hl.after hcall)
  chunk call offset knownTotal hcall l hl := by
    rw [transferChunk_download hdown]
    exact downloadOneChunk_owing call.server offset task.chunkSize knownTotal (l.after call.before) (hl.after hcall)

/-- A download that is about to begin. -/
structure Drive.Fresh (r : Drive (LocalBehind W H)) : Prop where
  download : r.inner.direction = .download
  preparing : r.pc = .preparing
  sent : r.sent = []
  slot : r.loc.slot = none
  writes : r.loc.world.writes = []

theorem Drive.Fresh.owing {r : Drive (LocalBehind W H)} (h : r.Fresh) : Owing r.loc := by
  refine ⟨fun f hf => ?_, ?_, ?_, ?_⟩
  · rw [h.slot] at hf
    cases hf
  · rw [h.writes]
    exact fun w hw => nomatch hw
  · rw [h.writes]
    exact fun w hw => nomatch hw
  · rw [h.writes]
    exact List.Pairwise.nil

/-! ## One handle -/

/-- All writes so far went through the handle in the slot. -/
def ThroughSlot (l : LocalBehind W H) : Prop := ∃ f, l.slot = some f ∧ ∀ w ∈ l.world.writes, w.handle = f.1

/-- Only a chunk at offset 0 would open another handle. -/
def OneHandle (offset : Nat) (l : LocalBehind W H) : Prop :=
  l.world.writes = [] ∨ 0 < offset ∧ ThroughSlot l

theorem OneHandle.after {offset : Nat} (hl : OneHandle offset l) {change : Background W → Background W}
    (h : Outside change) : OneHandle offset (l.after change) := by
  obtain ⟨world, prompt, heq⟩ := h.eq l
  rw [heq]
  exact hl

/-- A write that was accepted. -/
theorem Background.writing_ok {op : W → Option Unit × W} {handle : Nat} {b b' : Background W}
    (h : Background.writing op handle b = (some (), b')) : ∃ took, b'.writes = b.writes ++ [⟨handle, took⟩] := by
  unfold Background.writing at h
  split at h
  · cases h
  · split at h
    · cases h
      exact ⟨true, rfl⟩
    · split at h
      · cases h
      · cases h
        exact ⟨false, rfl⟩

section
variable {msg : String} {offset : Nat} {E : Failure → LocalBehind W H → Prop}

theorem opening_unwritten {op : W → Option H × W} (hE : ∀ e l, Failure.Final e → E e l) :
    Triple (fun l => l.world.writes = []) (fileCall (Background.opening op) (.fromCode .ioError msg))
      (fun _ l => l.world.writes = []) E := by
  apply Triple.fileCall
  intro l hl
  unfold Background.opening
  rcases op l.world.world with ⟨_ | f, world⟩
  · exact hE _ _ (final_fromCode (by decide) (by decide))
  · exact hl

theorem openSlot_oneHandle (hE : ∀ e l, Failure.Final e → E e l) :
    Triple (OneHandle offset) (openSlot fs.inBackground task offset)
      (fun f l => l.slot = some f ∧ ∀ w ∈ l.world.writes, w.handle = f.1) E := by
  have hfill (f : Nat × H) : Triple (fun l => l.world.writes = [])
      (do Comp.modify fun l => { l with slot := some f }; return f)
      (fun f l => l.slot = some f ∧ ∀ w ∈ l.world.writes, w.handle = f.1) E := by
    refine Triple.bind (Q := fun _ l => l.slot = some f ∧ l.world.writes = [])
      (Triple.modify fun l hl => ⟨rfl, hl⟩) fun _ => Triple.pure ?_
    rintro l ⟨hslot, hnone⟩
    refine ⟨hslot, ?_⟩
    rw [hnone]
    exact fun w hw => nomatch hw
  unfold openSlot
  by_cases hoffset : offset = 0
  · rw [if_pos hoffset]
    have hnone (l : LocalBehind W H) (hl : OneHandle offset l) : l.world.writes = [] := by
      apply hl.resolve_right
      rintro ⟨hpos, -⟩
      omega
    exact Triple.bind ((opening_unwritten hE).mono hnone (fun _ _ h => h) fun _ _ h => h) hfill
  · rw [if_neg hoffset]
    refine Triple.bind (Q := fun l l' => l = l' ∧ OneHandle offset l') (Triple.get fun l hl => ⟨rfl, hl⟩)
      fun l => ?_
    cases hslot : l.slot with
    | some f =>
      apply Triple.pure
      rintro l' ⟨rfl, hl⟩
      refine ⟨hslot, ?_⟩
      rcases hl with hnone | ⟨-, f', hf', hall⟩
      · rw [hnone]
        exact fun w hw => nomatch hw
      · obtain rfl : f' = f := Option.some.inj (hf'.symm.trans hslot)
        exact hall
    | none =>
      have hnone (l' : LocalBehind W H) (hl : l = l' ∧ OneHandle offset l') : l'.world.writes = [] := by
        obtain ⟨rfl, hl⟩ := hl
        apply hl.resolve_right
        rintro ⟨-, f, hf, -⟩
        rw [hslot] at hf
        cases hf
      refine Triple.bind ((opening_unwritten hE).mono hnone (fun _ _ h => h) fun _ _ h => h) fun f => ?_
      refine Triple.bind (through_keeps hE fun l world hl => hl) fun localLen => ?_
      split
      · exact Triple.lift fun l hl => hE _ _ (final_fromCode (by decide) (by decide))
      · exact hfill f

theorem storeChunk_oneHandle (hsigned : fs.Signed) (data : Bytes) (hE : ∀ e l, Failure.Final e → E e l) :
    Triple (OneHandle offset) (storeChunk fs.inBackground task offset data)
      (fun _ l => ThroughSlot l ∧ offset ≤ i64Max) E := by
  unfold storeChunk
  refine (createParent_keeps hE fun l world hl => hl).bind fun _ => (openSlot_oneHandle hE).bind fun f => ?_
  refine Triple.bind
    (Q := fun _ l => (l.slot = some f ∧ ∀ w ∈ l.world.writes, w.handle = f.1) ∧ offset ≤ i64Max) ?_ fun _ => ?_
  · apply Triple.fileCall
    intro l hl
    simp only [FileOps.inBackground, Background.through]
    rcases hseek : fs.seek f.2 offset l.world.world with ⟨_ | ⟨⟩, world⟩
    · exact hE _ _ (final_fromCode (by decide) (by decide))
    · exact ⟨hl, hsigned f.2 offset _ _ hseek⟩
  · apply Triple.fileCall
    rintro l ⟨⟨hslot, hall⟩, hle⟩
    rcases hwrite : fs.inBackground.writeAll f data l.world with ⟨_ | ⟨⟩, b⟩
    · exact hE _ _ (final_fromCode (by decide) (by decide))
    · obtain ⟨took, hwrites⟩ := Background.writing_ok hwrite
      refine ⟨⟨f, hslot, ?_⟩, hle⟩
      intro w hw
      have hw' : w ∈ l.world.writes ++ [⟨f.1, took⟩] := hwrites ▸ hw
      rcases List.mem_append.1 hw' with hold | hlast
      · exact hall w hold
      · rw [List.mem_singleton.1 hlast]

/-- **A chunk** goes through the same handle as the one before, and the next offset is not 0. -/
theorem downloadOneChunk_oneHandle (hsigned : fs.Signed) {call : TransferCall (Background W)}
    (hcall : call.InMemory) (offset chunkSize total : Nat) :
    Triple (OneHandle offset) (downloadOneChunk fs.inBackground build task call.server offset chunkSize total)
      (fun outcome => OneHandle outcome.nextOffset) (fun e l => ¬ e.Final → OneHandle offset l) := by
  have hE (e : Failure) (l : LocalBehind W H) (h : e.Final) : ¬ e.Final → OneHandle offset l :=
    fun hnot => absurd h hnot
  unfold downloadOneChunk
  by_cases hoffset : offset ≥ total
  · simp only [if_pos hoffset]
    exact Triple.pure fun _ hl => hl
  · simp only [if_neg hoffset]
    refine Triple.bind
      (Q := fun data l => (data ≠ [] ∧ data.length ≤ i64Max) ∧ OneHandle offset l) ?_ fun data => ?_
    · apply Triple.lift
      intro l hl
      cases hfetch : fetchChunk build call.server offset chunkSize total with
      | ok data =>
        obtain ⟨hne, spec, resp, hresp, hbody⟩ := fetchChunk_received hfetch
        exact ⟨⟨hne, hcall spec resp data hresp hbody⟩, hl⟩
      | error e => exact fun _ => hl
    · apply Triple.assuming
      rintro ⟨hne, hlen⟩
      refine (storeChunk_oneHandle hsigned data hE).bind fun _ => ?_
      refine Triple.bind (Q := fun next l => 0 < next ∧ ThroughSlot l) ?_ fun next =>
        Triple.pure fun l hl => .inr hl
      apply Triple.lift
      rintro l ⟨hthrough, hle⟩
      have hsum : offset + data.length < u64Max := by
        have hbound : i64Max + i64Max < u64Max := by decide
        omega
      have hdata : 0 < data.length := List.length_pos_iff.2 hne
      rw [u64Add_of_lt hsum]
      exact ⟨by omega, hthrough⟩

end

theorem retains_oneHandle (hdown : task.direction = .download) (hsigned : fs.Signed) (startOffset : Nat) :
    Retains (defaultHttpClient fs.inBackground up build decode category) (fun a => OutsideAct a ∧ InMemoryAct a)
      (fun l => l.world.writes = []) OneHandle task startOffset where
  prepare call hcall := by
    have hkeeps : Triple (fun l => l.world.writes = []) (downloadPrepare fs.inBackground task call.head)
        (fun outcome => OneHandle outcome.nextOffset) (fun _ _ => True) :=
      (downloadPrepare_keeps fun l world hl => hl).mono (fun _ hl => hl) (fun _ l hl => .inl hl) fun _ _ h => h
    intro l hl
    rw [prepare_download hdown]
    obtain ⟨world, prompt, heq⟩ := hcall.1.eq l
    rw [heq]
    exact hkeeps _ hl
  chunk call offset knownTotal hcall l hl := by
    rw [transferChunk_download hdown]
    exact downloadOneChunk_oneHandle hsigned hcall.2 offset task.chunkSize knownTotal (l.after call.before)
      (hl.after hcall.1)

/-! ## Every run -/

/-- The last write through each handle took effect. -/
def LastWritesHold (writes : List Write) : Prop :=
  ∀ before w after, writes = before ++ w :: after → (∀ w' ∈ after, w'.handle ≠ w.handle) → w.tookEffect = true

/-- Only the last write of a handle is in doubt. -/
theorem Owing.all_iff (hl : Owing l) :
    (∀ w ∈ l.world.writes, w.tookEffect = true) ↔ LastWritesHold l.world.writes := by
  constructor
  · rintro h before w after heq -
    apply h
    rw [heq]
    exact List.mem_append_right _ List.mem_cons_self
  · intro h w hw
    by_contra hfailed
    obtain ⟨before, after, heq⟩ := List.mem_iff_append.1 hw
    have hpairs := hl.last
    rw [heq, List.pairwise_append, List.pairwise_cons] at hpairs
    have hlater : ∀ w' ∈ after, w'.handle ≠ w.handle :=
      fun w' hw' => hpairs.2.1.1 w' hw' (Bool.eq_false_iff.2 hfailed)
    exact hfailed (h before w after heq hlater)

variable {r s : Drive (LocalBehind W H)}
  {acts : List (DriveAct (PrepareCall (Background W)) (TransferCall (Background W)))}

theorem Drive.Fresh.owing_of_run (hr : r.Fresh) (hacts : ∀ a ∈ acts, OutsideAct a)
    (h : Lts.run (Drive.step (defaultHttpClient fs.inBackground up build decode category)) r acts = some s)
    (hcompleted : CompletedIn s.sent) : Owing s.loc := by
  obtain ⟨offset, howing⟩ := Drive.upto_run (retains_owing hr.download r.startOffset) hr.preparing hr.sent
    hr.owing hacts h hcompleted
  exact howing

/-- **The last write decides**, where positions are signed and bodies are in memory: then all writes go through
one handle. -/
theorem last_write_decides (hr : r.Fresh) (hsigned : fs.Signed) (hacts : ∀ a ∈ acts, OutsideAct a ∧ InMemoryAct a)
    (h : Lts.run (Drive.step (defaultHttpClient fs.inBackground up build decode category)) r acts = some s)
    (hcompleted : CompletedIn s.sent) :
    (∀ w ∈ s.loc.world.writes, w.tookEffect = true) ↔
      ∀ w, s.loc.world.writes.getLast? = some w → w.tookEffect = true := by
  have howing := hr.owing_of_run (fun a ha => (hacts a ha).1) h hcompleted
  obtain ⟨offset, hone⟩ := Drive.upto_run (retains_oneHandle hr.download hsigned r.startOffset) hr.preparing
    hr.sent hr.writes hacts h hcompleted
  rw [howing.all_iff]
  constructor
  · intro hlast w hw
    obtain ⟨before, heq⟩ := List.getLast?_eq_some_iff.1 hw
    exact hlast before w [] heq nofun
  · intro hlast before w after heq hlater
    cases after with
    | nil => exact hlast w (by rw [heq, List.getLast?_append_of_ne_nil _ (by simp)]; rfl)
    | cons w' after =>
      rcases hone with hnone | ⟨-, f, -, hall⟩
      · rw [hnone] at heq
        simp at heq
      · rw [heq] at hall
        have hw := hall w (by simp)
        have hw' := hall w' (by simp)
        exact absurd (hw'.trans hw.symm) (hlater w' List.mem_cons_self)

/-- **Completed, and written.** In every download that sends `Completed`, over any file system and against any
server, every write took effect exactly if the last one through each handle did. -/
theorem completed_means_written_iff (hr : r.Fresh) (hacts : ∀ a ∈ acts, OutsideAct a)
    (h : Lts.run (Drive.step (defaultHttpClient fs.inBackground up build decode category)) r acts = some s)
    (hcompleted : CompletedIn s.sent) :
    (∀ w ∈ s.loc.world.writes, w.tookEffect = true) ↔ LastWritesHold s.loc.world.writes :=
  (hr.owing_of_run hacts h hcompleted).all_iff

end

/-! ### A download of one chunk -/

/-- Four bytes in a single chunk, to a file that is not there. -/
def sampleBehind : Drive (LocalBehind Disk Unit) where
  inner := { DownloadRun.sampleDownload with chunkSize := 4 }
  startOffset := 0
  pc := .preparing
  loc := ⟨⟨⟨none, 0, [], false⟩, 0, [], [], []⟩, none⟩
  last := 0
  sent := []

/-- The answer with all four bytes. -/
def sampleAll : RangeResponse where
  status := ⟨206, "206 Partial Content"⟩
  contentRange := some "bytes 0-3/4"
  text := ""
  body := .ok [1, 2, 3, 4]

/-- What is planned for the file calls of the chunk. -/
def plannedBehind (faults : List (Option Fault)) (b : Background Disk) : Background Disk :=
  { b with world := planned faults b.world }

def behindActs (faults : List (Option Fault)) :
    List (DriveAct (PrepareCall (Background Disk)) (TransferCall (Background Disk))) :=
  [.prepare ⟨id, .ok ⟨⟨200, "200 OK"⟩, some "4"⟩⟩, .worker (.token false), .worker (.attempt (.token false)),
    .chunk ⟨plannedBehind faults, fun _ => .ok sampleAll⟩, .worker .sent, .worker .sent]

theorem behindActs_outside (faults : List (Option Fault)) : ∀ a ∈ behindActs faults, OutsideAct a := by
  simp only [behindActs, List.forall_mem_cons, OutsideAct, true_and]
  exact ⟨fun b => ⟨_, _, rfl⟩, fun b => ⟨_, _, rfl⟩, fun a ha => nomatch ha⟩

/-- This client over the immediate file system with handles that write in the background. -/
def behindClient :
    TransferTrait (LocalBehind Disk Unit) (PrepareCall (Background Disk)) (TransferCall (Background Disk)) :=
  defaultHttpClient Disk.ops.inBackground
    ⟨fun b => (none, b), fun _ _ b => (none, b), fun _ _ b => (none, b), fun _ b => (.error "not connected", b)⟩
    .debug sampleDecode ""

/-- The directory, the file and the seek are fine, and so is the write. -/
theorem completed_means_written_iff_fine :
    let s := Lts.final (Drive.step behindClient) sampleBehind (behindActs [])
    CompletedIn s.sent ∧ s.loc.world.writes = [⟨0, true⟩] ∧ ∀ w ∈ s.loc.world.writes, w.tookEffect = true := by
  intro s
  have hrun : Lts.run (Drive.step behindClient) sampleBehind (behindActs []) = some s := Lts.run_final (by decide)
  have hcompleted : CompletedIn s.sent := ⟨sampleBehind.inner.dedupeKey, 4, by decide⟩
  have hwrites : s.loc.world.writes = [⟨0, true⟩] := by decide
  refine ⟨hcompleted, hwrites, ?_⟩
  have hiff := completed_means_written_iff ⟨rfl, rfl, rfl, rfl, rfl⟩ (behindActs_outside []) hrun hcompleted
  rw [hiff, hwrites]
  intro before w after heq hlater
  have hw : w ∈ [(⟨0, true⟩ : Write)] := by
    rw [heq]
    exact List.mem_append_right _ List.mem_cons_self
  rw [List.mem_singleton.1 hw]

/-- The write of the only chunk fails in the background: the run completes over an empty file. -/
theorem last_write_lost :
    let s := Lts.final (Drive.step behindClient) sampleBehind (behindActs [none, none, none, some ⟨0⟩])
    Lts.run (Drive.step behindClient) sampleBehind (behindActs [none, none, none, some ⟨0⟩]) = some s ∧
      sampleBehind.Fresh ∧ (∀ a ∈ behindActs [none, none, none, some ⟨0⟩], OutsideAct a) ∧ CompletedIn s.sent ∧
      (¬ ∀ w ∈ s.loc.world.writes, w.tookEffect = true) ∧ s.loc.world.world.file = some [] := by
  intro s
  exact ⟨Lts.run_final (by decide), ⟨rfl, rfl, rfl, rfl, rfl⟩, behindActs_outside _,
    ⟨sampleBehind.inner.dedupeKey, 4, by decide⟩, by decide, by decide⟩

end SpottedCat
