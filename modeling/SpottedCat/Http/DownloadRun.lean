import SpottedCat.Http.DownloadSpec

/-!
# Resuming a download over many runs

Runs of `run_group` over the HTTP executor, one after the other on the same local file: each prepares,
loops over chunks with retries, and ends by completion, an error, a panic or a cancel. The server may
answer each request as it likes, within `HonestHead` and `HonestServer`.

`downloads_keeps` is what one call of the executor keeps; `download_resumes` is what the loop makes of
it, for the file after any number of runs.
-/

namespace SpottedCat

/-- The outcomes of the next file calls. -/
def Local.plan (l : Local Disk Unit) (faults : List (Option Fault)) : Local Disk Unit :=
  { l with world := { l.world with faults := faults } }

@[simp] theorem Local.plan_content (l : Local Disk Unit) (faults : List (Option Fault)) :
    (l.plan faults).world.content = l.world.content := rfl

/-- The downloads of `DefaultHttpClient` (default_http_client.rs:700-744): in each call, the file calls
fail as planned and the server answers as given. -/
def downloads (build : Build) :
    TransferTrait (Local Disk Unit) (List (Option Fault) × Except String HeadResponse)
      (List (Option Fault) × (String → Except String RangeResponse)) where
  prepare task _ call := fun l => downloadPrepare Disk.ops task call.2 (l.plan call.1)
  transferChunk task offset chunkSize remoteTotalSize call := fun l =>
    downloadOneChunk Disk.ops build task call.2 offset chunkSize remoteTotalSize (l.plan call.1)

abbrev DownloadRun := Drive (Local Disk Unit)

inductive DownloadAct where
  /-- A run begins, with the empty slot of a new `TransferTask` (exec.rs:158). -/
  | start (inner : InnerTask) (startOffset : Nat)
  | run (a : DriveAct (List (Option Fault) × Except String HeadResponse)
      (List (Option Fault) × (String → Except String RangeResponse)))

namespace DownloadRun

/-- Before the first run. -/
def init (inner : InnerTask) (file : Option Bytes) : DownloadRun where
  inner := inner
  startOffset := 0
  pc := .ended
  loc := ⟨⟨file, 0, [], false⟩, none⟩
  last := (file.getD []).length
  sent := []

def step (build : Build) (r : DownloadRun) : DownloadAct → Option DownloadRun
  | .start inner startOffset =>
    if r.pc = .ended ∧ inner.direction = .download then
      some { r with
        inner := inner
        startOffset := startOffset
        pc := .preparing
        loc := { r.loc with slot := none } }
    else none
  | .run a => Drive.step (downloads build) r a

end DownloadRun

/-! ## What one call keeps -/

def HonestCall (R : Bytes) :
    DriveAct (List (Option Fault) × Except String HeadResponse)
      (List (Option Fault) × (String → Except String RangeResponse)) → Prop
  | .prepare (_, head) => HonestHead R head
  | .chunk (_, server) => HonestServer R server
  | .worker _ => True

def AtomicCall :
    DriveAct (List (Option Fault) × Except String HeadResponse)
      (List (Option Fault) × (String → Except String RangeResponse)) → Prop
  | .prepare (faults, _) | .chunk (faults, _) => WholeWrites faults
  | .worker _ => True

/-- Offset and total as the loop of `run_group` carries them, against the file and the resource. -/
structure Tracks (R bs : Bytes) (offset knownTotal : Nat) : Prop where
  offset : offset = bs.length
  total : knownTotal = R.length
  nonempty : 0 < R.length
  bounded : R.length < u64Max

/-- The file against the resource and the `next_offset` of the last chunk that succeeded. -/
structure Resumable (R : Bytes) (atomic : Prop) (d : Disk) (last : Nat) : Prop where
  content : d.content <+: R
  length : d.torn = false → d.content.length = last
  whole : atomic → d.torn = false

def downloadInv (R : Bytes) (atomic : Prop) : CallInv (Local Disk Unit) where
  always l last := Resumable R atomic l.world last
  ready _ := True
  between offset knownTotal l := Tracks R l.world.content offset knownTotal
  whole l := l.world.content = R ∧ R ≠ []

/-- The file only grows within `R`, so it stays complete. -/
theorem complete_grow {R bs part : Bytes} (h : bs ++ part <+: R) (hwhole : bs = R ∧ R ≠ []) :
    bs ++ part = R ∧ R ≠ [] := by
  obtain ⟨rfl, hne⟩ := hwhole
  exact ⟨h.eq_of_length_le (by simp), hne⟩

variable {R : Bytes} {atomic : Prop} {build : Build}

/-- Planned faults are no part of what the file holds. -/
theorem Holds.plan {l l0 : Local Disk Unit} {faults : List (Option Fault)}
    (hfaults : atomic → WholeWrites faults) (h : l = l0) :
    Holds atomic l0.world.content l0.world.torn (l.plan faults) := by
  subst h
  exact ⟨rfl, rfl, hfaults⟩

theorem downloads_keeps (inner : InnerTask) (startOffset : Nat) :
    Keeps (downloads build) (downloadInv R atomic) (fun a => HonestCall R a ∧ (atomic → AtomicCall a)) inner
      startOffset where
  prepare := by
    rintro ⟨faults, head⟩ l last ⟨hhead, hatomic⟩ hl -
    have hkept : ∀ l', Holds atomic l.world.content l.world.torn l' →
        (downloadInv R atomic).always l' last ∧
          ((downloadInv R atomic).whole l → (downloadInv R atomic).whole l') := by
      intro l' hl'
      refine ⟨⟨?_, fun ht => ?_, fun ha => hl'.torn.trans (hl.whole ha)⟩, fun hwhole => ?_⟩
      · rw [hl'.content]
        exact hl.content
      · rw [hl'.content]
        exact hl.length (hl'.torn ▸ ht)
      · exact ⟨hl'.content.trans hwhole.1, hwhole.2⟩
    refine ((downloadPrepare_spec inner hhead).precomp fun _ => Holds.plan hatomic).mono (fun _ h => h) ?_
      fun _ l' h => hkept l' h
    rintro outcome l' ⟨⟨rfl, hpos, hlt⟩, hl'⟩
    obtain ⟨halways, hwhole⟩ := hkept l' hl'
    exact ⟨halways, hwhole, congrArg List.length hl'.content.symm, if_pos hpos, hpos, hlt⟩
  chunk := by
    rintro ⟨faults, server⟩ l last offset knownTotal ⟨hserver, hatomic⟩ hl ⟨rfl, rfl, hpos, hlt⟩
    refine ((downloadOneChunk_spec build inner inner.chunkSize hserver hl.content hlt).precomp
      fun _ => Holds.plan hatomic).mono (fun _ h => h) ?_ ?_
    · rintro outcome l' ⟨data, hdata, hcontent, htorn, rfl⟩
      refine ⟨⟨hcontent ▸ hdata, fun _ => congrArg List.length hcontent, fun ha => htorn (hl.whole ha)⟩,
        fun hwhole => ?_, ?_, fun hdone => ?_⟩
      · exact ⟨hcontent.trans (complete_grow hdata hwhole).1, hwhole.2⟩
      · exact ⟨congrArg List.length hcontent.symm, if_pos hpos, hpos, hlt⟩
      · have heq := hdata.eq_of_length_le (of_decide_eq_true hdone)
        exact ⟨hcontent.trans heq, List.length_pos_iff.1 hpos⟩
    · rintro e l' ⟨part, hpart, hcontent, htorn, hkept, hfinal⟩
      refine ⟨⟨hcontent ▸ hpart, fun ht => ?_, fun ha => hkept ha (hl.whole ha)⟩, fun hwhole => ?_,
        fun hretry => ?_⟩
      · obtain ⟨hclean, rfl⟩ := htorn ht
        rw [List.append_nil] at hcontent
        exact (congrArg List.length hcontent).trans (hl.length hclean)
      · exact ⟨hcontent.trans (complete_grow hpart hwhole).1, hwhole.2⟩
      · rw [hfinal hretry, List.append_nil] at hcontent
        exact ⟨congrArg List.length hcontent.symm, rfl, hpos, hlt⟩

/-! ## Many runs -/

def DownloadAct.Honest (R : Bytes) : DownloadAct → Prop
  | .start _ _ => True
  | .run a => HonestCall R a

/-- A write that fails in this call has written nothing. -/
def DownloadAct.Atomic : DownloadAct → Prop
  | .start _ _ => True
  | .run a => AtomicCall a

namespace DownloadRun

theorem step_good {r r' : DownloadRun} {a : DownloadAct} (hg : r.Good (downloadInv R atomic))
    (honest : a.Honest R) (hatomic : atomic → a.Atomic) (h : DownloadRun.step build r a = some r') :
    r'.Good (downloadInv R atomic) := by
  cases a with
  | start inner startOffset =>
    unfold DownloadRun.step at h
    simp only at h
    split at h
    · cases h
      exact ⟨hg.always, trivial, hg.completed⟩
    · cases h
  | run a => exact (Drive.Good.step hg (downloads_keeps r.inner r.startOffset) ⟨honest, hatomic⟩ h).1

/-- A file that is absent, or a prefix of the resource, can be resumed. -/
theorem init_good {inner : InnerTask} {file : Option Bytes} (hfile : ∀ bs, file = some bs → bs <+: R) :
    (init inner file).Good (downloadInv R atomic) := by
  refine ⟨⟨?_, fun _ => rfl, fun _ => rfl⟩, trivial, fun _ _ hmem => ?_⟩
  · cases file with
    | none => exact List.nil_prefix
    | some bs => exact hfile bs rfl
  · cases hmem

/-- **Resumable downloads.** Any number of runs over the same file, each ended in any way and against
answers that carry no foreign bytes: the file stays absent or a prefix of the resource; its length is the
`next_offset` of the last chunk that succeeded, or what it was at first, unless a write has failed after
a part of its bytes since (never, where writes take effect as a whole); and once a run has reported
`Completed`, the file is the resource, and stays it. -/
theorem download_resumes {inner : InnerTask} {file : Option Bytes} {acts : List DownloadAct}
    {r : DownloadRun} (hfile : ∀ bs, file = some bs → bs <+: R) (honest : ∀ a ∈ acts, a.Honest R)
    (h : Lts.run (DownloadRun.step build) (init inner file) acts = some r) :
    (∀ bs, r.loc.world.file = some bs → bs <+: R) ∧
      (r.loc.world.torn = false → r.loc.world.content.length = r.last) ∧
      ((∀ a ∈ acts, a.Atomic) → r.loc.world.content.length = r.last) ∧
      ∀ key total, WorkerEvent.completed key total ∈ r.sent → r.loc.world.file = some R := by
  have hr : r.Good (downloadInv R (∀ a ∈ acts, a.Atomic)) :=
    Lts.run_invariant_of_meets (C := fun _ a => a.Honest R ∧ ((∀ a ∈ acts, a.Atomic) → a.Atomic))
      (fun _ _ _ hi ha hs => step_good hi ha.1 ha.2 hs) (init_good hfile)
      (Lts.Meets.of_forall fun a ha _ => ⟨honest a ha, fun hatomic => hatomic a ha⟩) h
  refine ⟨fun bs hbs => ?_, hr.always.length, fun hatomic => ?_, fun key total hmem => ?_⟩
  · have hcontent : r.loc.world.content = bs := by rw [Disk.content, hbs, Option.getD_some]
    exact hcontent ▸ hr.always.content
  · exact hr.always.length (hr.always.whole hatomic)
  · obtain ⟨hcontent, hne⟩ := hr.completed key total hmem
    unfold Disk.content at hcontent
    cases hf : r.loc.world.file with
    | none => exact absurd (by rw [← hcontent, hf, Option.getD_none]) hne
    | some bs => rw [← hcontent, hf, Option.getD_some]

/-! ### A run -/

/-- A download of four bytes, in chunks of two. -/
def sampleDownload : InnerTask where
  taskId := ⟨1⟩
  fileSign := ""
  fileName := "cat"
  filePath := ⟨"/tmp/cat", some "/tmp"⟩
  direction := .download
  totalSize := 0
  chunkSize := 2
  url := "http://cat"
  maxChunkRetries := 3

/-- The answer to the whole rest, whatever was asked for. -/
def sampleRest : RangeResponse where
  status := ⟨206, "206 Partial Content"⟩
  contentRange := some "bytes 1-3/4"
  text := ""
  body := .ok [2, 3, 4]

theorem sampleRest_honest : HonestRange [1, 2, 3, 4] sampleRest := by
  intro _ contentRange start last total data hcr hparse hbody _
  cases hcr
  cases hbody
  have hrange : parseContentRange "bytes 1-3/4" = .ok (1, 3, some 4) := by decide
  rw [hrange] at hparse
  cases hparse
  decide

/-- One byte is there; the first request fails and is tried again after the backoff. -/
def sampleActs : List DownloadAct :=
  [.start sampleDownload 0, .run (.prepare ([], .ok ⟨⟨200, "200 OK"⟩, some "4"⟩)),
    .run (.worker (.token false)), .run (.worker (.attempt (.token false))),
    .run (.chunk ([], fun _ => .error "connection reset")), .run (.worker (.attempt (.woken false))),
    .run (.worker (.attempt (.token false))), .run (.chunk ([], fun _ => .ok sampleRest)),
    .run (.worker .sent), .run (.worker .sent)]

theorem sampleActs_honest : ∀ a ∈ sampleActs, a.Honest [1, 2, 3, 4] := by
  simp only [sampleActs, List.forall_mem_cons, DownloadAct.Honest, HonestCall]
  refine ⟨trivial, ?_, trivial, trivial, ?_, trivial, trivial, ?_, trivial, trivial, ?_⟩
  · intro resp hresp _ n hn
    cases hresp
    have hlen : totalSizeFromHead (some "4") = .ok 4 := by decide
    exact (Except.ok.inj (hlen.symm.trans hn)).symm
  · intro spec resp hresp
    cases hresp
  · intro spec resp hresp
    cases hresp
    exact sampleRest_honest
  · exact fun _ h => nomatch h

theorem sampleActs_atomic : ∀ a ∈ sampleActs, a.Atomic := by
  simp [sampleActs, DownloadAct.Atomic, AtomicCall, WholeWrites]

theorem download_resumes_retried :
    let r := Lts.final (step .debug) (init sampleDownload (some [1])) sampleActs
    r.loc.world.file = some [1, 2, 3, 4] ∧ r.loc.world.content.length = r.last ∧
      r.sent = [.progress sampleDownload.dedupeKey 4 4, .completed sampleDownload.dedupeKey 4] := by
  have hrun : Lts.run (step .debug) (init sampleDownload (some [1])) sampleActs = some _ :=
    Lts.run_final (by decide)
  obtain ⟨-, -, hlength, hcompleted⟩ :=
    download_resumes (R := [1, 2, 3, 4]) (by decide) sampleActs_honest hrun
  have hsent : (Lts.final (step .debug) (init sampleDownload (some [1])) sampleActs).sent =
      [.progress sampleDownload.dedupeKey 4 4, .completed sampleDownload.dedupeKey 4] := by decide
  exact ⟨hcompleted sampleDownload.dedupeKey 4 (by rw [hsent]; decide), hlength sampleActs_atomic, hsent⟩

end DownloadRun

end SpottedCat
